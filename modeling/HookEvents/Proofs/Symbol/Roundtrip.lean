import HookEvents.Proofs.Json.Roundtrip
import HookEvents.Proofs.Symbol.ClosedForm
import Mathlib.Data.Option.Basic

namespace HookEvents

open Json

theorem mapM_map_eq_some {α β : Type} {f : α → β} {g : β → Option α} {r : α → α} {as : List α}
    (h : ∀ a ∈ as, g (f a) = some (r a)) : (as.map f).mapM g = some (as.map r) := by
  induction as with
  | nil => rfl
  | cons a as ih =>
    have hrest := ih fun other ho => h other (by simp [ho])
    simp [List.mapM_cons, h a (by simp), hrest]

theorem list?_map {α : Type} {encode : α → Json} {decode : Json → Option α} {r : α → α}
    {as : List α} (h : ∀ a ∈ as, decode (encode a) = some (r a)) :
    list? decode (.array (as.map encode)) = some (as.map r) :=
  mapM_map_eq_some h

theorem list?_texts (texts : List String) :
    list? text? (.array (texts.map .text)) = some texts := by
  have htexts : ∀ text ∈ texts, text? (.text text) = some (id text) := fun _ _ => rfl
  simpa using list?_map htexts

theorem mem_of_mapM_eq_some {α β : Type} {f : α → Option β} {as : List α} {bs : List β}
    (h : as.mapM f = some bs) {b : β} (hb : b ∈ bs) : ∃ a ∈ as, f a = some b := by
  induction as generalizing bs with
  | nil =>
    obtain rfl : [] = bs := Option.some.inj h
    exact absurd hb List.not_mem_nil
  | cons a as ih =>
    simp only [List.mapM_cons, Option.bind_eq_bind, Option.bind_eq_some_iff] at h
    obtain ⟨first, hfirst, rest, hrest, h⟩ := h
    obtain rfl : first :: rest = bs := Option.some.inj h
    rcases List.mem_cons.mp hb with rfl | hb
    · exact ⟨a, by simp, hfirst⟩
    · obtain ⟨other, ho, hf⟩ := ih hrest hb
      exact ⟨other, by simp [ho], hf⟩

theorem mem_of_list?_eq_some {α : Type} {decode : Json → Option α} {value : Json} {as : List α}
    (h : list? decode value = some as) {a : α} (ha : a ∈ as) : ∃ item, decode item = some a := by
  cases value with
  | array items =>
    obtain ⟨item, -, hi⟩ := mem_of_mapM_eq_some h ha
    exact ⟨item, hi⟩
  | _ => exact absurd h (by simp [list?])

theorem Fields.exists_of_required {α : Type} {fields : Fields} {name : String} {position : Nat}
    {decode : Json → Option α} {a : α} (h : fields.required name position decode = some a) :
    ∃ value, decode value = some a := by
  simp only [Fields.required, Option.bind_eq_bind, Option.bind_eq_some_iff] at h
  obtain ⟨_, _, value, _, hv⟩ := h
  exact ⟨value, hv⟩

theorem Fields.exists_of_optional {α : Type} {fields : Fields} {name : String} {position : Nat}
    {decode : Json → Option α} {default a : α}
    (h : fields.optional name position decode default = some a) :
    a = default ∨ ∃ value, decode value = some a := by
  simp only [Fields.optional, Option.bind_eq_bind, Option.bind_eq_some_iff] at h
  obtain ⟨value, _, hv⟩ := h
  cases value with
  | some value => exact Or.inr ⟨value, hv⟩
  | none => exact Or.inl (Option.some.inj hv).symm

theorem valuesOf_cons (key other : String) (value : Json) (entries : List (String × Json)) :
    valuesOf key ((other, value) :: entries) =
      if other = key then value :: valuesOf key entries else valuesOf key entries := by
  by_cases hk : other = key <;> simp [valuesOf, hk]

theorem valuesOf_append (key : String) (front back : List (String × Json)) :
    valuesOf key (front ++ back) = valuesOf key front ++ valuesOf key back := by
  simp [valuesOf]

namespace Method

/-- The method as it is read back: a text that stands for the absence of a result is gone. -/
def reread (method : Method) : Method :=
  { method with returnType := method.returnType.bind returnTypeOf }

theorem reread_eq {method : Method} (h : ∀ text ∈ method.returnType, isVoidText text = false) :
    method.reread = method := by
  obtain ⟨name, isStatic, parameters, returnType, typeParameters⟩ := method
  cases returnType with
  | none => rfl
  | some text =>
    have hvoid : returnTypeOf text = some text := by simp [returnTypeOf, h text rfl]
    simp [reread, hvoid]

theorem ofFields?_toEntries (method : Method) :
    ofFields? (.named method.toEntries) = some method.reread := by
  obtain ⟨name, isStatic, parameters, returnType, typeParameters⟩ := method
  by_cases ht : typeParameters = [] <;> cases returnType <;>
    simp [ht, reread, ofFields?, toEntries, Fields.required, Fields.optional, Fields.value?,
      valuesOf, text?, bool?, nullable?, list?_texts, Fields.fits, guard]

theorem isVoidText_of_returnTypeOf {text result : String} (h : returnTypeOf text = some result) :
    isVoidText result = false := by
  unfold returnTypeOf at h
  by_cases hv : isVoidText text = true
  · simp [hv] at h
  · obtain rfl : text = result := by simpa [hv] using h
    simpa using hv

theorem isVoidText_of_ofFields? {fields : Fields} {method : Method}
    (h : ofFields? fields = some method) :
    ∀ text ∈ method.returnType, isVoidText text = false := by
  simp only [ofFields?, Option.bind_eq_bind, Option.bind_eq_some_iff] at h
  obtain ⟨_, _, _, _, _, _, returnType, _, _, _, _, _, h⟩ := h
  obtain rfl := Option.some.inj h
  intro text ht
  obtain ⟨_, _, hresult⟩ := Option.bind_eq_some_iff.mp ht
  exact isVoidText_of_returnTypeOf hresult

end Method

theorem Json.plain_texts (texts : List String) : Plain (.array (texts.map .text)) := by
  refine .array fun item hi => ?_
  obtain ⟨text, -, rfl⟩ := List.mem_map.mp hi
  exact .text text

theorem Json.soundItems_eq_true {items : List Json} (h : ∀ item ∈ items, item.sound = true) :
    soundItems items = true := by
  induction items with
  | nil => rfl
  | cons item items ih =>
    rw [soundItems, h item (by simp), ih fun other ho => h other (by simp [ho]), Bool.and_true]

theorem Json.soundEntries_eq_true {entries : List (String × Json)}
    (h : ∀ entry ∈ entries, entry.2.sound = true) : soundEntries entries = true := by
  induction entries with
  | nil => rfl
  | cons entry entries ih =>
    have hentry : entry.2.sound = true := h entry (by simp)
    rw [soundEntries, hentry, ih fun other ho => h other (by simp [ho]), Bool.and_true]

theorem Json.Plain.sound {value : Json} (h : Plain value) : value.sound = true := by
  induction h with
  | null => rfl
  | bool b => rfl
  | text s => rfl
  | array _ ih => exact soundItems_eq_true ih
  | object _ ih => exact soundEntries_eq_true ih

theorem Json.depth_texts (texts : List String) : (Json.array (texts.map .text)).depth = 1 := by
  have hitems : depthItems (texts.map .text) = 0 := by
    induction texts with
    | nil => rfl
    | cons text texts ih => simp [depthItems, depth, ih]
  rw [depth, hitems]

theorem Method.depth_toEntries (method : Method) : depthEntries method.toEntries ≤ 1 := by
  unfold Method.toEntries
  cases method.returnType <;> by_cases ht : method.typeParameters = [] <;>
    simp [ht, depthEntries, Json.depth_texts] <;> simp [depth]

theorem Method.key_ne_kind (method : Method) : ∀ entry ∈ method.toEntries, entry.1 ≠ "kind" := by
  unfold Method.toEntries
  cases method.returnType <;> by_cases ht : method.typeParameters = [] <;> simp [ht]

theorem Method.plain_toEntries (method : Method) : ∀ entry ∈ method.toEntries, Plain entry.2 := by
  unfold Method.toEntries
  cases method.returnType <;> by_cases ht : method.typeParameters = [] <;>
    simp [ht, Plain.text, Plain.bool, Json.plain_texts]

namespace Member

def NamesResults : Member → Prop
  | .method m => ∀ text ∈ m.returnType, Method.isVoidText text = false
  | _ => True

def reread : Member → Member
  | .method m => .method m.reread
  | other => other

theorem reread_eq {member : Member} (h : member.NamesResults) : member.reread = member := by
  cases member with
  | method m => exact congrArg Member.method (Method.reread_eq h)
  | field _ | property _ | nestedType _ => rfl

theorem plain_toJson (member : Member) : Plain member.toJson := by
  cases member with
  | method m => exact .object (List.forall_mem_cons.mpr ⟨.text _, m.plain_toEntries⟩)
  | field name => exact .object (by simp [Plain.text])
  | property name => exact .object (by simp [Plain.text])
  | nestedType name => exact .object (by simp [Plain.text])

theorem depth_toJson (member : Member) : member.toJson.depth ≤ 2 := by
  cases member with
  | method m =>
    have hentries := m.depth_toEntries
    simp only [toJson, depth, depthEntries]
    omega
  | field name => exact Nat.le_succ 1
  | property name => exact Nat.le_succ 1
  | nestedType name => exact Nat.le_succ 1

theorem ofJson?_toJson (member : Member) {level : Nat} (hl : level ≤ 125) :
    ofJson? level member.toJson = some member.reread := by
  have hsound := member.plain_toJson.sound
  have hdepth := member.depth_toJson
  have hguard : (member.toJson.sound && level + member.toJson.depth ≤ depthLimit) = true := by
    rw [hsound, Bool.true_and]
    apply decide_eq_true
    unfold depthLimit
    omega
  unfold ofJson?
  rw [hguard]
  cases member with
  | method m =>
    have hother : ∀ entry ∈ m.toEntries, decide (entry.1 = "kind") = false := fun entry he =>
      decide_eq_false (m.key_ne_kind entry he)
    have hkind : valuesOf "kind" (("kind", .text "method") :: m.toEntries) = [.text "method"] := by
      have hnone : valuesOf "kind" m.toEntries = [] := by
        rw [valuesOf, List.filter_eq_nil_iff.mpr fun entry he => by simp [hother entry he]]
        rfl
      exact congrArg (Json.text "method" :: ·) hnone
    have hrest : (("kind", .text "method") :: m.toEntries).filter (fun entry => entry.1 ≠ "kind") =
        m.toEntries :=
      List.filter_eq_self.mpr fun entry he => decide_eq_true (m.key_ne_kind entry he)
    have htag : tagged? (Member.method m).toJson = some ("method", .named m.toEntries) := by
      simp only [toJson, tagged?, hkind, hrest]
      rfl
    simp [guard, htag, Method.ofFields?_toEntries m, reread]
  | field name => rfl
  | property name => rfl
  | nestedType name => rfl

theorem namesResults_of_ofJson? {level : Nat} {value : Json} {member : Member}
    (h : ofJson? level value = some member) : member.NamesResults := by
  cases member with
  | method m =>
    simp only [ofJson?, Option.bind_eq_bind, Option.bind_eq_some_iff] at h
    obtain ⟨_, _, ⟨tag, fields⟩, _, h⟩ := h
    dsimp only at h
    by_cases hm : tag = "method"
    · rw [if_pos hm, Option.bind_eq_some_iff] at h
      obtain ⟨method, hmethod, h⟩ := h
      obtain rfl : method = m := by simpa using h
      exact Method.isVoidText_of_ofFields? hmethod
    · rw [if_neg hm] at h
      split at h
      · simp [Option.bind_eq_some_iff] at h
      split at h
      · simp [Option.bind_eq_some_iff] at h
      split at h <;> simp [Option.bind_eq_some_iff] at h
  | field _ | property _ | nestedType _ => trivial

end Member

namespace TypeSymbol

theorem valuesOf_textsEntry (key other : String) (texts : List String) :
    valuesOf key (textsEntry other texts) =
      if other = key ∧ texts ≠ [] then [.array (texts.map .text)] else [] := by
  by_cases ht : texts = []
  · simp [textsEntry, ht, valuesOf]
  · by_cases hk : other = key <;> simp [textsEntry, ht, hk, valuesOf]

theorem optional_texts {entries : List (String × Json)} {key : String} {texts : List String}
    (h : valuesOf key entries = valuesOf key (textsEntry key texts)) (position : Nat) :
    (Fields.named entries).optional key position (list? text?) [] = some texts := by
  rw [valuesOf_textsEntry] at h
  unfold Fields.optional Fields.value?
  by_cases ht : texts = []
  · simp [h, ht]
  · simp [h, ht, list?_texts]

theorem exists_entries (symbol : TypeSymbol) :
    ∃ entries, symbol.toJson = .object entries ∧
      valuesOf "name" entries = [.text symbol.name] ∧
      valuesOf "namespace" entries = (symbol.namespaceName.map Json.text).toList ∧
      valuesOf "containing_types" entries =
        valuesOf "containing_types" (textsEntry "containing_types" symbol.containingTypes) ∧
      valuesOf "members" entries = [.array (symbol.members.map Member.toJson)] ∧
      valuesOf "type_parameters" entries =
        valuesOf "type_parameters" (textsEntry "type_parameters" symbol.typeParameters) ∧
      valuesOf "usings" entries = valuesOf "usings" (textsEntry "usings" symbol.usings) := by
  refine ⟨_, rfl, ?_⟩
  cases symbol.namespaceName <;>
    simp [valuesOf_append, valuesOf_cons, valuesOf_textsEntry]

def reread (symbol : TypeSymbol) : TypeSymbol :=
  { symbol with members := symbol.members.map Member.reread }

theorem reread_eq {symbol : TypeSymbol} (h : ∀ member ∈ symbol.members, member.NamesResults) :
    symbol.reread = symbol := by
  have hmembers : symbol.members.map Member.reread = symbol.members := by
    rw [List.map_congr_left fun member hm => Member.reread_eq (h member hm), List.map_id']
  rw [reread, hmembers]

theorem ofJson?_toJson (symbol : TypeSymbol) {level : Nat} (hl : level ≤ 123) :
    ofJson? level symbol.toJson = some symbol.reread := by
  obtain ⟨entries, he, hname, hnamespace, hcontaining, hmembers, hparameters, husings⟩ :=
    symbol.exists_entries
  have hlist : list? (Member.ofJson? (level + 2)) (.array (symbol.members.map Member.toJson)) =
      some (symbol.members.map Member.reread) :=
    list?_map fun member _ => member.ofJson?_toJson (by omega)
  have hrequired : (Fields.named entries).required "name" 0 text? = some symbol.name := by
    simp [Fields.required, Fields.value?, hname, text?]
  have hnullable : (Fields.named entries).optional "namespace" 1 (nullable? text?) none =
      some symbol.namespaceName := by
    cases hn : symbol.namespaceName <;>
      simp [Fields.optional, Fields.value?, hnamespace, hn, nullable?, text?]
  have hoptional : (Fields.named entries).optional "members" 3
      (list? (Member.ofJson? (level + 2))) [] = some (symbol.members.map Member.reread) := by
    simp [Fields.optional, Fields.value?, hmembers, hlist]
  simp [ofJson?, he, Fields.ofJson?, hrequired, hnullable, hoptional, optional_texts hcontaining,
    optional_texts hparameters, optional_texts husings, Fields.fits, guard, reread]

theorem namesResults_of_ofJson? {level : Nat} {value : Json} {symbol : TypeSymbol}
    (h : ofJson? level value = some symbol) : ∀ member ∈ symbol.members, member.NamesResults := by
  simp only [ofJson?, Option.bind_eq_bind, Option.bind_eq_some_iff] at h
  obtain ⟨_, _, _, _, _, _, _, _, members, hmembers, _, _, _, _, _, _, h⟩ := h
  obtain rfl := Option.some.inj h
  intro member hm
  rcases Fields.exists_of_optional hmembers with rfl | ⟨_, hlist⟩
  · exact absurd hm List.not_mem_nil
  · obtain ⟨_, hitem⟩ := mem_of_list?_eq_some hlist hm
    exact Member.namesResults_of_ofJson? hitem

theorem plain_textsEntry (key : String) (texts : List String) :
    ∀ entry ∈ textsEntry key texts, Plain entry.2 := by
  unfold textsEntry
  by_cases ht : texts = [] <;> simp [ht, Json.plain_texts]

theorem plain_toJson (symbol : TypeSymbol) : Plain symbol.toJson := by
  have hmembers : Plain (.array (symbol.members.map Member.toJson)) := by
    apply Plain.array
    intro item hi
    obtain ⟨member, -, rfl⟩ := List.mem_map.mp hi
    exact member.plain_toJson
  apply Plain.object
  intro entry he
  simp only [List.mem_append, List.mem_singleton] at he
  rcases he with ((((rfl | he) | he) | rfl) | he) | he
  · exact .text _
  · cases hn : symbol.namespaceName with
    | none =>
      rw [hn] at he
      exact absurd he List.not_mem_nil
    | some name =>
      rw [hn] at he
      obtain rfl := List.mem_singleton.mp he
      exact .text name
  · exact plain_textsEntry _ _ entry he
  · exact hmembers
  · exact plain_textsEntry _ _ entry he
  · exact plain_textsEntry _ _ entry he

end TypeSymbol

namespace TypeTable

def NamesResults (table : TypeTable) : Prop :=
  ∀ symbol ∈ table.types, ∀ method ∈ symbol.methods, ∀ text ∈ method.returnType,
    Text.trim text ∉ ["", "void", "System.Void", "global::System.Void"]

theorem isVoidText_eq_false_iff {text : String} : Method.isVoidText text = false ↔
    Text.trim text ∉ ["", "void", "System.Void", "global::System.Void"] := by
  simp [Method.isVoidText, Method.voidNames]

theorem namesResults_iff {table : TypeTable} : table.NamesResults ↔
    ∀ symbol ∈ table.types, ∀ member ∈ symbol.members, member.NamesResults := by
  constructor
  · intro h symbol hs member hm
    cases member with
    | method m =>
      have hmethod : m ∈ symbol.methods := List.mem_filterMap.mpr ⟨.method m, hm, rfl⟩
      exact fun text ht => isVoidText_eq_false_iff.mpr (h symbol hs m hmethod text ht)
    | field _ | property _ | nestedType _ => trivial
  · intro h symbol hs method hmethod text ht
    obtain ⟨member, hm, hmember⟩ := List.mem_filterMap.mp hmethod
    have hnames := h symbol hs member hm
    cases member with
    | method m =>
      obtain rfl := Option.some.inj hmember
      exact isVoidText_eq_false_iff.mp (hnames text ht)
    | field _ | property _ | nestedType _ => exact absurd hmember (by simp [Member.method?])

def symbolsIn? (text : String) : Option (List TypeSymbol) := (parse text).bind symbolsOf?

def listing (symbols : List TypeSymbol) : String :=
  pretty (.object [("types", .array (symbols.map TypeSymbol.toJson))])

theorem symbolsIn?_listing (symbols : List TypeSymbol) :
    symbolsIn? (listing symbols) = some (symbols.map TypeSymbol.reread) := by
  have hplain : Plain (.object [("types", .array (symbols.map TypeSymbol.toJson))]) := by
    refine .object fun entry he => ?_
    obtain rfl := List.mem_singleton.mp he
    refine .array fun item hi => ?_
    obtain ⟨symbol, -, rfl⟩ := List.mem_map.mp hi
    exact symbol.plain_toJson
  have hlist : list? (TypeSymbol.ofJson? 2) (.array (symbols.map TypeSymbol.toJson)) =
      some (symbols.map TypeSymbol.reread) :=
    list?_map fun symbol _ => symbol.ofJson?_toJson (by omega)
  simp [symbolsIn?, listing, parse_pretty hplain, symbolsOf?, Fields.ofJson?, Fields.required,
    Fields.value?, valuesOf, hlist, Fields.fits, guard]

theorem namesResults_of_symbolsIn? {text : String} {symbols : List TypeSymbol}
    (h : symbolsIn? text = some symbols) :
    ∀ symbol ∈ symbols, ∀ member ∈ symbol.members, member.NamesResults := by
  intro symbol hs
  obtain ⟨value, -, hvalue⟩ := Option.bind_eq_some_iff.mp h
  simp only [symbolsOf?, Option.bind_eq_bind, Option.bind_eq_some_iff] at hvalue
  obtain ⟨_, _, _, hrequired, _, _, hvalue⟩ := hvalue
  obtain rfl := Option.some.inj hvalue
  obtain ⟨_, hlist⟩ := Fields.exists_of_required hrequired
  obtain ⟨_, hitem⟩ := mem_of_list?_eq_some hlist hs
  exact TypeSymbol.namesResults_of_ofJson? hitem

theorem namesResults_of_ofJsonText? {text : String} {table : TypeTable}
    (h : ofJsonText? text = some table) : table.NamesResults := by
  rw [ofJsonText?_eq] at h
  obtain ⟨symbols, hsymbols, rfl⟩ := Option.map_eq_some_iff.mp h
  rw [namesResults_iff]
  intro entry he member hm
  obtain ⟨symbol, hs, hm⟩ := (built_ofList symbols).exists_of_mem_members he hm
  exact namesResults_of_symbolsIn? hsymbols symbol hs member hm

theorem symbolsIn?_toJsonText (table : TypeTable) :
    symbolsIn? table.toJsonText = some (table.types.map TypeSymbol.reread) :=
  symbolsIn?_listing table.types

theorem ofJsonText?_reread (table : TypeTable) :
    ofJsonText? table.toJsonText = some (ofList (table.types.map TypeSymbol.reread)) := by
  rw [ofJsonText?_eq, ← symbolsIn?, symbolsIn?_toJsonText, Option.map_some]

theorem ofList_reread {table : TypeTable} (h : table.NamesResults) :
    ofList (table.types.map TypeSymbol.reread) = table := by
  have hsame := List.map_congr_left fun symbol hs =>
    TypeSymbol.reread_eq (namesResults_iff.mp h symbol hs)
  rw [hsame, List.map_id', ofList_types]

theorem ofJsonText?_toJsonText {table : TypeTable} (h : table.NamesResults) :
    ofJsonText? table.toJsonText = some table := by
  rw [ofJsonText?_reread, ofList_reread h]

end TypeTable
end HookEvents
