import HookEvents.Proofs.TypeText.Qualify
import HookEvents.Proofs.TypeText.Roundtrip
import HookEvents.Proofs.TypeText.Table

/-!
Qualifying a table twice is qualifying it once: what is found has an alias afterwards, and what is
not found the first time is not found again.
-/
namespace HookEvents

open Text

namespace TypeText

mutual

def plainNames : TypeText → List (List (String × List TypeText))
  | .named (some _) segments => plainNamesInSegments segments
  | .named none segments => segments :: plainNamesInSegments segments
  | .tuple elements => plainNamesInElements elements
  | .suffixed element _ => element.plainNames

def plainNamesInAll : List TypeText → List (List (String × List TypeText))
  | [] => []
  | type :: types => type.plainNames ++ plainNamesInAll types

def plainNamesInSegments :
    List (String × List TypeText) → List (List (String × List TypeText))
  | [] => []
  | (_, arguments) :: segments => plainNamesInAll arguments ++ plainNamesInSegments segments

def plainNamesInElements :
    List (TypeText × Option String) → List (List (String × List TypeText))
  | [] => []
  | (type, _) :: elements => type.plainNames ++ plainNamesInElements elements

end

def find (lookup : Lookup) (segments : List (String × List TypeText)) : Option String :=
  (lookupKey segments).bind fun key => lookup key.1 key.2

theorem qualify_plain (lookup : Lookup) (segments : List (String × List TypeText)) :
    qualify lookup (.named none segments) =
      qualifiedName (find lookup segments) (qualifySegments lookup segments) := by
  rw [qualify]
  rfl

def Missed (lookup : Lookup) (names : List (List (String × List TypeText))) : Prop :=
  ∀ segments ∈ names, find lookup segments = none

theorem missed_append {lookup : Lookup} {names more : List (List (String × List TypeText))} :
    Missed lookup (names ++ more) ↔ Missed lookup names ∧ Missed lookup more :=
  List.forall_mem_append

theorem missed_cons {lookup : Lookup} {segments : List (String × List TypeText)}
    {names : List (List (String × List TypeText))} :
    Missed lookup (segments :: names) ↔ find lookup segments = none ∧ Missed lookup names :=
  List.forall_mem_cons

section

variable (lookup : Lookup)

mutual

theorem qualify_eq_self_iff (type : TypeText) :
    type.qualify lookup = type ↔ Missed lookup type.plainNames := by
  match type with
  | .named (some root) segments =>
    simp [qualify, plainNames, qualifySegments_eq_self_iff segments]
  | .named none segments =>
    rw [qualify_plain, plainNames, missed_cons]
    cases hf : find lookup segments with
    | none => simp [qualifiedName, qualifySegments_eq_self_iff segments]
    | some name => simp [qualifiedName]
  | .tuple elements => simp [qualify, plainNames, qualifyElements_eq_self_iff elements]
  | .suffixed element suffix => simp [qualify, plainNames, qualify_eq_self_iff element]

theorem qualifyAll_eq_self_iff (types : List TypeText) :
    qualifyAll lookup types = types ↔ Missed lookup (plainNamesInAll types) := by
  match types with
  | [] => simp [qualifyAll, plainNamesInAll, Missed]
  | type :: types =>
    simp [qualifyAll, plainNamesInAll, missed_append, qualify_eq_self_iff type,
      qualifyAll_eq_self_iff types]

theorem qualifySegments_eq_self_iff (segments : List (String × List TypeText)) :
    qualifySegments lookup segments = segments ↔ Missed lookup (plainNamesInSegments segments) := by
  match segments with
  | [] => simp [qualifySegments, plainNamesInSegments, Missed]
  | (name, arguments) :: segments =>
    simp [qualifySegments, plainNamesInSegments, missed_append, qualifyAll_eq_self_iff arguments,
      qualifySegments_eq_self_iff segments]

theorem qualifyElements_eq_self_iff (elements : List (TypeText × Option String)) :
    qualifyElements lookup elements = elements ↔
      Missed lookup (plainNamesInElements elements) := by
  match elements with
  | [] => simp [qualifyElements, plainNamesInElements, Missed]
  | (type, name) :: elements =>
    simp [qualifyElements, plainNamesInElements, missed_append, qualify_eq_self_iff type,
      qualifyElements_eq_self_iff elements]

end

end

theorem lookupKey_cons (name : String) (arguments : List TypeText)
    {segments : List (String × List TypeText)} (h : segments ≠ []) :
    lookupKey ((name, arguments) :: segments) =
      if arguments.isEmpty then (lookupKey segments).map fun key => (name ++ "." ++ key.1, key.2)
      else none := by
  cases segments with
  | nil => exact absurd rfl h
  | cons second segments => rfl

theorem lookupKey_qualifySegments (lookup : Lookup) (segments : List (String × List TypeText)) :
    lookupKey (qualifySegments lookup segments) = lookupKey segments := by
  induction segments with
  | nil => rfl
  | cons segment segments ih =>
    obtain ⟨name, arguments⟩ := segment
    have hempty : (qualifyAll lookup arguments).isEmpty = arguments.isEmpty := by
      rw [qualifyAll_eq_map, List.isEmpty_map]
    cases segments with
    | nil =>
      rw [qualifySegments, qualifySegments, lookupKey, lookupKey, qualifyAll_eq_map,
        List.length_map]
    | cons second segments =>
      have hne : qualifySegments lookup (second :: segments) ≠ [] := by simp [qualifySegments]
      rw [qualifySegments, lookupKey_cons name _ hne, hempty, ih, ← lookupKey_cons name _ (by simp)]

theorem find_qualifySegments (lookup : Lookup) (segments : List (String × List TypeText)) :
    find lookup (qualifySegments lookup segments) = find lookup segments := by
  rw [find, lookupKey_qualifySegments, find]

theorem plainNamesInSegments_eq (segments : List (String × List TypeText)) :
    plainNamesInSegments segments = segments.flatMap fun segment => plainNamesInAll segment.2 := by
  induction segments with
  | nil => rfl
  | cons segment segments ih => rw [plainNamesInSegments, ih, List.flatMap_cons]

def lastArguments (segments : List (String × List TypeText)) : List TypeText :=
  (segments.getLast?.map (·.2)).getD []

theorem missed_lastArguments {lookup : Lookup} {segments : List (String × List TypeText)}
    (h : Missed lookup (plainNamesInSegments segments)) :
    Missed lookup (plainNamesInAll (lastArguments segments)) := by
  rw [lastArguments]
  cases hl : segments.getLast? with
  | none => simp [plainNamesInAll, Missed]
  | some last =>
    intro names hn
    apply h
    rw [plainNamesInSegments_eq]
    exact List.mem_flatMap.mpr ⟨last, List.mem_of_getLast? hl, hn⟩

theorem missed_withArguments {lookup : Lookup} {arguments : List TypeText} (names : List String)
    (h : Missed lookup (plainNamesInAll arguments)) :
    Missed lookup (plainNamesInSegments (withArguments arguments names)) := by
  have hempty : Missed lookup (plainNamesInAll []) := by simp [plainNamesInAll, Missed]
  induction names with
  | nil => exact hempty
  | cons name names ih =>
    cases names with
    | nil => simpa [withArguments, plainNamesInSegments] using h
    | cons second names => exact missed_append.mpr ⟨hempty, ih⟩

section

variable (lookup : Lookup)

mutual

theorem missed_qualify (type : TypeText) : Missed lookup (type.qualify lookup).plainNames := by
  match type with
  | .named (some root) segments => exact missed_qualifySegments segments
  | .named none segments =>
    have hsegments := missed_qualifySegments segments
    rw [qualify_plain]
    cases hf : find lookup segments with
    | none => exact missed_cons.mpr ⟨(find_qualifySegments lookup segments).trans hf, hsegments⟩
    | some name => exact missed_withArguments _ (missed_lastArguments hsegments)
  | .tuple elements => exact missed_qualifyElements elements
  | .suffixed element suffix => exact missed_qualify element

theorem missed_qualifyAll (types : List TypeText) :
    Missed lookup (plainNamesInAll (qualifyAll lookup types)) := by
  match types with
  | [] => simp [qualifyAll, plainNamesInAll, Missed]
  | type :: types => exact missed_append.mpr ⟨missed_qualify type, missed_qualifyAll types⟩

theorem missed_qualifySegments (segments : List (String × List TypeText)) :
    Missed lookup (plainNamesInSegments (qualifySegments lookup segments)) := by
  match segments with
  | [] => simp [qualifySegments, plainNamesInSegments, Missed]
  | (name, arguments) :: segments =>
    exact missed_append.mpr ⟨missed_qualifyAll arguments, missed_qualifySegments segments⟩

theorem missed_qualifyElements (elements : List (TypeText × Option String)) :
    Missed lookup (plainNamesInElements (qualifyElements lookup elements)) := by
  match elements with
  | [] => simp [qualifyElements, plainNamesInElements, Missed]
  | (type, name) :: elements =>
    exact missed_append.mpr ⟨missed_qualify type, missed_qualifyElements elements⟩

end

end

theorem isIdentifier_iff {name : String} : IsIdentifier name ↔
    (name.toList.head?.any isNameStart && name.toList.tail.all isNamePart) = true := by
  rw [IsIdentifier, Bool.and_eq_true, List.all_eq_true]
  cases name.toList with
  | nil => simp
  | cons first rest =>
    constructor
    · rintro ⟨c, cs, hname, hc, hcs⟩
      obtain ⟨rfl, rfl⟩ := List.cons.inj hname
      exact ⟨hc, hcs⟩
    · exact fun h => ⟨first, rest, rfl, h.1, h.2⟩

instance : DecidablePred IsIdentifier := fun _ => decidable_of_iff _ isIdentifier_iff.symm

def IsPath (name : String) : Prop :=
  ∃ parts, parts ≠ [] ∧ (∀ part ∈ parts, IsIdentifier part) ∧ name = join "." parts

theorem isPath_iff {name : String} : IsPath name ↔ ∀ part ∈ split '.' name, IsIdentifier part := by
  constructor
  · rintro ⟨parts, hne, hparts, rfl⟩
    rw [split_join rfl hne]
    intro part hp
    obtain ⟨whole, hw, hp⟩ := List.mem_flatMap.mp hp
    rw [split_of_not_mem ((hparts whole hw).not_mem_of_mem_marks (by decide)),
      List.mem_singleton] at hp
    exact hp ▸ hparts whole hw
  · intro h
    exact ⟨split '.' name, split_ne_nil '.' name, h, (join_split rfl name).symm⟩

instance : DecidablePred IsPath := fun _ => decidable_of_iff _ isPath_iff.symm

theorem proper_lastArguments {segments : List (String × List TypeText)}
    (h : ProperSegments segments) : ProperAll (lastArguments segments) := by
  induction segments with
  | nil => trivial
  | cons segment segments ih =>
    cases segments with
    | nil => exact h.2.1
    | cons second segments => simpa [lastArguments] using ih h.2.2

theorem proper_withArguments {arguments : List TypeText} {names : List String}
    (hn : ∀ name ∈ names, IsIdentifier name) (ha : ProperAll arguments) :
    ProperSegments (withArguments arguments names) := by
  induction names with
  | nil => trivial
  | cons name names ih =>
    have hrest := ih fun other ho => hn other (by simp [ho])
    cases names with
    | nil => exact ⟨hn name (by simp), ha, trivial⟩
    | cons second names => exact ⟨hn name (by simp), trivial, hrest⟩

theorem withArguments_ne_nil (arguments : List TypeText) {names : List String} (h : names ≠ []) :
    withArguments arguments names ≠ [] := by
  match names with
  | [] => exact absurd rfl h
  | [_] => simp [withArguments]
  | _ :: _ :: _ => simp [withArguments]

def FindsPaths (lookup : Lookup) : Prop :=
  ∀ path arity name, lookup path arity = some name → IsPath name

mutual

theorem proper_qualify {lookup : Lookup} (hl : FindsPaths lookup) (type : TypeText)
    (h : type.Proper) : (type.qualify lookup).Proper := by
  match type with
  | .named (some root) segments =>
    refine ⟨h.1, ?_, proper_qualifySegments hl segments h.2.2⟩
    simpa [qualifySegments_eq_map] using h.2.1
  | .named none segments =>
    have hsegments := proper_qualifySegments hl segments h.2.2
    rw [qualify_plain]
    cases hf : find lookup segments with
    | none => exact ⟨h.1, by simpa [qualifySegments_eq_map] using h.2.1, hsegments⟩
    | some name =>
      obtain ⟨⟨path, arity⟩, -, hname⟩ := Option.bind_eq_some_iff.mp hf
      have hparts := isPath_iff.mp (hl path arity name hname)
      refine ⟨?_, withArguments_ne_nil _ (split_ne_nil '.' name),
        proper_withArguments hparts (proper_lastArguments hsegments)⟩
      intro root hr
      obtain rfl := Option.some.inj hr
      decide +kernel
  | .tuple elements =>
    refine ⟨?_, proper_qualifyElements hl elements h.2⟩
    cases elements with
    | nil => exact absurd rfl h.1
    | cons element elements => simp [qualifyElements]
  | .suffixed element suffix => exact proper_qualify hl element h

theorem proper_qualifyAll {lookup : Lookup} (hl : FindsPaths lookup) (types : List TypeText)
    (h : ProperAll types) : ProperAll (qualifyAll lookup types) := by
  match types with
  | [] => trivial
  | type :: types => exact ⟨proper_qualify hl type h.1, proper_qualifyAll hl types h.2⟩

theorem proper_qualifySegments {lookup : Lookup} (hl : FindsPaths lookup)
    (segments : List (String × List TypeText)) (h : ProperSegments segments) :
    ProperSegments (qualifySegments lookup segments) := by
  match segments with
  | [] => trivial
  | (name, arguments) :: segments =>
    exact ⟨h.1, proper_qualifyAll hl arguments h.2.1, proper_qualifySegments hl segments h.2.2⟩

theorem proper_qualifyElements {lookup : Lookup} (hl : FindsPaths lookup)
    (elements : List (TypeText × Option String)) (h : ProperElements elements) :
    ProperElements (qualifyElements lookup elements) := by
  match elements with
  | [] => trivial
  | (type, name) :: elements =>
    exact ⟨proper_qualify hl type h.1, h.2.1, proper_qualifyElements hl elements h.2.2⟩

end

theorem qualifyText_of_unread {lookup : Lookup} {text : String} (h : parse? text = none) :
    qualifyText lookup text = text := by
  simp only [qualifyText, h]

theorem qualifyText_of_read {lookup : Lookup} {text : String} {type : TypeText}
    (h : parse? text = some type) : qualifyText lookup text = (type.qualify lookup).render := by
  simp only [qualifyText, h]

theorem parse?_qualifyText {lookup : Lookup} (hl : FindsPaths lookup) {text : String}
    {type : TypeText} (h : parse? text = some type) :
    parse? (qualifyText lookup text) = some (type.qualify lookup) := by
  rw [qualifyText_of_read h]
  exact parse?_render (proper_qualify hl type (parse?_proper h))

theorem missed_qualifyText {lookup : Lookup} (hl : FindsPaths lookup) {text : String}
    {type : TypeText} (h : parse? (qualifyText lookup text) = some type) :
    Missed lookup type.plainNames := by
  cases ht : parse? text with
  | none =>
    rw [qualifyText_of_unread ht, ht] at h
    exact absurd h (by simp)
  | some original =>
    rw [parse?_qualifyText hl ht] at h
    exact Option.some.inj h ▸ missed_qualify lookup original

theorem qualifyText_qualifyText {lookup : Lookup} (hl : FindsPaths lookup) (text : String) :
    qualifyText lookup (qualifyText lookup text) = qualifyText lookup text := by
  cases ht : parse? text with
  | none => rw [qualifyText_of_unread ht, qualifyText_of_unread ht]
  | some type =>
    have hread := parse?_qualifyText hl ht
    have hagain := (qualify_eq_self_iff lookup _).mpr (missed_qualify lookup type)
    rw [qualifyText_of_read hread, hagain, qualifyText_of_read ht]

theorem find_lookup_eq_none_iff {table : TypeTable} {qualified : String}
    {segments : List (String × List TypeText)} :
    find (table.lookup (enclosingScopes qualified)) segments = none ↔
      ∀ path arity scope, DottedName segments path arity →
        ¬FoundIn table qualified path arity scope := by
  rw [find, Option.bind_eq_none_iff]
  constructor
  · rintro h path arity scope hd ⟨hscope, hdeclares⟩
    have hnone := h (path, arity) (lookupKey_eq_some_iff.mpr hd)
    rw [TypeTable.lookup, List.find?_eq_none] at hnone
    exact hnone _ (List.mem_map_of_mem (mem_enclosingScopes.mpr hscope))
      (declares_iff.mpr hdeclares)
  · rintro h ⟨path, arity⟩ hkey
    rw [TypeTable.lookup, List.find?_eq_none]
    intro name hn hdeclares
    obtain ⟨scope, hscope, rfl⟩ := List.mem_map.mp hn
    exact h path arity scope (lookupKey_eq_some_iff.mp hkey)
      ⟨mem_enclosingScopes.mp hscope, declares_iff.mp hdeclares⟩

end TypeText

def Method.typeTexts (method : Method) : List String :=
  method.parameters ++ method.returnType.toList

theorem Method.typeTexts_mapTypes (f : String → String) (method : Method) :
    (method.mapTypes f).typeTexts = method.typeTexts.map f := by
  cases hr : method.returnType <;> simp [typeTexts, mapTypes, hr]

theorem map_eq_self {α : Type} {f : α → α} {items : List α} (h : ∀ item ∈ items, f item = item) :
    items.map f = items := (List.map_congr_left h).trans items.map_id

theorem Method.mapTypes_eq_self {f : String → String} {method : Method}
    (h : ∀ text ∈ method.typeTexts, f text = text) : method.mapTypes f = method := by
  have hparameters : method.parameters.map f = method.parameters :=
    map_eq_self fun text ht => h text (List.mem_append_left _ ht)
  have hreturn : method.returnType.map f = method.returnType := by
    cases hr : method.returnType with
    | none => rfl
    | some text => exact congrArg some (h text (by simp [typeTexts, hr]))
  rw [mapTypes, hparameters, hreturn]

theorem TypeSymbol.mapTypes_eq_self {f : String → String} {symbol : TypeSymbol}
    (h : ∀ method ∈ symbol.methods, ∀ text ∈ method.typeTexts, f text = text) :
    symbol.mapTypes f = symbol := by
  have hmembers : symbol.members.map (Member.mapTypes f) = symbol.members := by
    refine map_eq_self fun member hm => ?_
    cases member with
    | method method =>
      have hmethod : method ∈ symbol.methods := List.mem_filterMap.mpr ⟨_, hm, rfl⟩
      exact congrArg Member.method (Method.mapTypes_eq_self (h method hmethod))
    | field name => rfl
    | property name => rfl
    | nestedType name => rfl
  rw [mapTypes, hmembers]

namespace TypeTable

open TypeText

theorem findsPaths_lookup {table : TypeTable} (h : ∀ name ∈ table.names, IsPath name)
    (scopes : List String) : FindsPaths (table.lookup scopes) := by
  intro path arity name hname
  have hany := List.find?_some hname
  obtain ⟨symbol, hs, -⟩ := (Option.any_eq_true _ _).mp hany
  rw [← qualifiedName_of_get? hs]
  exact h _ (List.mem_map_of_mem (mem_types_of_get? hs))

theorem qualifyTypes_eq_self {table : TypeTable}
    (h : ∀ symbol ∈ table.types, ∀ method ∈ symbol.methods, ∀ text ∈ method.typeTexts,
      table.qualifyTextIn symbol text = text) : table.qualifyTypes = table := by
  apply ext_types
  rw [types_qualifyTypes]
  exact map_eq_self fun symbol hs => TypeSymbol.mapTypes_eq_self (h symbol hs)

theorem exists_qualifyTextIn {table : TypeTable} {symbol : TypeSymbol} {method : Method}
    {text : String} (hs : symbol ∈ table.qualifyTypes.types) (hm : method ∈ symbol.methods)
    (ht : text ∈ method.typeTexts) : ∃ original, table.qualifyTextIn symbol original = text := by
  rw [types_qualifyTypes] at hs
  obtain ⟨before, -, rfl⟩ := List.mem_map.mp hs
  rw [TypeSymbol.qualifyTypes_eq, TypeSymbol.methods_mapTypes] at hm
  obtain ⟨known, -, rfl⟩ := List.mem_map.mp hm
  rw [Method.typeTexts_mapTypes] at ht
  obtain ⟨original, -, rfl⟩ := List.mem_map.mp ht
  exact ⟨original, rfl⟩

/-- No name without an alias in a method means a type of the table. -/
def FullyQualified (table : TypeTable) : Prop :=
  ∀ symbol ∈ table.types, ∀ method ∈ symbol.methods, ∀ text ∈ method.typeTexts,
    ∀ type, parse? text = some type → ∀ segments ∈ type.plainNames, ∀ path arity scope,
      DottedName segments path arity → ¬FoundIn table symbol.qualifiedName path arity scope

theorem qualifyTypes_idempotent {table : TypeTable} (h : ∀ name ∈ table.names, IsPath name) :
    table.qualifyTypes.qualifyTypes = table.qualifyTypes ∧ table.qualifyTypes.FullyQualified := by
  have hfinds (symbol : TypeSymbol) :
      FindsPaths (table.lookup (enclosingScopes symbol.qualifiedName)) := findsPaths_lookup h _
  constructor
  · apply qualifyTypes_eq_self
    intro symbol hs method hm text ht
    obtain ⟨original, rfl⟩ := exists_qualifyTextIn hs hm ht
    rw [qualifyTextIn_qualifyTypes]
    exact qualifyText_qualifyText (hfinds symbol) original
  · intro symbol hs method hm text ht type hp segments hsegments
    obtain ⟨original, rfl⟩ := exists_qualifyTextIn hs hm ht
    rw [← find_lookup_eq_none_iff, lookup_qualifyTypes]
    exact missed_qualifyText (hfinds symbol) hp segments hsegments

def shopTypes : TypeTable := .ofList
  [{ name := "Box", namespaceName := some "Game", typeParameters := ["T"] },
   { name := "Shop", namespaceName := some "Game",
     members := [.method
       { name := "Find",
         parameters := ["Box < Shop ? > [ , ]", "( Shop a , x :: Shop )", "in Shop"],
         returnType := some " Game . Shop" }] }]

theorem qualifyTypes_idempotent_shop :
    (∀ name ∈ shopTypes.names, IsPath name) ∧ shopTypes.qualifyTypes ≠ shopTypes ∧
    shopTypes.qualifyTypes.qualifyTypes = shopTypes.qualifyTypes ∧
    shopTypes.qualifyTypes.FullyQualified := by
  have hpaths : ∀ name ∈ shopTypes.names, IsPath name := by decide +kernel
  exact ⟨hpaths, by decide +kernel, qualifyTypes_idempotent hpaths⟩

end TypeTable

end HookEvents
