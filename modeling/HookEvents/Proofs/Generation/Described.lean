import HookEvents.Proofs.Generation.Local
import HookEvents.Proofs.Symbol.Roundtrip
import Mathlib.Data.List.Forall2

namespace HookEvents

open Json Text

theorem list?_of_forall₂ {α : Type} {decode : Json → Option α} {items : List Json} {as : List α}
    (h : List.Forall₂ (fun item a => decode item = some a) items as) :
    list? decode (.array items) = some as := by
  change items.mapM decode = some as
  induction h with
  | nil => rfl
  | cons hitem _ ih => simp [List.mapM_cons, hitem, ih]

def Json.ofOptional : Option String → Json
  | some s => .text s
  | none => .null

namespace Fields

/-- A record writes a field, or leaves it out where the field has its default. -/
def Gives (fields : Fields) (name : String) (position : Nat) (value : Json) (isDefault : Prop) :
    Prop :=
  fields.value? name position = some (some value) ∨
    (isDefault ∧ fields.value? name position = some none)

variable {α : Type} {fields : Fields} {name : String} {position : Nat} {value : Json}
  {decode : Json → Option α} {default a : α}

theorem Gives.optional (h : fields.Gives name position value (a = default))
    (hd : decode value = some a) : fields.optional name position decode default = some a := by
  rcases h with hfield | ⟨rfl, hfield⟩
  · simp [Fields.optional, hfield, hd]
  · simp [Fields.optional, hfield]

theorem required_text {s : String} (h : fields.value? name position = some (some (.text s))) :
    fields.required name position text? = some s := by
  simp [required, h, text?]

end Fields

structure Method.GivenBy (method : Method) (fields : Fields) : Prop where
  name : fields.value? "name" 0 = some (some (.text method.name))
  isStatic : fields.Gives "static" 1 (.bool method.isStatic) (method.isStatic = false)
  parameters : fields.Gives "parameters" 2 (.array (method.parameters.map .text))
    (method.parameters = [])
  returnType : fields.Gives "return_type" 3 (.ofOptional method.returnType)
    (method.returnType = none)
  typeParameters : fields.Gives "type_parameters" 4 (.array (method.typeParameters.map .text))
    (method.typeParameters = [])
  fits : fields.fits 5 = true

theorem nullable?_ofOptional (text : Option String) :
    nullable? text? (.ofOptional text) = some text := by
  cases text <;> rfl

theorem Method.GivenBy.ofFields? {method : Method} {fields : Fields} (h : method.GivenBy fields) :
    Method.ofFields? fields = some method.reread := by
  have hstatic : fields.optional "static" 1 bool? false = some method.isStatic :=
    h.isStatic.optional rfl
  simp [Method.ofFields?, h.fits, Fields.required_text h.name, hstatic,
    h.parameters.optional (list?_texts _), h.returnType.optional (nullable?_ofOptional _),
    h.typeParameters.optional (list?_texts _), guard, reread]

namespace Member

def kind : Member → String
  | .method _ => "method"
  | .field _ => "field"
  | .property _ => "property"
  | .nestedType _ => "nested_type"

def GivenBy (member : Member) (fields : Fields) : Prop :=
  match member with
  | .method m => m.GivenBy fields
  | other => fields.value? "name" 0 = some (some (.text other.name)) ∧ fields.fits 1 = true

structure DescribedBy (member : Member) (level : Nat) (value : Json) : Prop where
  sound : value.sound = true
  depth : level + value.depth ≤ depthLimit
  fields : ∃ fields, tagged? value = some (member.kind, fields) ∧ member.GivenBy fields

theorem DescribedBy.ofJson? {member : Member} {level : Nat} {value : Json}
    (h : member.DescribedBy level value) : Member.ofJson? level value = some member.reread := by
  obtain ⟨fields, htag, hfields⟩ := h.fields
  cases member with
  | method m =>
    simp [Member.ofJson?, h.sound, h.depth, htag, kind, Method.GivenBy.ofFields? hfields, reread,
      guard]
  | field name | property name | nestedType name =>
    obtain ⟨hname, hfits⟩ := hfields
    simp [Member.ofJson?, h.sound, h.depth, htag, kind, nameOf?, Fields.required_text hname,
      hfits, Member.name, reread, guard]

def built : Member → Member
  | .method m =>
    let bare := Method.withStatic { name := m.name } m.isStatic |>.withParameters m.parameters
      |>.withTypeParameters m.typeParameters
    .method ((m.returnType.map bare.withReturnType).getD bare)
  | other => other

theorem built_eq (member : Member) : member.built = member.reread := by
  cases member with
  | method m =>
    obtain ⟨name, isStatic, parameters, returnType, typeParameters⟩ := m
    cases returnType <;> rfl
  | field _ | property _ | nestedType _ => rfl

end Member

namespace TypeSymbol

structure GivenBy (symbol : TypeSymbol) (level : Nat) (fields : Fields) : Prop where
  name : fields.value? "name" 0 = some (some (.text symbol.name))
  namespaceName : fields.Gives "namespace" 1 (.ofOptional symbol.namespaceName)
    (symbol.namespaceName = none)
  containingTypes : fields.Gives "containing_types" 2 (.array (symbol.containingTypes.map .text))
    (symbol.containingTypes = [])
  members : ∃ items, fields.Gives "members" 3 (.array items) (symbol.members = []) ∧
    List.Forall₂ (fun item member => member.DescribedBy (level + 2) item) items symbol.members
  typeParameters : fields.Gives "type_parameters" 4 (.array (symbol.typeParameters.map .text))
    (symbol.typeParameters = [])
  usings : fields.Gives "usings" 5 (.array (symbol.usings.map .text)) (symbol.usings = [])
  fits : fields.fits 6 = true

/-- A value inside `level` arrays and objects describes a type: a record by names in any order, with
other fields beside them, or by positions. -/
def DescribedBy (symbol : TypeSymbol) (level : Nat) (value : Json) : Prop :=
  ∃ fields, Fields.ofJson? value = some fields ∧ symbol.GivenBy level fields

theorem DescribedBy.ofJson? {symbol : TypeSymbol} {level : Nat} {value : Json}
    (h : symbol.DescribedBy level value) : TypeSymbol.ofJson? level value = some symbol.reread := by
  obtain ⟨fields, hvalue, h⟩ := h
  obtain ⟨items, hmembers, hitems⟩ := h.members
  have hread : List.Forall₂ (fun item member => Member.ofJson? (level + 2) item = some member)
      items (symbol.members.map Member.reread) := by
    rw [List.forall₂_map_right_iff]
    exact hitems.imp fun item member hm => hm.ofJson?
  have hgives : fields.Gives "members" 3 (.array items) (symbol.members.map Member.reread = []) := by
    simpa [Fields.Gives] using hmembers
  simp [TypeSymbol.ofJson?, hvalue, Fields.required_text h.name,
    h.namespaceName.optional (nullable?_ofOptional _), h.containingTypes.optional (list?_texts _),
    hgives.optional (list?_of_forall₂ hread), h.typeParameters.optional (list?_texts _),
    h.usings.optional (list?_texts _), h.fits, guard, reread]

def built (symbol : TypeSymbol) : TypeSymbol :=
  symbol.members.foldl (fun known member => known.withMember member.built)
    (inNamespace { name := symbol.name } (symbol.namespaceName.getD "")
      |>.nestedIn symbol.containingTypes |>.withTypeParameters symbol.typeParameters
      |>.withUsings symbol.usings)

theorem foldl_withMember (symbol : TypeSymbol) (members : List Member) :
    members.foldl (fun known member => known.withMember member.built) symbol =
      { symbol with members := symbol.members ++ members.map Member.reread } := by
  induction members generalizing symbol with
  | nil => simp
  | cons member members ih =>
    rw [List.foldl_cons, ih, Member.built_eq]
    simp [withMember]

theorem built_eq (symbol : TypeSymbol) :
    symbol.built =
      { symbol.reread with namespaceName := symbol.namespaceName.filter (· ≠ "") } := by
  rw [built, foldl_withMember]
  cases hn : symbol.namespaceName with
  | none => simp [inNamespace, nestedIn, withTypeParameters, withUsings, reread]
  | some name =>
    by_cases he : name = "" <;>
      simp [inNamespace, nestedIn, withTypeParameters, withUsings, reread, Option.filter, he]

theorem qualifiedName_of_empty {symbol : TypeSymbol} (h : symbol.namespaceName = some "") :
    symbol.qualifiedName = "." ++ qualifiedName { symbol with namespaceName := none } := by
  have hchain : symbol.nestingChain ≠ [] := by simp [nestingChain]
  rw [qualifiedName, h]
  change join "." ("" :: symbol.nestingChain) = "." ++ join "." symbol.nestingChain
  rw [join_cons "." "" hchain, String.empty_append]

theorem empty_mem_split {symbol : TypeSymbol} (h : symbol.namespaceName = some "") :
    "" ∈ split '.' symbol.qualifiedName := by
  have hcut (name : String) : split '.' ("" ++ "." ++ name) = split '.' "" ++ split '.' name :=
    split_append rfl "" name
  rw [qualifiedName_of_empty h, ← String.empty_append (s := "."), hcut]
  exact List.mem_append_left _ (by decide)

end TypeSymbol

theorem split_of_mem_lookups {table : TypeTable} {text name : String} {reference : HookReference}
    (hp : HookReference.parse text = some reference) (hn : name ∈ table.model.lookups reference) :
    "" ∉ split '.' name := by
  have hreference := HookReference.split_typeName hp
  rcases Model.mem_lookups.mp hn with rfl | ⟨symbol, hs, hcontainer⟩
  · exact fun hempty => hreference "" hempty rfl
  rw [← TypeTable.qualifiedName_of_get? hs] at hreference
  obtain ⟨i, hi, hle, rfl⟩ := (TypeSymbol.mem_containerNames hreference name).mp hcontainer
  -- the name of a type around is a beginning of the name that was found
  have hfront : symbol.namespaceName.toList ++ symbol.containingTypes.take i ≠ [] := by
    intro hnil
    have htake := congrArg List.length (List.append_eq_nil_iff.mp hnil).2
    rw [List.length_take, List.length_nil] at htake
    omega
  have hparts : symbol.namespaceName.toList ++ symbol.nestingChain ≠ [] := by
    simp [TypeSymbol.nestingChain]
  rw [TypeSymbol.qualifiedName, split_join rfl hparts] at hreference
  rw [split_join rfl hfront]
  intro hempty
  obtain ⟨part, hpart, hempty⟩ := List.mem_flatMap.mp hempty
  refine hreference "" (List.mem_flatMap.mpr ⟨part, ?_, hempty⟩) rfl
  rcases List.mem_append.mp hpart with hpart | hpart
  · exact List.mem_append_left _ hpart
  · exact List.mem_append_right _ (List.mem_append_left _ (List.mem_of_mem_take hpart))

theorem resolve_insert_empty {symbol : TypeSymbol} (h : symbol.namespaceName = some "")
    (table : TypeTable) (rest : List TypeSymbol) {text : String} {reference : HookReference}
    (hp : HookReference.parse text = some reference) :
    resolve ((table.insert symbol).insertAll rest).model reference =
      resolve (table.insertAll rest).model reference := by
  apply resolve_congr
  intro name hn
  have hne : symbol.qualifiedName ≠ name := by
    rintro rfl
    exact split_of_mem_lookups hp hn (TypeSymbol.empty_mem_split h)
  have hsame : (table.insert symbol).get? name = table.get? name := by
    change (table.insertAll [symbol]).get? name = table.get? name
    apply TypeTable.get?_insertAll_of_ne
    intro other ho
    rwa [List.mem_singleton.mp ho]
  change ((table.insert symbol).insertAll rest).get? name = (table.insertAll rest).get? name
  rw [TypeTable.get?_insertAll, TypeTable.get?_insertAll, hsame]

/-- **A description means what the same fields build, unless it gives the empty namespace.** Then
the name begins with a dot, and to every reference it is as if the type were not there. -/
theorem described_eq_built_iff {fields : TypeSymbol} {level : Nat} {value : Json}
    (h : fields.DescribedBy level value) :
    ∃ read, TypeSymbol.ofJson? level value = some read ∧
      (read = fields.built ↔ fields.namespaceName ≠ some "") ∧
      (fields.namespaceName = some "" →
        read.qualifiedName = "." ++ fields.built.qualifiedName ∧
        ∀ (table : TypeTable) (rest : List TypeSymbol) (text : String) (reference : HookReference),
          HookReference.parse text = some reference →
            resolve ((table.insert read).insertAll rest).model reference =
              resolve (table.insertAll rest).model reference) := by
  refine ⟨fields.reread, h.ofJson?, ?_, fun hempty => ?_⟩
  · rw [fields.built_eq]
    constructor
    · intro hsame hempty
      have hnone := congrArg TypeSymbol.namespaceName hsame
      change fields.namespaceName = fields.namespaceName.filter (· ≠ "") at hnone
      rw [hempty] at hnone
      exact absurd hnone (by decide)
    · intro hne
      have hkept : fields.namespaceName.filter (· ≠ "") = fields.namespaceName := by
        cases hn : fields.namespaceName with
        | none => rfl
        | some name => simpa [hn, Option.filter] using hne
      rw [hkept]
      rfl
  · have hread : fields.reread.namespaceName = some "" := hempty
    refine ⟨?_, fun table rest text reference hp => resolve_insert_empty hread table rest hp⟩
    rw [TypeSymbol.qualifiedName_of_empty hread, fields.built_eq, hempty]
    rfl

def unchecked (namespaceName returnType : Option String) : TypeSymbol :=
  { name := "A", namespaceName, members := [.method { name := "M", isStatic := true, returnType }] }

theorem described_eq_built_iff_unordered :
    let value := Json.object [
      ("members", .array [.array [.text "method", .text "M", .bool true, .array [], .text " void "]]),
      ("unknown", .null), ("namespace", .text "N"), ("name", .text "A")]
    (unchecked (some "N") (some " void ")).DescribedBy 0 value ∧
      TypeSymbol.ofJson? 0 value = some (unchecked (some "N") (some " void ")).built := by
  intro value
  have hdescribed : (unchecked (some "N") (some " void ")).DescribedBy 0 value := by
    refine ⟨_, rfl, ?_⟩
    refine
      { name := rfl
        namespaceName := Or.inl rfl
        containingTypes := Or.inr ⟨rfl, rfl⟩
        members := ⟨_, Or.inl rfl, .cons ⟨rfl, by decide, _, rfl, ?_⟩ .nil⟩
        typeParameters := Or.inr ⟨rfl, rfl⟩
        usings := Or.inr ⟨rfl, rfl⟩
        fits := rfl }
    exact
      { name := rfl
        isStatic := Or.inl rfl
        parameters := Or.inl rfl
        returnType := Or.inl rfl
        typeParameters := Or.inr ⟨rfl, rfl⟩
        fits := rfl }
  obtain ⟨read, hread, hsame, -⟩ := described_eq_built_iff hdescribed
  exact ⟨hdescribed, hread.trans (congrArg some (hsame.mpr (by decide)))⟩

theorem empty_namespace_hides :
    ∃ read reference, TypeSymbol.ofJson? 0 (unchecked (some "") none).toJson = some read ∧
      HookReference.parse "On.A.M" = some reference ∧
      read ≠ (unchecked (some "") none).built ∧
      resolve (TypeTable.ofList [read]).model reference = .error .unknownType ∧
      resolve (TypeTable.ofList [(unchecked (some "") none).built]).model reference =
        .ok { kind := .subscribe
              declaringType := unchecked none none
              method := { name := "M", isStatic := true } } := by
  refine ⟨unchecked (some "") none, ⟨.subscribe, "On.A.M", "A", "M"⟩, ?_, ?_, ?_, ?_, ?_⟩
  · rfl
  · decide +kernel
  · decide
  · rfl
  · rfl

end HookEvents
