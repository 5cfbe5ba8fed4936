import HookEvents.Proofs.Generation.Resolve
import HookEvents.Proofs.TypeText.Qualify

/-!
A table knows types by their names, without the number of their type parameters. A generic type
therefore takes the place of a plain one of the same name, wherever in the sequence it is declared.
-/
namespace HookEvents

open Text

theorem find?_passing_over {α : Type} [DecidableEq α] {p : α → Bool} {a : α} {as : List α} :
    as.find? (fun b => b ≠ a && p b) = as.find? p ↔ as.find? p ≠ some a := by
  constructor
  · intro h hfound
    have hnot := List.find?_some (h.trans hfound)
    simp at hnot
  · intro h
    induction as with
    | nil => rfl
    | cons b as ih =>
      cases hp : p b with
      | true =>
        have hb : b ≠ a := by simpa [hp] using h
        simp [hp, hb]
      | false =>
        rw [List.find?_cons_of_neg (by simp [hp])] at h ⊢
        rw [ih h, List.find?_cons_of_neg (by simp [hp])]

namespace TypeText

theorem withArguments_nil (names : List String) :
    withArguments [] names = names.map fun name => (name, []) := by
  induction names with
  | nil => rfl
  | cons name names ih =>
    cases names with
    | nil => rfl
    | cons next names => exact congrArg ((name, []) :: ·) ih

theorem renderSegments_plain (names : List String) :
    renderSegments (names.map fun name => (name, [])) = names := by
  induction names with
  | nil => rfl
  | cons name names ih =>
    rw [List.map_cons, renderSegments, ih]
    simp [renderAll, renderArguments]

def plainName (names : List String) : TypeText := .named none (names.map fun name => (name, []))

def written (path : String) : Option String → String
  | some name => "global::" ++ name
  | none => path

theorem lookupKey_plain {names : List String} (h : names ≠ []) :
    lookupKey (names.map fun name => (name, [])) = some (join "." names, 0) := by
  obtain ⟨front, last, rfl⟩ : ∃ front last, names = front ++ [last] :=
    ⟨_, _, (List.dropLast_concat_getLast h).symm⟩
  have hplain : ∀ segment ∈ front.map fun name => (name, ([] : List TypeText)), segment.2 = [] := by
    simp
  rw [List.map_append, List.map_singleton, lookupKey_concat last [] hplain, List.map_map]
  simp [Function.comp_def]

theorem render_qualify_plainName (lookup : Lookup) {names : List String} (h : names ≠ []) :
    ((plainName names).qualify lookup).render =
      written (join "." names) (lookup (join "." names) 0) := by
  have hsegments : qualifySegments lookup (names.map fun name => (name, [])) =
      names.map fun name => (name, []) := by
    rw [qualifySegments_eq_map, List.map_map]
    rfl
  rw [plainName, qualify, lookupKey_plain h, hsegments, Option.bind_some]
  dsimp only
  cases lookup (join "." names) 0 with
  | none => rw [qualifiedName, render, renderSegments_plain, written]
  | some name =>
    have hlast : ((names.map fun name => (name, ([] : List TypeText))).getLast?.map (·.2)).getD [] =
        [] := by
      rw [List.getLast?_map, Option.map_map]
      cases names.getLast? <;> rfl
    rw [qualifiedName, hlast, withArguments_nil, render, renderSegments_plain, join_split rfl]
    rfl

theorem written_injective {path : String} (h : ':' ∉ path.toList) :
    Function.Injective (written path) := by
  -- Only a name that was found is written with a colon.
  have hglobal : ∀ name, written path none ≠ written path (some name) := by
    intro name heq
    have hnot : ':' ∉ (written path (some name)).toList := heq ▸ h
    simp [written] at hnot
  rintro (_ | name) (_ | other) heq
  · rfl
  · exact absurd heq (hglobal other)
  · exact absurd heq.symm (hglobal name)
  · have hname : "global::" ++ name = "global::" ++ other := heq
    simpa [← String.toList_inj] using hname

theorem not_mem_join {c : Char} (hc : c ≠ '.') {names : List String}
    (h : ∀ name ∈ names, c ∉ name.toList) : c ∉ (join "." names).toList := by
  intro hmem
  have hall : ∀ d ∈ (join "." names).toList, c ≠ d :=
    forall_mem_join (by simpa using hc) fun name hn d hd he => h name hn (he ▸ hd)
  exact hall c hmem rfl

end TypeText

theorem TypeTable.Built.exists_methodNamed {table : TypeTable} {symbols : List TypeSymbol}
    (h : table.Built symbols) {symbol entry : TypeSymbol} (hs : symbol ∈ symbols)
    (he : table.get? symbol.qualifiedName = some entry) {method : Method}
    (hm : method ∈ symbol.methods) : ∃ found, entry.methodNamed method.name = some found := by
  obtain ⟨first, rest, hd, rfl⟩ := h.get?_eq_some_iff.mp he
  have hin : symbol ∈ first :: rest := hd ▸ List.mem_filter.mpr ⟨hs, decide_eq_true rfl⟩
  have hmethod : method ∈ (first.absorbAll rest).methods := by
    obtain ⟨member, hmember, hmethod⟩ := List.mem_filterMap.mp hm
    rw [TypeSymbol.methods, TypeSymbol.absorbAll_members]
    exact List.mem_filterMap.mpr ⟨member, List.mem_flatMap.mpr ⟨symbol, hin, hmember⟩, hmethod⟩
  apply Option.isSome_iff_exists.mp
  exact List.find?_isSome.mpr ⟨method, hmethod, decide_eq_true rfl⟩

/-- A plain type, and a generic one of the same name that has none of its methods. -/
structure Namesakes (plain generic : TypeSymbol) : Prop where
  closed : plain.typeParameters = []
  opened : generic.typeParameters ≠ []
  name : generic.qualifiedName = plain.qualifiedName
  methods : ∀ method ∈ generic.methods, ∀ own ∈ plain.methods, method.name ≠ own.name

def HookReference.Names (reference : HookReference) (symbol : TypeSymbol) : Prop :=
  reference.typeName = symbol.qualifiedName ∧
    ∃ method ∈ symbol.methods, method.name = reference.methodName

section

variable (front back : List TypeSymbol) {plain generic : TypeSymbol}

theorem get?_ofList_insert_of_ne {name : String} (h : name ≠ generic.qualifiedName) :
    (TypeTable.ofList (front ++ generic :: back)).get? name =
      (TypeTable.ofList (front ++ back)).get? name := by
  rw [(TypeTable.built_ofList _).get?_eq_gather, (TypeTable.built_ofList _).get?_eq_gather,
    List.filter_append, List.filter_append, List.filter_cons_of_neg (by simpa using h.symm)]

theorem exists_generic_entry (h : generic.typeParameters ≠ []) :
    ∃ entry, (TypeTable.ofList (front ++ generic :: back)).get? generic.qualifiedName = some entry ∧
      entry.isGeneric = true := by
  apply (Option.any_eq_true _ _).mp
  apply Bool.of_not_eq_false
  intro hclosed
  have hnone := (any_isGeneric_eq_false (TypeTable.built_ofList _) _).mp hclosed
  exact h (hnone generic (by simp) rfl)

theorem resolve_insert_generic (h : Namesakes plain generic) (hp : plain ∈ front ++ back)
    {reference : HookReference} (hr : reference.Names plain) :
    resolve (TypeTable.ofList (front ++ generic :: back)).model reference =
      .error .genericType := by
  obtain ⟨htype, method, hm, hname⟩ := hr
  obtain ⟨entry, hentry, hopen⟩ := exists_generic_entry front back h.opened
  rw [h.name] at hentry
  have hin : plain ∈ front ++ generic :: back := by
    simp only [List.mem_append, List.mem_cons] at hp ⊢
    exact hp.imp_right Or.inr
  obtain ⟨found, hfound⟩ := (TypeTable.built_ofList _).exists_methodNamed hin hentry hm
  rw [hname] at hfound
  simp [resolve, TypeTable.model, htype, hentry, hfound, TypeSymbol.isOpenIn, hopen]

theorem lookup_insert_generic (h : generic.typeParameters ≠ []) (scopes : List String)
    (path : String) :
    (TypeTable.ofList (front ++ generic :: back)).lookup scopes path 0 =
      (scopes.map fun outer => TypeSymbol.qualifyIn outer path).find? fun name =>
        name ≠ generic.qualifiedName && ((TypeTable.ofList (front ++ back)).get? name).any
          fun symbol => symbol.typeParameters.length = 0 := by
  rw [TypeTable.lookup]
  congr 1
  funext name
  by_cases hn : name = generic.qualifiedName
  · obtain ⟨entry, hentry, hopen⟩ := exists_generic_entry front back h
    have hparameters : entry.typeParameters ≠ [] := by simpa [TypeSymbol.isGeneric] using hopen
    simp [hn, hentry, hparameters]
  · simp [hn, get?_ofList_insert_of_ne front back hn]

end

/-- Once a generic type of the same name is declared, no method of the plain type resolves, and its
name without arguments is written as before only where it did not mean the plain type. -/
theorem generic_namesake_hides (front back : List TypeSymbol) {plain generic : TypeSymbol}
    (h : Namesakes plain generic) (hp : plain ∈ front ++ back) :
    let before := TypeTable.ofList (front ++ back)
    let after := TypeTable.ofList (front ++ generic :: back)
    (∀ reference : HookReference, reference.Names plain →
      resolve after.model reference = .error .genericType) ∧
    ∀ (owner : String) (names : List String), names ≠ [] →
      (∀ name ∈ names, TypeText.IsIdentifier name) →
      let scopes := enclosingScopes owner
      (((TypeText.plainName names).qualify (after.lookup scopes)).render =
          ((TypeText.plainName names).qualify (before.lookup scopes)).render ↔
        before.lookup scopes (join "." names) 0 ≠ some plain.qualifiedName) := by
  intro before after
  refine ⟨fun reference => resolve_insert_generic front back h hp, ?_⟩
  intro owner names hne hnames scopes
  have hcolon : ':' ∉ (join "." names).toList := TypeText.not_mem_join (by decide)
    fun name hn => (hnames name hn).not_mem_of_mem_marks (by decide)
  rw [TypeText.render_qualify_plainName _ hne, TypeText.render_qualify_plainName _ hne,
    (TypeText.written_injective hcolon).eq_iff, lookup_insert_generic front back h.opened, h.name]
  exact find?_passing_over

def plainBox : TypeSymbol := { name := "Box", members := [.method { name := "Open" }] }

def genericBox : TypeSymbol :=
  { name := "Box", members := [.method { name := "Fill" }], typeParameters := ["T"] }

theorem namesakes_box : Namesakes plainBox genericBox :=
  ⟨rfl, by decide, rfl, by decide⟩

theorem names_plainBox :
    HookReference.Names ⟨.subscribe, "On.Box.Open", "Box", "Open"⟩ plainBox :=
  ⟨by decide, by decide⟩

theorem isIdentifier_box : ∀ name ∈ ["Box"], TypeText.IsIdentifier name := by
  intro name hn
  obtain rfl := List.mem_singleton.mp hn
  have hrest : ['o', 'x'].all TypeText.isNamePart = true := by decide +kernel
  exact ⟨'B', ['o', 'x'], rfl, by decide +kernel, List.all_eq_true.mp hrest⟩

theorem generic_namesake_hides_box :
    let before := TypeTable.ofList [plainBox]
    let after := TypeTable.ofList [plainBox, genericBox]
    resolve after.model ⟨.subscribe, "On.Box.Open", "Box", "Open"⟩ = .error .genericType ∧
      ((TypeText.plainName ["Box"]).qualify (after.lookup (enclosingScopes "Shop"))).render ≠
        ((TypeText.plainName ["Box"]).qualify (before.lookup (enclosingScopes "Shop"))).render := by
  intro before after
  obtain ⟨hresolve, hwritten⟩ := generic_namesake_hides [plainBox] [] namesakes_box (by simp)
  refine ⟨hresolve _ names_plainBox, ?_⟩
  intro hsame
  have hfound := (hwritten "Shop" ["Box"] (by decide) isIdentifier_box).mp hsame
  exact hfound (by decide +kernel)

theorem generic_namesake_disturbs :
    (¬∀ (front back : List TypeSymbol) (plain generic : TypeSymbol), Namesakes plain generic →
      plain ∈ front ++ back → ∀ reference : HookReference, reference.Names plain →
        (resolve (TypeTable.ofList (front ++ generic :: back)).model reference).map
            (fun hook => (hook.kind, hook.method)) =
          (resolve (TypeTable.ofList (front ++ back)).model reference).map
            (fun hook => (hook.kind, hook.method))) ∧
    ¬∀ (front back : List TypeSymbol) (plain generic : TypeSymbol), Namesakes plain generic →
      plain ∈ front ++ back → ∀ (owner : String) (names : List String), names ≠ [] →
      (∀ name ∈ names, TypeText.IsIdentifier name) →
      (TypeTable.ofList (front ++ back)).lookup (enclosingScopes owner) (join "." names) 0 =
        some plain.qualifiedName →
      ((TypeText.plainName names).qualify ((TypeTable.ofList (front ++ generic :: back)).lookup
          (enclosingScopes owner))).render =
        ((TypeText.plainName names).qualify ((TypeTable.ofList (front ++ back)).lookup
          (enclosingScopes owner))).render := by
  constructor
  · intro h
    have hsame := h [] [plainBox] plainBox genericBox namesakes_box (by simp) _ names_plainBox
    have hfound := congrArg Except.toOption hsame
    revert hfound
    decide +kernel
  · intro h
    have hsame := h [] [plainBox] plainBox genericBox namesakes_box (by simp) "Shop" ["Box"]
      (by decide) isIdentifier_box (by decide +kernel)
    revert hsame
    decide +kernel

end HookEvents
