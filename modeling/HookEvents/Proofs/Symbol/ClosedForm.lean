import HookEvents.Proofs.Symbol.Table
import HookEvents.Symbol.Json

/-!
Tables in closed form: the names in the order in which they were first declared, and under each name
what all its declarations come to.
-/
namespace HookEvents

namespace TypeSymbol

theorem addUsings_eq (known new : List String) :
    addUsings known new = known ++ (new.filter (· ∉ known)).eraseDups := by
  induction new generalizing known with
  | nil => simp [addUsings]
  | cons target new ih =>
    change addUsings (if known.contains target then known else known ++ [target]) new = _
    rw [ih]
    by_cases ht : target ∈ known
    · simp [ht]
    · have hfilter : ((target :: new).filter (· ∉ known)).eraseDups =
          target :: (new.filter (· ∉ known ++ [target])).eraseDups := by
        rw [List.filter_cons_of_pos (by simpa using ht), List.eraseDups_cons, List.filter_filter]
        congr 2
        apply List.filter_congr
        intro other _
        by_cases ho : other = target <;> simp [ho]
      rw [hfilter]
      simp [ht]

structure IsMerge (first : TypeSymbol) (rest : List TypeSymbol) (entry : TypeSymbol) : Prop where
  name : entry.name = first.name
  namespaceName : entry.namespaceName = first.namespaceName
  containingTypes : entry.containingTypes = first.containingTypes
  members : entry.members = (first :: rest).flatMap (·.members)
  usings : entry.usings =
    first.usings ++ ((rest.flatMap (·.usings)).filter (· ∉ first.usings)).eraseDups
  typeParameters : entry.typeParameters =
    (((first :: rest).map (·.typeParameters)).find? (· ≠ [])).getD []

theorem absorbAll_name (first : TypeSymbol) (rest : List TypeSymbol) :
    (first.absorbAll rest).name = first.name := by
  induction rest generalizing first with
  | nil => rfl
  | cons other rest ih => exact ih (first.absorb other)

theorem absorbAll_usings (first : TypeSymbol) (rest : List TypeSymbol) :
    (first.absorbAll rest).usings = addUsings first.usings (rest.flatMap (·.usings)) := by
  induction rest generalizing first with
  | nil => rfl
  | cons other rest ih =>
    change ((first.absorb other).absorbAll rest).usings = _
    rw [ih, List.flatMap_cons, addUsings_append]
    rfl

theorem absorbAll_typeParameters (first : TypeSymbol) (rest : List TypeSymbol) :
    (first.absorbAll rest).typeParameters =
      (((first :: rest).map (·.typeParameters)).find? (· ≠ [])).getD [] := by
  induction rest generalizing first with
  | nil => cases hf : first.typeParameters <;> simp [absorbAll, hf]
  | cons other rest ih =>
    change ((first.absorb other).absorbAll rest).typeParameters = _
    rw [ih, List.map_cons, List.map_cons]
    cases hf : first.typeParameters with
    | nil =>
      have habsorb : (first.absorb other).typeParameters = other.typeParameters := by
        simp [absorb, hf]
      rw [habsorb, List.map_cons, List.find?_cons_of_neg (a := []) (by simp)]
    | cons parameter parameters =>
      have habsorb : (first.absorb other).typeParameters = parameter :: parameters := by
        simp [absorb, hf]
      rw [habsorb, List.find?_cons_of_pos (by simp), List.find?_cons_of_pos (by simp)]

theorem isMerge_absorbAll (first : TypeSymbol) (rest : List TypeSymbol) :
    IsMerge first rest (first.absorbAll rest) where
  name := absorbAll_name first rest
  namespaceName := absorbAll_namespaceName first rest
  containingTypes := absorbAll_containingTypes first rest
  members := absorbAll_members first rest
  usings := by rw [absorbAll_usings, addUsings_eq]
  typeParameters := absorbAll_typeParameters first rest

end TypeSymbol

namespace TypeTable

theorem names_insertAll (table : TypeTable) (symbols : List TypeSymbol) :
    (table.insertAll symbols).names =
      (table.names ++ symbols.map (·.qualifiedName)).eraseDups := by
  have hkeys := keyed.keys_insertAll table.names_nodup symbols
  rw [← types_insertAll] at hkeys
  exact hkeys

theorem Built.names_eq {table : TypeTable} {symbols : List TypeSymbol} (h : table.Built symbols) :
    table.names = (symbols.map (·.qualifiedName)).eraseDups := by
  have hinsert : ∀ (table : TypeTable) (symbols new : List TypeSymbol),
      table.names = (symbols.map (·.qualifiedName)).eraseDups →
      (table.insertAll new).names = ((symbols ++ new).map (·.qualifiedName)).eraseDups := by
    intro table symbols new ih
    rw [names_insertAll, ih, eraseDups_eraseDups_append, List.map_append]
  induction h with
  | empty => rfl
  | insert symbol _ ih => exact hinsert _ _ [symbol] ih
  | insertAll new _ ih => exact hinsert _ _ new ih
  | @merge table other symbols new _ _ ih iho =>
    have hmerge := hinsert table symbols other.types ih
    rw [List.map_append] at hmerge
    change _ = (symbols.map (·.qualifiedName) ++ other.names).eraseDups at hmerge
    rw [TypeTable.merge, hmerge, iho, eraseDups_append_eraseDups, List.map_append]

inductive Filled : TypeTable → List TypeSymbol → Prop
  | empty : Filled {} []
  | insert {table symbols} (symbol : TypeSymbol) (h : Filled table symbols) :
      Filled (table.insert symbol) (symbols ++ [symbol])
  | insertAll {table symbols} (new : List TypeSymbol) (h : Filled table symbols) :
      Filled (table.insertAll new) (symbols ++ new)
  | merge {table other symbols new} (h : Filled table symbols) (ho : Filled other new) :
      Filled (table.merge other) (symbols ++ new)
  | fromJson {table symbols} (text : String) (h : ofJsonText? text = some table)
      (hs : (Json.parse text).bind symbolsOf? = some symbols) : Filled table symbols

theorem ofJsonText?_eq (text : String) :
    ofJsonText? text = ((Json.parse text).bind symbolsOf?).map ofList := by
  unfold ofJsonText?
  cases Json.parse text with
  | none => simp
  | some value => cases hs : symbolsOf? value <;> simp [hs]

theorem Filled.built {table : TypeTable} {symbols : List TypeSymbol} (h : table.Filled symbols) :
    table.Built symbols := by
  induction h with
  | empty => exact .empty
  | insert symbol _ ih => exact ih.insert symbol
  | insertAll new _ ih => exact ih.insertAll new
  | merge _ _ ih iho => exact ih.merge iho
  | fromJson text h hs =>
    rw [ofJsonText?_eq, hs, Option.map_some] at h
    obtain rfl := Option.some.inj h
    exact built_ofList _

structure ClosedForm (table : TypeTable) (symbols : List TypeSymbol) : Prop where
  names_eq : table.names = (symbols.map (·.qualifiedName)).eraseDups
  nodup : table.names.Nodup
  index_iff : ∀ name position,
    table.index.lookup name = some position ↔ table.names[position]? = some name
  get?_iff : ∀ name, (∃ entry, table.get? name = some entry) ↔
    ∃ symbol ∈ symbols, symbol.qualifiedName = name
  position : ∀ name entry, table.get? name = some entry → ∃ position : Nat,
    table.index.lookup name = some position ∧ table.types[position]? = some entry
  entry_name : ∀ name entry, table.get? name = some entry → entry.qualifiedName = name
  entry : ∀ name entry, table.get? name = some entry → ∃ first rest,
    symbols.filter (·.qualifiedName = name) = first :: rest ∧ first.IsMerge rest entry

theorem Filled.closed_form {table : TypeTable} {symbols : List TypeSymbol}
    (h : table.Filled symbols) : ClosedForm table symbols where
  names_eq := h.built.names_eq
  nodup := table.names_nodup
  index_iff _ _ := index_lookup_eq_some
  get?_iff name := by
    constructor
    · rintro ⟨entry, he⟩
      obtain ⟨first, rest, hd, -⟩ := h.built.get?_eq_some_iff.mp he
      have hfirst : first ∈ symbols.filter (·.qualifiedName = name) := by simp [hd]
      exact ⟨first, (List.mem_filter.mp hfirst).1, qualifiedName_of_filter hd⟩
    · rintro ⟨symbol, hs, hn⟩
      have hmem : symbol ∈ symbols.filter (·.qualifiedName = name) :=
        List.mem_filter.mpr ⟨hs, decide_eq_true hn⟩
      obtain ⟨first, rest, hd⟩ := List.exists_cons_of_ne_nil (List.ne_nil_of_mem hmem)
      exact ⟨_, h.built.get?_eq_some_iff.mpr ⟨first, rest, hd, rfl⟩⟩
  position _ _ he := Option.bind_eq_some_iff.mp he
  entry_name _ _ he := qualifiedName_of_get? he
  entry _ _ he := by
    obtain ⟨first, rest, hd, rfl⟩ := h.built.get?_eq_some_iff.mp he
    exact ⟨first, rest, hd, first.isMerge_absorbAll rest⟩

theorem Filled.closed_form_partial :
    let text := "[[[\"Inner\", \"Game.Outer\", [], [[\"field\", \"speed\"]], [\"T\"], [\"System\", \"Game\"]]]]"
    let loaded : TypeSymbol :=
      { name := "Inner", namespaceName := some "Game.Outer", members := [.field "speed"],
        typeParameters := ["T"], usings := ["System", "Game"] }
    let first : TypeSymbol :=
      { name := "Inner", namespaceName := some "Game", containingTypes := ["Outer"],
        usings := ["System", "System"] }
    let last : TypeSymbol :=
      { name := "Outer.Inner", namespaceName := some "Game", typeParameters := ["U", "V"],
        usings := ["Other", "Game"] }
    let other : TypeSymbol := { name := "Outer", namespaceName := some "Game" }
    let table := (((ofList [first, other]).merge ((ofJsonText? text).getD {})).insert last)
    ClosedForm table [first, other, loaded, last] ∧
      table.get? "Game.Outer.Inner" =
        some { first with
          members := [.field "speed"], typeParameters := ["T"],
          usings := ["System", "System", "Game", "Other"] } := by
  intro text loaded first last other table
  have hload : ofJsonText? text = some (ofList [loaded]) := by decide +kernel
  have hfilled : Filled ((ofJsonText? text).getD {}) [loaded] := by
    rw [hload]
    exact .fromJson text hload (by decide +kernel)
  exact ⟨((Filled.insertAll [first, other] .empty).merge hfilled).insert last |>.closed_form,
    by decide +kernel⟩

end TypeTable
end HookEvents
