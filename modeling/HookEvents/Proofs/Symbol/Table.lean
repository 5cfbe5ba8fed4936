import HookEvents.Proofs.Keyed
import HookEvents.Symbol.Table

/-!
What a table holds after any insertions and merges: the entry of a name is made of all the
declarations of that name, in the order in which they came.
-/
namespace HookEvents

namespace TypeSymbol

theorem mem_addUsings {target : String} {known new : List String}
    (h : target ∈ known ∨ target ∈ new) : target ∈ addUsings known new := by
  induction new generalizing known with
  | nil => simpa [addUsings] using h
  | cons first new ih =>
    change target ∈ addUsings (if known.contains first then known else known ++ [first]) new
    apply ih
    rcases h with h | h
    · left
      split <;> simp [h]
    · rcases List.mem_cons.mp h with rfl | h
      · left
        split <;> simp_all
      · exact Or.inr h

theorem addUsings_append (known new more : List String) :
    addUsings known (new ++ more) = addUsings (addUsings known new) more := by
  simp [addUsings]

theorem addUsings_assoc (known new more : List String) :
    addUsings (addUsings known new) more = addUsings known (addUsings new more) := by
  rw [← addUsings_append]
  induction more generalizing new with
  | nil => simp [addUsings]
  | cons target more ih =>
    change _ = addUsings known
      (addUsings (if new.contains target then new else new ++ [target]) more)
    rw [← ih]
    by_cases ht : target ∈ new
    · have hm : target ∈ addUsings known new := mem_addUsings (Or.inr ht)
      have hstep : addUsings (addUsings known new) (target :: more) =
          addUsings (addUsings known new) more := by
        simp [addUsings] at hm ⊢
        simp [hm]
      simp only [List.contains_eq_mem, ht, decide_true, ↓reduceIte, addUsings_append, hstep]
    · simp [ht]

theorem absorb_assoc (symbol other further : TypeSymbol) :
    (symbol.absorb other).absorb further = symbol.absorb (other.absorb further) := by
  simp only [absorb, List.append_assoc, addUsings_assoc, TypeSymbol.mk.injEq, true_and, and_true]
  by_cases hs : symbol.typeParameters.isEmpty <;> simp [hs]

def absorbAll (first : TypeSymbol) (rest : List TypeSymbol) : TypeSymbol := rest.foldl absorb first

theorem absorb_absorbAll (symbol first : TypeSymbol) (rest : List TypeSymbol) :
    symbol.absorb (first.absorbAll rest) = symbol.absorbAll (first :: rest) := by
  induction rest generalizing first with
  | nil => rfl
  | cons other rest ih =>
    change symbol.absorb ((first.absorb other).absorbAll rest) = _
    rw [ih]
    simp only [absorbAll, List.foldl_cons, absorb_assoc]

theorem absorbAll_namespaceName (first : TypeSymbol) (rest : List TypeSymbol) :
    (first.absorbAll rest).namespaceName = first.namespaceName := by
  induction rest generalizing first with
  | nil => rfl
  | cons other rest ih => exact ih (first.absorb other)

theorem absorbAll_containingTypes (first : TypeSymbol) (rest : List TypeSymbol) :
    (first.absorbAll rest).containingTypes = first.containingTypes := by
  induction rest generalizing first with
  | nil => rfl
  | cons other rest ih => exact ih (first.absorb other)

theorem absorbAll_members (first : TypeSymbol) (rest : List TypeSymbol) :
    (first.absorbAll rest).members = (first :: rest).flatMap (·.members) := by
  induction rest generalizing first with
  | nil => simp [absorbAll]
  | cons other rest ih =>
    change ((first.absorb other).absorbAll rest).members = _
    simp [ih, absorb]

theorem absorb_isGeneric (symbol other : TypeSymbol) :
    (symbol.absorb other).isGeneric = (symbol.isGeneric || other.isGeneric) := by
  cases hs : symbol.typeParameters <;> simp [absorb, isGeneric, hs]

theorem absorbAll_isGeneric (first : TypeSymbol) (rest : List TypeSymbol) :
    (first.absorbAll rest).isGeneric = (first :: rest).any isGeneric := by
  induction rest generalizing first with
  | nil => simp [absorbAll]
  | cons other rest ih =>
    change ((first.absorb other).absorbAll rest).isGeneric = _
    rw [ih]
    simp [absorb_isGeneric, Bool.or_assoc]

end TypeSymbol

namespace TypeTable

def keyed : Keyed TypeSymbol TypeSymbol String where
  key := TypeSymbol.qualifiedName
  keyOf := TypeSymbol.qualifiedName
  make := id
  update := TypeSymbol.absorb
  key_make _ := rfl
  key_update _ _ := rfl

theorem index_lookup_eq_some {table : TypeTable} {name : String} {slot : Nat} :
    table.index.lookup name = some slot ↔ table.names[slot]? = some name := by
  rw [table.index_eq]
  exact lookup_zipIdx_eq_some table.names_nodup

theorem get?_eq_find? (table : TypeTable) (name : String) :
    table.get? name = keyed.get? table.types name := by
  rw [get?]
  cases hl : table.index.lookup name with
  | none =>
    have hnot := index_lookup_eq_none.mp hl
    have hfind : keyed.get? table.types name = none := by
      apply List.find?_eq_none.mpr
      intro entry he hn
      exact hnot (List.mem_map.mpr ⟨entry, he, of_decide_eq_true hn⟩)
    rw [hfind, Option.bind_none]
  | some slot =>
    have hname := index_lookup_eq_some.mp hl
    rw [names, List.getElem?_map] at hname
    obtain ⟨entry, hentry, rfl⟩ := Option.map_eq_some_iff.mp hname
    rw [Option.bind_some, hentry]
    exact (keyed.get?_key table.names_nodup (List.mem_of_getElem? hentry)).symm

theorem types_insert (table : TypeTable) (symbol : TypeSymbol) :
    (table.insert symbol).types = keyed.insert symbol table.types := by
  rw [TypeTable.insert]
  split
  next slot hl => exact (keyed.insert_eq_modify table.names_nodup (index_lookup_eq_some.mp hl)).symm
  next hl => exact (keyed.insert_of_not_mem (index_lookup_eq_none.mp hl)).symm

theorem types_insertAll (table : TypeTable) (symbols : List TypeSymbol) :
    (table.insertAll symbols).types = keyed.insertAll table.types symbols := by
  induction symbols generalizing table with
  | nil => rfl
  | cons symbol symbols ih =>
    change ((table.insert symbol).insertAll symbols).types = _
    rw [ih, types_insert]
    rfl

theorem get?_insertAll (table : TypeTable) (symbols : List TypeSymbol) (name : String) :
    (table.insertAll symbols).get? name =
      keyed.gather (table.get? name) (symbols.filter (·.qualifiedName = name)) := by
  rw [get?_eq_find?, types_insertAll, keyed.get?_insertAll, get?_eq_find?]
  rfl

theorem get?_merge (table other : TypeTable) (name : String) :
    (table.merge other).get? name =
      keyed.gather (table.get? name) (other.get? name).toList := by
  have hentry : other.types.filter (·.qualifiedName = name) = (other.get? name).toList :=
    get?_eq_find? other name ▸ keyed.filter_key_eq other.names_nodup name
  rw [TypeTable.merge, get?_insertAll, hentry]

theorem get?_qualifiedName {table : TypeTable} {symbol : TypeSymbol} (h : symbol ∈ table.types) :
    table.get? symbol.qualifiedName = some symbol := by
  rw [get?_eq_find?]
  exact keyed.get?_key table.names_nodup h

theorem mem_types_of_get? {table : TypeTable} {name : String} {entry : TypeSymbol}
    (h : table.get? name = some entry) : entry ∈ table.types := by
  rw [get?_eq_find?] at h
  exact List.mem_of_find?_eq_some h

theorem ext_types {table other : TypeTable} (h : table.types = other.types) : table = other := by
  obtain ⟨types, index, hindex, _⟩ := table
  obtain ⟨_, _, hother, _⟩ := other
  obtain rfl := h
  obtain rfl := hindex.trans hother.symm
  rfl

theorem types_ofList {symbols : List TypeSymbol} (h : (symbols.map (·.qualifiedName)).Nodup) :
    (ofList symbols).types = symbols := by
  rw [ofList, types_insertAll, keyed.insertAll_of_nodup]
  · simp [keyed]
  · exact h

theorem ofList_types (table : TypeTable) : ofList table.types = table :=
  ext_types (types_ofList table.names_nodup)

inductive Built : TypeTable → List TypeSymbol → Prop
  | empty : Built {} []
  | insert {table symbols} (symbol : TypeSymbol) (h : Built table symbols) :
      Built (table.insert symbol) (symbols ++ [symbol])
  | insertAll {table symbols} (new : List TypeSymbol) (h : Built table symbols) :
      Built (table.insertAll new) (symbols ++ new)
  | merge {table other symbols new} (h : Built table symbols) (ho : Built other new) :
      Built (table.merge other) (symbols ++ new)

theorem built_ofList (symbols : List TypeSymbol) : Built (ofList symbols) symbols :=
  .insertAll symbols .empty

theorem gather_toList_gather (entry : Option TypeSymbol) (symbols : List TypeSymbol) :
    keyed.gather entry (keyed.gather none symbols).toList = keyed.gather entry symbols := by
  cases symbols with
  | nil => rfl
  | cons first rest =>
    cases entry with
    | none => rfl
    | some entry => exact congrArg some (entry.absorb_absorbAll first rest)

theorem Built.get?_eq_gather {table : TypeTable} {symbols : List TypeSymbol}
    (h : table.Built symbols) (name : String) :
    table.get? name = keyed.gather none (symbols.filter (·.qualifiedName = name)) := by
  induction h with
  | empty => rfl
  | insert symbol _ ih =>
    rw [List.filter_append, keyed.gather_append, ← ih]
    exact get?_insertAll _ [symbol] name
  | insertAll new _ ih => rw [List.filter_append, keyed.gather_append, ← ih, get?_insertAll]
  | merge _ _ ih iho =>
    rw [get?_merge, iho, ih, gather_toList_gather, ← keyed.gather_append, ← List.filter_append]

theorem Built.get?_eq_some_iff {table : TypeTable} {symbols : List TypeSymbol}
    (h : table.Built symbols) {name : String} {entry : TypeSymbol} :
    table.get? name = some entry ↔ ∃ first rest,
      symbols.filter (·.qualifiedName = name) = first :: rest ∧ first.absorbAll rest = entry := by
  rw [h.get?_eq_gather]
  cases symbols.filter (·.qualifiedName = name) with
  | nil => simp [Keyed.gather]
  | cons first rest =>
    constructor
    · intro he
      exact ⟨first, rest, rfl, Option.some.inj he⟩
    · rintro ⟨_, _, hd, rfl⟩
      obtain ⟨rfl, rfl⟩ := List.cons.inj hd
      rfl

theorem Built.exists_of_mem_members {table : TypeTable} {symbols : List TypeSymbol}
    (h : table.Built symbols) {entry : TypeSymbol} (he : entry ∈ table.types) {member : Member}
    (hm : member ∈ entry.members) : ∃ symbol ∈ symbols, member ∈ symbol.members := by
  obtain ⟨first, rest, hfilter, rfl⟩ := h.get?_eq_some_iff.mp (get?_qualifiedName he)
  rw [TypeSymbol.absorbAll_members] at hm
  obtain ⟨symbol, hs, hm⟩ := List.mem_flatMap.mp hm
  rw [← hfilter] at hs
  exact ⟨symbol, (List.mem_filter.mp hs).1, hm⟩

theorem qualifiedName_of_filter {symbols rest : List TypeSymbol} {name : String}
    {first : TypeSymbol} (h : symbols.filter (·.qualifiedName = name) = first :: rest) :
    first.qualifiedName = name := by
  have hm : first ∈ symbols.filter (·.qualifiedName = name) := by simp [h]
  simpa using (List.mem_filter.mp hm).2

theorem qualifiedName_of_get? {table : TypeTable} {name : String} {entry : TypeSymbol}
    (h : table.get? name = some entry) : entry.qualifiedName = name := by
  rw [get?_eq_find?] at h
  have hname := List.find?_some h
  exact of_decide_eq_true hname

end TypeTable
end HookEvents
