import HookEvents.Proofs.Symbol.ClosedForm
import Mathlib.Data.List.Basic

namespace HookEvents

namespace TypeTable

theorem types_eq_filterMap (table : TypeTable) : table.types = table.names.filterMap table.get? := by
  have hself : table.types.filterMap (fun symbol => table.get? symbol.qualifiedName) =
      table.types.filterMap some :=
    List.filterMap_congr fun symbol hs => get?_qualifiedName hs
  rw [names, List.filterMap_map]
  exact (hself.trans List.filterMap_some).symm

theorem ext_get? {table other : TypeTable} (hn : table.names = other.names)
    (hg : ∀ name, table.get? name = other.get? name) : table = other := by
  apply ext_types
  rw [types_eq_filterMap, types_eq_filterMap, hn, funext hg]

theorem Built.eq_ofList {table : TypeTable} {symbols : List TypeSymbol} (h : table.Built symbols) :
    table = ofList symbols := by
  have hlist := built_ofList symbols
  apply ext_get?
  · rw [h.names_eq, hlist.names_eq]
  · intro name
    rw [h.get?_eq_gather, hlist.get?_eq_gather]

theorem built_types (table : TypeTable) : table.Built table.types := by
  have hbuilt := built_ofList table.types
  rwa [ofList_types] at hbuilt

theorem ofList_append (first second : List TypeSymbol) :
    ofList (first ++ second) = (ofList first).merge (ofList second) :=
  ((built_ofList first).merge (built_ofList second)).eq_ofList.symm

theorem merge_assoc (table other further : TypeTable) :
    (table.merge other).merge further = table.merge (other.merge further) := by
  -- Both sides are built from the same declarations in the same order.
  have hleft := (table.built_types.merge other.built_types).merge further.built_types
  have hright := table.built_types.merge (other.built_types.merge further.built_types)
  rw [hleft.eq_ofList, hright.eq_ofList, List.append_assoc]

theorem empty_merge (table : TypeTable) : TypeTable.merge {} table = table := table.ofList_types

theorem merge_empty (table : TypeTable) : table.merge {} = table := rfl

theorem foldl_merge_ofList (table : TypeTable) (lists : List (List TypeSymbol)) :
    lists.foldl (fun table symbols => table.merge (ofList symbols)) table =
      table.merge (ofList lists.flatten) := by
  induction lists generalizing table with
  | nil => rfl
  | cons symbols lists ih =>
    rw [List.foldl_cons, ih, List.flatten_cons, ofList_append, merge_assoc]

theorem foldl_insertAll (table : TypeTable) (lists : List (List TypeSymbol)) :
    lists.foldl insertAll table = table.merge (ofList lists.flatten) := by
  have hflat : lists.foldl insertAll table = table.insertAll lists.flatten := List.foldl_flatten.symm
  have hbuilt := (table.built_types.insertAll lists.flatten).eq_ofList
  rw [hflat, hbuilt, ofList_append, ofList_types]

end TypeTable

end HookEvents
