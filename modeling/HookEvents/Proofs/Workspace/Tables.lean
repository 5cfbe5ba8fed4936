import HookEvents.Proofs.Symbol.Merge
import HookEvents.Proofs.Symbol.Roundtrip
import HookEvents.Workspace.Project

namespace HookEvents

def symbolsAt? (surroundings : Surroundings) (path : String) : Option (List TypeSymbol) :=
  (surroundings.files.readText? (surroundings.locate path)).bind TypeTable.symbolsIn?

theorem loadTable_of_symbolsAt? {surroundings : Surroundings} {path : String}
    {symbols : List TypeSymbol} (h : symbolsAt? surroundings path = some symbols) :
    loadTable surroundings path = .ok (.ofList symbols) := by
  obtain ⟨text, ht, hs⟩ := Option.bind_eq_some_iff.mp h
  have htable : TypeTable.ofJsonText? text = some (.ofList symbols) := by
    rw [TypeTable.ofJsonText?_eq]
    exact congrArg (Option.map TypeTable.ofList) hs
  unfold loadTable
  rw [ht]
  dsimp only
  rw [htable]

theorem Program.addTable_addTable (program : Program) (table other : TypeTable) :
    (program.addTable table).addTable other = program.addTable (table.merge other) := by
  simp only [addTable, TypeTable.merge_assoc]

theorem addTables_cons_iff {surroundings : Surroundings} {path : String} {paths : List String}
    {program result : Program} :
    Project.addTables surroundings program (path :: paths) = .ok result ↔
      ∃ table, loadTable surroundings path = .ok table ∧
        Project.addTables surroundings (program.addTable table) paths = .ok result := by
  conv_lhs => unfold Project.addTables
  cases loadTable surroundings path with
  | error fault => simp
  | ok table => simp

theorem addTables_of_symbolsAt? {surroundings : Surroundings} {paths : List String}
    {lists : List (List TypeSymbol)} (h : paths.mapM (symbolsAt? surroundings) = some lists)
    (program : Program) :
    Project.addTables surroundings program paths =
      .ok (program.addTable (.ofList lists.flatten)) := by
  induction paths generalizing program lists with
  | nil =>
    obtain rfl : [] = lists := Option.some.inj h
    rfl
  | cons path paths ih =>
    simp only [List.mapM_cons, Option.bind_eq_bind, Option.bind_eq_some_iff] at h
    obtain ⟨first, hfirst, rest, hrest, h⟩ := h
    obtain rfl : first :: rest = lists := Option.some.inj h
    apply addTables_cons_iff.mpr
    refine ⟨.ofList first, loadTable_of_symbolsAt? hfirst, ?_⟩
    rw [ih hrest, Program.addTable_addTable, List.flatten_cons, TypeTable.ofList_append]

theorem exists_symbolsIn?_flatten {texts : List String} {lists : List (List TypeSymbol)}
    (h : texts.mapM TypeTable.symbolsIn? = some lists) :
    ∃ whole, TypeTable.symbolsIn? whole = some lists.flatten := by
  refine ⟨TypeTable.listing lists.flatten, ?_⟩
  -- What was read from a text is written so that it is read back unchanged.
  have hsame : ∀ symbol ∈ lists.flatten, symbol.reread = symbol := by
    intro symbol hs
    obtain ⟨symbols, hl, hs⟩ := List.mem_flatten.mp hs
    obtain ⟨text, -, ht⟩ := mem_of_mapM_eq_some h hl
    exact TypeSymbol.reread_eq (TypeTable.namesResults_of_symbolsIn? ht symbol hs)
  rw [TypeTable.symbolsIn?_listing, List.map_congr_left hsame, List.map_id']

/-- Splitting declarations among files, tables or texts makes no difference to the table. -/
theorem TypeTable.merge_independent_of_split :
    (∀ first second, ofList (first ++ second) = (ofList first).merge (ofList second)) ∧
    (∀ lists : List (List TypeSymbol), lists.foldl insertAll {} =
      lists.foldl (fun table symbols => table.merge (ofList symbols)) {}) ∧
    (∀ table other further : TypeTable,
      (table.merge other).merge further = table.merge (other.merge further)) ∧
    (∀ table : TypeTable, TypeTable.merge {} table = table ∧ table.merge {} = table) ∧
    (∀ (surroundings : Surroundings) (program : Program) (paths : List String) (whole : String)
      (lists : List (List TypeSymbol)), paths.mapM (symbolsAt? surroundings) = some lists →
      symbolsAt? surroundings whole = some lists.flatten →
      ∃ result, Project.addTables surroundings program paths = .ok result ∧
        Project.addTables surroundings program [whole] = .ok result) ∧
    ∀ (texts : List String) (lists : List (List TypeSymbol)),
      texts.mapM symbolsIn? = some lists → ∃ whole, symbolsIn? whole = some lists.flatten := by
  refine ⟨ofList_append, fun lists => ?_, merge_assoc,
    fun table => ⟨table.empty_merge, table.merge_empty⟩, ?_, fun _ _ => exists_symbolsIn?_flatten⟩
  · rw [foldl_insertAll, foldl_merge_ofList]
  · intro surroundings program paths whole lists hpaths hwhole
    have hone : [whole].mapM (symbolsAt? surroundings) = some [lists.flatten] := by
      simp [hwhole]
    refine ⟨_, addTables_of_symbolsAt? hpaths program, ?_⟩
    rw [addTables_of_symbolsAt? hone, List.flatten_singleton]

def Surroundings.splitSample : Surroundings :=
  let first := "[\"A\", null, [], [[\"method\", \"M\"]], [], [\"u\", \"u\"]]"
  let second := "[\"B\"], [\"A\", null, [], [[\"field\", \"f\"]], [\"T\"], [\"v\", \"u\"]]"
  { files := ⟨
      [(["a.json"], .file (.text ("[[" ++ first ++ "]]"))),
       (["b.json"], .file (.text ("[[" ++ second ++ "]]"))),
       (["ab.json"], .file (.text ("[[" ++ first ++ ", " ++ second ++ "]]")))]⟩
    directory := [] }

theorem TypeTable.merge_independent_of_split_files :
    ∃ result : Program,
      Project.addTables .splitSample {} ["a.json", "b.json"] = .ok result ∧
      Project.addTables .splitSample {} ["ab.json"] = .ok result := by
  let first : TypeSymbol :=
    { name := "A", members := [.method { name := "M" }], usings := ["u", "u"] }
  let second : TypeSymbol :=
    { name := "A", members := [.field "f"], typeParameters := ["T"], usings := ["v", "u"] }
  apply merge_independent_of_split.2.2.2.2.1 .splitSample {} ["a.json", "b.json"] "ab.json"
    [[first], [{ name := "B" }, second]]
  · decide +kernel
  · decide +kernel

end HookEvents
