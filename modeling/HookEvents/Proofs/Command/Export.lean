import HookEvents.Command.Run
import HookEvents.Proofs.Generation.Resolve
import HookEvents.Proofs.Symbol.Roundtrip
import HookEvents.Proofs.Workspace.FileSystem

/-!
An exported type table is the same table when it is loaded again, if its methods name their results.
Loaded tables do. A table of sources does unless a result is spelled with blanks, as in
`System . Void`, or the sources declare `System.Void` themselves.
-/
namespace HookEvents

namespace Command

theorem exists_write_of_runTypes {surroundings : Surroundings} {root : String} {config : Config}
    {options : TypesOptions} {path : String} (hp : options.exportTo = some path)
    (h : (runTypes surroundings root config options).exit = 0) :
    ∃ project, (Project.analyze surroundings root config []).result = .ok project ∧
      surroundings.files.write? (surroundings.locate path) project.program.types.toJsonText =
        some (runTypes surroundings root config options).files := by
  unfold runTypes at h ⊢
  rw [hp] at h ⊢
  dsimp only at h ⊢
  cases ha : (Project.analyze surroundings root config []).result with
  | error fault =>
    rw [ha] at h
    exact absurd h Nat.one_ne_zero
  | ok project =>
    refine ⟨project, rfl, ?_⟩
    rw [ha] at h
    dsimp only at h ⊢
    cases hw : surroundings.files.write? (surroundings.locate path)
        project.program.types.toJsonText with
    | none =>
      rw [hw] at h
      exact absurd h Nat.one_ne_zero
    | some files => rfl

theorem exists_write_of_export {surroundings : Surroundings} {options : TypesOptions}
    {path : String} (hp : options.exportTo = some path)
    (h : (Command.run surroundings (.types options)).exit = 0) :
    ∃ config project,
      Config.loadFor surroundings ((Command.types options).rootIn surroundings) = .ok config ∧
      (Project.analyze surroundings ((Command.types options).rootIn surroundings) config []).result =
        .ok project ∧
      surroundings.files.write? (surroundings.locate path) project.program.types.toJsonText =
        some (Command.run surroundings (.types options)).files := by
  unfold run at h ⊢
  cases hc : Config.loadFor surroundings ((Command.types options).rootIn surroundings) with
  | error fault =>
    rw [hc] at h
    exact absurd h Nat.one_ne_zero
  | ok config =>
    rw [hc] at h
    obtain ⟨project, ha, hw⟩ := exists_write_of_runTypes hp h
    exact ⟨config, project, rfl, ha, hw⟩

end Command

theorem loadTable_write? {surroundings : Surroundings} {path : String} {table : TypeTable}
    {files : FileSystem} (hc : surroundings.files.Closed)
    (hw : surroundings.files.write? (surroundings.locate path) table.toJsonText = some files) :
    loadTable { surroundings with files } path =
      .ok (.ofList (table.types.map TypeSymbol.reread)) := by
  have hread : files.readText? (Surroundings.locate { surroundings with files } path) =
      some table.toJsonText :=
    hc.readText?_write hw
  unfold loadTable
  rw [hread]
  dsimp only
  rw [TypeTable.ofJsonText?_reread]

theorem loadTable_of_write? {surroundings : Surroundings} {path : String} {table : TypeTable}
    {files : FileSystem} (hc : surroundings.files.Closed) (ht : table.NamesResults)
    (hw : surroundings.files.write? (surroundings.locate path) table.toJsonText = some files) :
    loadTable { surroundings with files } path = .ok table := by
  rw [loadTable_write? hc hw, TypeTable.ofList_reread ht]

theorem TypeTable.NamesResults.resolve {table : TypeTable} (h : table.NamesResults)
    {reference : HookReference} {hook : ResolvedHook}
    (hr : HookEvents.resolve table.model reference = .ok hook) :
    ∀ text ∈ hook.method.returnType,
      Text.trim text ∉ ["", "void", "System.Void", "global::System.Void"] := by
  obtain ⟨-, htype, hmethod, -⟩ := resolve_eq_ok_iff.mp hr
  exact h hook.declaringType (TypeTable.mem_types_of_get? htype) hook.method
    (List.mem_of_find?_eq_some hmethod)

theorem namesResults_of_loadTable {surroundings : Surroundings} {path : String} {table : TypeTable}
    (h : loadTable surroundings path = .ok table) : table.NamesResults := by
  unfold loadTable at h
  split at h
  · exact absurd h (by simp)
  · split at h
    · exact absurd h (by simp)
    next loaded hloaded =>
      obtain rfl := Except.ok.inj h
      exact TypeTable.namesResults_of_ofJsonText? hloaded

theorem TypeTable.export_import_inverse (table : TypeTable) (h : table.NamesResults) :
    ofJsonText? table.toJsonText = some table ∧
    (∀ text loaded, ofJsonText? text = some loaded → loaded.NamesResults) ∧
    ∀ (surroundings : Surroundings) (options : TypesOptions) (path : String),
      surroundings.files.Closed → options.exportTo = some path →
      (Command.run surroundings (.types options)).exit = 0 →
      ∃ config project,
        Config.loadFor surroundings ((Command.types options).rootIn surroundings) = .ok config ∧
        (Project.analyze surroundings ((Command.types options).rootIn surroundings) config
          []).result = .ok project ∧
        (project.program.types = table → ∃ loaded,
          loadTable { surroundings with files := (Command.run surroundings (.types options)).files }
            path = .ok loaded ∧
          loaded.types = project.program.types.types ∧
          ∀ reference, resolve loaded.model reference =
            resolve project.program.model reference) := by
  refine ⟨ofJsonText?_toJsonText h, fun _ _ => namesResults_of_ofJsonText?, ?_⟩
  intro surroundings options path hc hp hexit
  obtain ⟨config, project, hconfig, hproject, hwrite⟩ := Command.exists_write_of_export hp hexit
  refine ⟨config, project, hconfig, hproject, ?_⟩
  rintro rfl
  exact ⟨project.program.types, loadTable_of_write? hc h hwrite, rfl, fun _ => rfl⟩

def TypeTable.escapedSample : TypeTable := .ofList
  [{ name := "A\"\\\n\u0001é😀", namespaceName := some ""
     containingTypes := ["O", ""]
     members :=
       [.method { name := "M", isStatic := true, parameters := ["ref int", "\t"]
                  returnType := some " void*", typeParameters := ["T"] },
        .method { name := "" }, .field "f", .property "\u007f", .nestedType "N"]
     typeParameters := ["T"], usings := ["System", "A = B"] },
   { name := "B" }]

def nestedSource : String :=
  "namespace N { class A { int M(B b) { } class B { } } }"

def Surroundings.nestedSample : Surroundings :=
  { files := ⟨[(["p"], .directory), (["p", "A.cs"], .file (.text nestedSource))]⟩
    directory := ["p"] }

theorem TypeTable.export_import_inverse_samples :
    ofJsonText? escapedSample.toJsonText = some escapedSample ∧
    ∃ loaded, loadTable { Surroundings.nestedSample with
        files := (Command.run .nestedSample (.types { exportTo := some "t.json" })).files }
        "t.json" = .ok loaded ∧
      ∀ reference, resolve loaded.model reference =
        resolve (Program.ofSources [nestedSource]).model reference := by
  refine ⟨(export_import_inverse escapedSample (by unfold NamesResults; decide +kernel)).1, ?_⟩
  have hdefault : (Config.loadFor .nestedSample "/p").toOption = some {} := by decide +kernel
  have hanalyze : (Project.analyze .nestedSample "/p" {} []).result.toOption.map
      (·.program.types) = some (Program.ofSources [nestedSource]).types := by decide +kernel
  have hinverse := export_import_inverse (Program.ofSources [nestedSource]).types
    (by unfold NamesResults; decide +kernel)
  obtain ⟨config, project, hconfig, hproject, hloaded⟩ := hinverse.2.2 .nestedSample
    { exportTo := some "t.json" } "t.json" (by decide +kernel) rfl (by decide +kernel)
  change Config.loadFor .nestedSample "/p" = .ok config at hconfig
  rw [hconfig] at hdefault
  obtain rfl := Option.some.inj hdefault
  change (Project.analyze .nestedSample "/p" {} []).result = .ok project at hproject
  rw [hproject] at hanalyze
  have htypes : project.program.types = (Program.ofSources [nestedSource]).types :=
    Option.some.inj hanalyze
  obtain ⟨loaded, hload, -, hresolve⟩ := hloaded htypes
  refine ⟨loaded, hload, fun reference => ?_⟩
  rw [hresolve, Program.model, htypes]
  rfl

def Surroundings.voidSample : Surroundings :=
  { files := ⟨
      [(["p"], .directory),
       (["p", "A.cs"], .file (.text
         "namespace System { struct Void { } class A { Void M() { On.System.A.M += G; } } }"))]⟩
    directory := ["p"] }

/-- Not every exported table resolves what the project resolves: a method whose result is qualified to
`global::System.Void` has no result when the table is loaded. -/
theorem TypeTable.export_drops_void :
    ¬∀ (surroundings : Surroundings) (options : TypesOptions) (path : String) (config : Config)
      (project : Project),
      surroundings.files.Closed → options.exportTo = some path →
      (Command.run surroundings (.types options)).exit = 0 →
      Config.loadFor surroundings ((Command.types options).rootIn surroundings) = .ok config →
      (Project.analyze surroundings ((Command.types options).rootIn surroundings) config []).result =
        .ok project →
      ∃ loaded,
        loadTable { surroundings with files := (Command.run surroundings (.types options)).files }
          path = .ok loaded ∧
        ∀ reference, resolve loaded.model reference = resolve project.program.model reference := by
  intro hsame
  have hresolved : ((Project.analyze .voidSample "/p" {} []).result.toOption.bind fun project =>
      (resolve project.program.model ⟨.subscribe, "On.System.A.M", "System.A", "M"⟩).toOption).bind
        (·.method.returnType) = some "global::System.Void" := by
    decide +kernel
  obtain ⟨hook, hhook, htext⟩ := Option.bind_eq_some_iff.mp hresolved
  obtain ⟨project, hproject, hhook⟩ := Option.bind_eq_some_iff.mp hhook
  have hdefault : (Config.loadFor .voidSample "/p").toOption = some {} := by decide +kernel
  obtain ⟨loaded, hload, hsame⟩ := hsame .voidSample { exportTo := some "t.json" } "t.json" {}
    project (by decide +kernel) rfl (by decide +kernel) (toOption_eq_some_iff.mp hdefault)
    (toOption_eq_some_iff.mp hproject)
  have hnames := (namesResults_of_loadTable hload).resolve
    ((hsame _).trans (toOption_eq_some_iff.mp hhook)) _ htext
  exact absurd hnames (by decide +kernel)

end HookEvents
