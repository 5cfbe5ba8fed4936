import HookEvents.Proofs.Generation.Units
import HookEvents.Proofs.Workspace.Output
import HookEvents.Proofs.Workspace.Rescan
import HookEvents.Proofs.Workspace.Tables
import HookEvents.Proofs.Workspace.WalkOrder

namespace HookEvents

open FileSystem Text

namespace Walk

theorem mem_below {walk : Walk} {depth : Nat} {above : List IgnoreLevel} {path : List FileName}
    {file : FoundFile} (h : file ∈ walk.below depth above path) :
    file.path ≠ [] ∧ ∃ content, walk.files.get? (walk.root ++ file.path) = some (.file content) := by
  induction depth generalizing above path with
  | zero => exact absurd h List.not_mem_nil
  | succ depth ih =>
    rw [below] at h
    obtain ⟨name, -, h⟩ := List.mem_flatMap.mp h
    unfold foundAt at h
    dsimp only at h
    split at h
    · split at h
      · exact ih h
      · exact absurd h List.not_mem_nil
    next content hget =>
      split at h
      · obtain rfl := List.mem_singleton.mp h
        exact ⟨by simp, content, by rwa [← List.append_assoc]⟩
      · exact absurd h List.not_mem_nil
    · exact absurd h List.not_mem_nil

end Walk

namespace ScanConfig

variable {config : ScanConfig}

theorem file?_select_generated (hs : config.skipGenerated = true) {file : FoundFile}
    (hf : file.isOwn = false) : (config.select file).file? = none := by
  have hgenerated : isGenerated file.name = true := by simpa [FoundFile.isOwn] using hf
  unfold select
  by_cases hw : config.wantsExtension file.name = true
  · simp [hw, hs, hgenerated, Selection.file?]
  · simp [hw, Selection.file?]

theorem selected_filter_isOwn (hs : config.skipGenerated = true) (found : List FoundFile) :
    config.selected (found.filter FoundFile.isOwn) = config.selected found := by
  unfold selected
  induction found with
  | nil => rfl
  | cons file found ih =>
    cases hf : file.isOwn with
    | true => simp [hf, ih, List.filterMap_cons]
    | false => simp [hf, ih, file?_select_generated hs hf]

theorem files_scanOf_eq {found delivered : List FoundFile} (hs : config.skipGenerated = true)
    (hk : ((config.selected found).map SourceFile.relativePath).Nodup)
    (hp : (delivered.filter FoundFile.isOwn).Perm (found.filter FoundFile.isOwn)) :
    (config.scanOf delivered).files = (config.scanOf found).files := by
  have hselected : (config.selected delivered).Perm (config.selected found) := by
    rw [← selected_filter_isOwn hs, ← selected_filter_isOwn hs found]
    exact selected_perm hp
  rw [files_eq_keySorted, files_eq_keySorted]
  apply keySorted_eq_of_perm hselected
  intro file hf other ho heq
  exact List.inj_on_of_nodup_map hk hf ho heq

theorem mem_files_scanOf (hs : config.skipGenerated = true) {found : List FoundFile}
    {file : SourceFile} (h : file ∈ (config.scanOf found).files) :
    ∃ source ∈ found, source.path = file.path ∧ isGenerated source.name = false := by
  simp only [scanOf_eq, List.mem_mergeSort, List.mem_filterMap, List.mem_map] at h
  obtain ⟨selection, ⟨source, hsource, rfl⟩, hfile⟩ := h
  refine ⟨source, hsource, ?_, ?_⟩
  · unfold select at hfile
    split at hfile
    · exact absurd hfile (by simp [Selection.file?])
    split at hfile
    · exact absurd hfile (by simp [Selection.file?])
    split at hfile
    · exact absurd hfile (by simp [Selection.file?])
    · obtain rfl := Option.some.inj hfile
      rfl
  · cases hg : isGenerated source.name with
    | false => rfl
    | true =>
      rw [file?_select_generated hs (by simp [FoundFile.isOwn, hg])] at hfile
      exact absurd hfile (by simp)

theorem walk?_eq_some_iff {files : FileSystem} {location : List FileName} {walk : Walk} :
    config.walk? files location = some walk ↔
      ∃ place, files.resolve? location = some place ∧ files.get? place = some .directory ∧
        walk = ⟨files, place, config.followLinks⟩ := by
  unfold walk?
  by_cases hd : files.isDirectory location = true
  · obtain ⟨place, hresolve, hplace⟩ := isDirectory_iff.mp hd
    simp [hd, hresolve, hplace, eq_comm]
  · have hnot : ∀ place, files.resolve? location = some place →
        files.get? place ≠ some .directory := fun place hresolve hplace =>
      hd (isDirectory_iff.mpr ⟨place, hresolve, hplace⟩)
    rw [if_neg hd]
    constructor
    · intro hwalk
      exact absurd hwalk (by simp)
    · rintro ⟨place, hresolve, hplace, -⟩
      exact absurd hplace (hnot place hresolve)

end ScanConfig

structure Surroundings.IsTree (surroundings : Surroundings) : Prop where
  files : surroundings.files.IsTree
  directory : surroundings.files.get? surroundings.place = some .directory

theorem Surroundings.IsTree.isPlain {surroundings : Surroundings} (h : surroundings.IsTree) :
    IsPlain surroundings.place := h.files.isPlain_of_get? (by simp [h.directory])

theorem getLast?_locate {surroundings : Surroundings} {path : String} {name : FileName}
    (hn : (surroundings.locate path).getLast? = some name) :
    (Path.steps (utf8Bytes path)).getLast? = some name ∨
      surroundings.locate path = surroundings.place := by
  unfold Surroundings.locate Path.locate at hn ⊢
  split
  next habsolute =>
    rw [if_pos habsolute] at hn
    exact Or.inl hn
  next habsolute =>
    rw [if_neg habsolute, List.getLast?_append] at hn
    cases hsteps : (Path.steps (utf8Bytes path)).getLast? with
    | none =>
      right
      rw [List.getLast?_eq_none_iff.mp hsteps, List.append_nil]
    | some last =>
      left
      rwa [hsteps] at hn

theorem isGenerated_of_steps {path : String} {name : FileName}
    (hp : endsWith generatedExtension path = false)
    (hn : (Path.steps (utf8Bytes path)).getLast? = some name) :
    ScanConfig.isGenerated name = false := by
  apply Bool.eq_false_iff.mpr
  intro hgenerated
  have hdot : name ≠ .here := by
    rintro rfl
    exact absurd hgenerated (by decide +kernel)
  obtain ⟨front, last, rfl, rfl⟩ := Path.exists_append_of_getLast? hn hdot
  rw [ScanConfig.isGenerated_ofText] at hgenerated
  obtain ⟨stem, rfl⟩ := endsWith_iff.mp hgenerated
  rw [endsWith_iff.mpr ⟨front ++ stem, String.append_assoc.symm⟩] at hp
  exact absurd hp (by simp)

section

variable {surroundings : Surroundings} {after : FileSystem} (h : surroundings.IsTree)
  (ha : after.IsTree) (hu : Updated surroundings.files after)

include h ha hu

theorem readText?_locate {path text : String} (hp : endsWith generatedExtension path = false)
    (ht : surroundings.files.readText? (surroundings.locate path) = some text) :
    after.readText? (surroundings.locate path) = some text := by
  obtain ⟨content, hread, htext⟩ := Option.bind_eq_some_iff.mp ht
  have hname : ∀ name ∈ (surroundings.locate path).getLast?,
      ScanConfig.isGenerated name = false := by
    intro name hn
    rcases getLast?_locate hn with hsteps | hdirectory
    · exact isGenerated_of_steps hp hsteps
    · -- the current directory is no file
      rw [hdirectory, read?, h.files.entry?_plain h.isPlain, h.directory] at hread
      exact absurd hread (by simp)
  rw [readText?, hu.read?_eq_some h.files ha hname hread]
  exact htext

theorem loadTable_eq_ok {path : String} {table : TypeTable}
    (hp : endsWith generatedExtension path = false)
    (ht : loadTable surroundings path = .ok table) :
    loadTable { surroundings with files := after } path = .ok table := by
  unfold loadTable at ht ⊢
  cases hread : surroundings.files.readText? (surroundings.locate path) with
  | none =>
    rw [hread] at ht
    exact absurd ht (by simp)
  | some text =>
    rw [hread] at ht
    have hafter : after.readText? (Surroundings.locate { surroundings with files := after } path) =
        some text := readText?_locate h ha hu hp hread
    rw [hafter]
    exact ht

theorem addTables_eq_ok {paths : List String} {program result : Program}
    (hp : ∀ path ∈ paths, endsWith generatedExtension path = false)
    (ht : Project.addTables surroundings program paths = .ok result) :
    Project.addTables { surroundings with files := after } program paths = .ok result := by
  induction paths generalizing program with
  | nil => exact ht
  | cons path paths ih =>
    obtain ⟨table, hload, hrest⟩ := addTables_cons_iff.mp ht
    apply addTables_cons_iff.mpr
    refine ⟨table, loadTable_eq_ok h ha hu (hp path (by simp)) hload, ih ?_ hrest⟩
    intro other ho
    exact hp other (by simp [ho])

theorem exists_walk? {config : ScanConfig} {location : List FileName} {walk : Walk}
    (hg : KeepsRepositories surroundings.files after)
    (hwalk : config.walk? surroundings.files location = some walk) :
    ∃ again, config.walk? after location = some again ∧
      (again.found.filter FoundFile.isOwn).Perm (walk.found.filter FoundFile.isOwn) := by
  obtain ⟨place, hresolve, hplace, rfl⟩ := ScanConfig.walk?_eq_some_iff.mp hwalk
  refine ⟨_, ScanConfig.walk?_eq_some_iff.mpr
    ⟨place, hu.resolve? h.files ha hresolve, hu.directory hplace, rfl⟩, ?_⟩
  exact (Walk.filter_found hu h.files ha hg hplace).symm

theorem read_eq {config : ScanConfig} {root : String} {walk : Walk} {delivered : List FoundFile}
    {scan : SourceScan} (hs : config.skipGenerated = true)
    (hwalk : config.walk? surroundings.files (surroundings.locate root) = some walk)
    (hdelivered : delivered.Perm walk.found)
    (hscan : scan.files = (config.scanOf delivered).files) :
    Project.read { surroundings with files := after } root scan =
      Project.read surroundings root (config.scanOf delivered) := by
  obtain ⟨place, hresolve, hplace, rfl⟩ := ScanConfig.walk?_eq_some_iff.mp hwalk
  unfold Project.read
  rw [hscan]
  apply List.map_congr_left
  intro file hfile
  obtain ⟨source, hsource, hpath, hown⟩ := ScanConfig.mem_files_scanOf hs hfile
  rw [hdelivered.mem_iff, Walk.found_eq_below h.files hplace (Nat.lt_succ_self _)] at hsource
  -- the file stands under the place of the root, and its own name is no generated one
  obtain ⟨hne, content, hget⟩ := Walk.mem_below hsource
  have hplain : IsPlain source.path :=
    (isPlain_append_iff.mp (h.files.isPlain_of_get? (Option.ne_none_iff_exists'.mpr ⟨_, hget⟩))).2
  have hread : surroundings.files.read? (surroundings.locate root ++ file.path) = some content := by
    rw [← hpath, read?, h.files.entry?_append hresolve hplace hplain, hget]
  have hname : ∀ name ∈ (surroundings.locate root ++ file.path).getLast?,
      ScanConfig.isGenerated name = false := by
    intro name hn
    obtain ⟨last, hlast⟩ := List.getLast?_isSome.mpr hne |> Option.isSome_iff_exists.mp
    have hsame : source.name = last := by
      rw [FoundFile.name, List.getLastD_eq_getLast?, hlast, Option.getD_some]
    rw [← hpath, List.getLast?_append, hlast, Option.some_or, Option.mem_some_iff] at hn
    rw [← hn, ← hsame]
    exact hown
  have hafter := hu.read?_eq_some h.files ha hname hread
  simp only [Surroundings.locate, Surroundings.place] at hread hafter ⊢
  rw [readText?, readText?, hread, hafter]

theorem ofScan_eq_ok {root : String} {config : Config} {tables : List String} {walk : Walk}
    {delivered : List FoundFile} {scan : SourceScan} {project : Project}
    (hs : config.scan.skipGenerated = true)
    (hp : ∀ path ∈ config.typeTablePaths root ++ tables, endsWith generatedExtension path = false)
    (hwalk : config.scan.walk? surroundings.files (surroundings.locate root) = some walk)
    (hdelivered : delivered.Perm walk.found)
    (hscan : scan.files = (config.scan.scanOf delivered).files)
    (hr : (Project.ofScan surroundings root config tables (config.scan.scanOf delivered)).result =
      .ok project) :
    (Project.ofScan { surroundings with files := after } root config tables scan).result =
      .ok project := by
  dsimp only [Project.ofScan] at hr ⊢
  rw [read_eq h ha hu hs hwalk hdelivered hscan, hscan]
  cases ht : Project.addTables surroundings
    (Program.ofAnalyses ((Project.read surroundings root (config.scan.scanOf delivered)).filterMap
      (·.2))) (config.typeTablePaths root ++ tables) with
  | error fault =>
    rw [ht] at hr
    exact absurd hr (by simp [bind, Except.bind])
  | ok program =>
    rw [ht] at hr
    rw [addTables_eq_ok h ha hu hp ht]
    exact hr

end

def Project.passOf (surroundings : Surroundings) (root : String) (config : Config)
    (tables : List String) (delivered : List FoundFile) :
    Except ProjectFault (Project × Generation) :=
  (withHooks config (ofScan surroundings root config tables (config.scan.scanOf delivered))).result

theorem Project.generate_eq_passOf (surroundings : Surroundings) (root : String) {config : Config}
    {walk : Walk} (h : config.scan.walk? surroundings.files (surroundings.locate root) = some walk)
    (tables : List String) :
    (Project.generate surroundings root config tables).result =
      Project.passOf surroundings root config tables walk.found := by
  rw [Project.generate, Project.analyze, ScanConfig.scan?, h]
  rfl

theorem Project.passOf_eq_ok_iff {surroundings : Surroundings} {root : String} {config : Config}
    {tables : List String} {delivered : List FoundFile} {project : Project}
    {generation : Generation} :
    passOf surroundings root config tables delivered = .ok (project, generation) ↔
      (ofScan surroundings root config tables (config.scan.scanOf delivered)).result =
        .ok project ∧
      generation = project.program.generate config.generator := by
  unfold passOf withHooks
  split
  next fault hfault => simp [hfault]
  next analyzed hanalyzed =>
    simp only [Except.ok.injEq, Prod.mk.injEq, hanalyzed]
    constructor
    · rintro ⟨rfl, rfl⟩
      exact ⟨rfl, rfl⟩
    · rintro ⟨rfl, rfl⟩
      exact ⟨rfl, rfl⟩

theorem exists_ok_of_any {ε α : Type} {x : Except ε α} {p : α → Bool}
    (h : x.toOption.any p = true) : ∃ a, x = .ok a ∧ p a = true := by
  obtain ⟨a, ha, hp⟩ := (Option.any_eq_true _ _).mp h
  exact ⟨a, toOption_eq_some_iff.mp ha, hp⟩

/-- A pass over the project would generate this, in whatever order its walk delivers the files, and
find all of it written. -/
structure IsSettled (surroundings : Surroundings) (root : String) (config : Config)
    (tables : List String) (directory : String) (pruning : Bool) (project : Project)
    (generation : Generation) : Prop where
  generated : (Project.generate surroundings root config tables).result =
    .ok (project, generation)
  any_order : ∃ walk, config.scan.walk? surroundings.files (surroundings.locate root) = some walk ∧
    ∀ delivered, delivered.Perm walk.found →
      Project.passOf surroundings root config tables delivered = .ok (project, generation)
  written : GeneratedUnit.writeAll surroundings directory generation.units pruning =
    { files := surroundings.files
      result := .ok { written := [], unchanged := generation.units.length, removed := [] } }

/-- A pass over a project that wrote its units to a directory, with the order in which its walk
delivered the files. -/
structure FirstPass (surroundings : Surroundings) (root : String) (config : Config)
    (tables : List String) (directory : String) (pruning : Bool) where
  walk : Walk
  delivered : List FoundFile
  project : Project
  generation : Generation
  summary : WriteSummary
  tree : surroundings.IsTree
  skips : config.scan.skipGenerated = true
  own_tables : ∀ path ∈ config.typeTablePaths root ++ tables,
    endsWith generatedExtension path = false
  walk_eq : config.scan.walk? surroundings.files (surroundings.locate root) = some walk
  delivered_perm : delivered.Perm walk.found
  generated : Project.passOf surroundings root config tables delivered = .ok (project, generation)
  names : ∀ unit ∈ generation.units, '/' ∉ unit.name.toList
  written : (GeneratedUnit.writeAll surroundings directory generation.units pruning).result =
    .ok summary

variable {surroundings : Surroundings} {root : String} {config : Config} {tables : List String}
  {directory : String} {pruning : Bool}

def FirstPass.after (pass : FirstPass surroundings root config tables directory pruning) :
    Surroundings :=
  { surroundings with
    files := (GeneratedUnit.writeAll surroundings directory pass.generation.units pruning).files }

theorem FirstPass.files_after
    (pass : FirstPass surroundings root config tables directory pruning) :
    pass.after.files =
      (GeneratedUnit.writeAll surroundings directory pass.generation.units pruning).files := rfl

def FirstPass.Separated (pass : FirstPass surroundings root config tables directory pruning) :
    Prop :=
  ((config.scan.selected pass.walk.found).map SourceFile.relativePath).Nodup

/-- **A pass settles the project**: the next one selects the same sources, generates the same units
and writes nothing. A directory that becomes a repository is the exception, because its
`.gitignore` counts from then on, and so are files that have one relative path, because the order of
the walk shows in them. -/
theorem second_pass_unchanged (pass : FirstPass surroundings root config tables directory pruning)
    (hseparated : pass.Separated)
    (hkeeps : KeepsRepositories surroundings.files pass.after.files) :
    IsSettled pass.after root config tables directory pruning pass.project pass.generation := by
  obtain ⟨hproject, hgeneration⟩ := Project.passOf_eq_ok_iff.mp pass.generated
  have hnodup : (pass.generation.units.map GeneratedUnit.fileName).Nodup := by
    rw [hgeneration]
    exact fileNames_units_nodup _ _ _
  obtain ⟨place, hupdated, hcurrent, hstale⟩ := GeneratedUnit.exists_upToDate pass.tree.files
    pass.tree.isPlain pass.names hnodup pass.written rfl
  obtain ⟨again, hagain, hown⟩ :=
    exists_walk? pass.tree hcurrent.tree hupdated hkeeps pass.walk_eq
  suffices hpass : ∀ delivered, delivered.Perm again.found →
      Project.passOf pass.after root config tables delivered =
        .ok (pass.project, pass.generation) from
    ⟨(Project.generate_eq_passOf pass.after root hagain tables).trans (hpass again.found (.refl _)),
      ⟨again, hagain, hpass⟩, hcurrent.writeAll pass.tree.isPlain pass.names hstale⟩
  intro delivered hdelivered
  -- both walks come to the files of the first, each with a relative path of its own
  have hscan (files : List FoundFile)
      (hfiles : (files.filter FoundFile.isOwn).Perm (pass.walk.found.filter FoundFile.isOwn)) :
      (config.scan.scanOf files).files = (config.scan.scanOf pass.walk.found).files :=
    ScanConfig.files_scanOf_eq pass.skips hseparated hfiles
  have hsame : (config.scan.scanOf delivered).files =
      (config.scan.scanOf pass.delivered).files := by
    rw [hscan delivered ((hdelivered.filter _).trans hown),
      hscan pass.delivered (pass.delivered_perm.filter _)]
  exact Project.passOf_eq_ok_iff.mpr ⟨ofScan_eq_ok pass.tree hcurrent.tree hupdated pass.skips
    pass.own_tables pass.walk_eq pass.delivered_perm hsame hproject, hgeneration⟩

def Surroundings.tableSample : Surroundings :=
  { files := ⟨
      [(["w"], .directory), (["w", ".git"], .directory),
       (["w", ".gitignore"], .file (.text "*.tmp\n")), (["w", "p"], .directory),
       (["w", "p", "A.cs"], .file (.text "class A { void M() { On.L.N += F; } }")),
       (["w", "p", "notes"], .file (.text "")),
       (["w", "t.json"], .file (.text (Json.compact (TypeTable.toJson
         (.ofList [{ name := "L", members := [.method { name := "N" }] }])))))]⟩
    directory := ["w"] }

def Config.tableSample : Config := { scan := { typeTables := ["../t.json"] } }

def Walk.tableSample : Walk := ⟨Surroundings.tableSample.files, ["w", "p"], false⟩

theorem second_pass_unchanged_table :
    ∃ pass : FirstPass .tableSample "p" .tableSample [] "p/out" true,
      pass.delivered ≠ pass.walk.found ∧ pass.summary.written = ["p/out/On.L.g.cs"] ∧
      IsSettled pass.after "p" .tableSample [] "p/out" true pass.project pass.generation := by
  have hpass : (Project.passOf .tableSample "p" .tableSample []
      Walk.tableSample.found.reverse).toOption.any
      (fun result => decide (∀ unit ∈ result.2.units, '/' ∉ unit.name.toList) &&
        decide (KeepsRepositories Surroundings.tableSample.files
          (GeneratedUnit.writeAll .tableSample "p/out" result.2.units true).files) &&
        (GeneratedUnit.writeAll .tableSample "p/out" result.2.units true).result.toOption.any
          fun summary => decide (summary.written = ["p/out/On.L.g.cs"])) = true := by
    decide +kernel
  obtain ⟨⟨project, generation⟩, hgenerated, hfacts⟩ := exists_ok_of_any hpass
  simp only [Bool.and_eq_true, decide_eq_true_eq] at hfacts
  obtain ⟨⟨hnames, hkeeps⟩, hwrites⟩ := hfacts
  obtain ⟨summary, hwrite, hsummary⟩ := exists_ok_of_any hwrites
  let pass : FirstPass .tableSample "p" .tableSample [] "p/out" true :=
    { walk := .tableSample, delivered := Walk.tableSample.found.reverse, project, generation, summary
      tree := ⟨by decide +kernel, by decide +kernel⟩
      skips := rfl
      own_tables := by decide +kernel
      walk_eq := ScanConfig.walk?_eq_some_iff.mpr
        ⟨["w", "p"], by decide +kernel, by decide +kernel, rfl⟩
      delivered_perm := List.reverse_perm _
      generated := hgenerated
      names := hnames
      written := hwrite }
  have hseparated : (((Config.tableSample.scan.selected Walk.tableSample.found).map
      SourceFile.relativePath)).Nodup := by
    decide +kernel
  have hdelivered : Walk.tableSample.found.reverse ≠ Walk.tableSample.found := by decide +kernel
  refine ⟨pass, ?_, of_decide_eq_true hsummary, second_pass_unchanged pass hseparated ?_⟩
  · dsimp only [pass]
    exact hdelivered
  · rw [pass.files_after]
    exact hkeeps

/-- A directory that is no repository yet, so that its `.gitignore` does not count. -/
def Surroundings.ignoringSample : Surroundings :=
  { files := ⟨
      [(["w"], .directory), (["w", ".gitignore"], .file (.text "A.cs\n")), (["w", "q"], .directory),
       (["w", "q", "A.cs"], .file (.text "class A { void M() { On.A.M += F; } }"))]⟩ }

theorem not_isSettled_of_passOf_ne {project : Project} {generation : Generation}
    {place : List FileName} {delivered : List FoundFile}
    (hresolve : surroundings.files.resolve? (surroundings.locate root) = some place)
    (hdelivered : delivered.Perm (Walk.found ⟨surroundings.files, place, config.scan.followLinks⟩))
    (hother : Project.passOf surroundings root config tables delivered ≠
      .ok (project, generation)) :
    ¬IsSettled surroundings root config tables directory pruning project generation := by
  intro h
  obtain ⟨again, hagain, hall⟩ := h.any_order
  obtain ⟨reached, hreached, -, rfl⟩ := ScanConfig.walk?_eq_some_iff.mp hagain
  obtain rfl : place = reached := Option.some.inj (hresolve.symm.trans hreached)
  exact hother (hall delivered hdelivered)

theorem exists_pass_ignoring :
    ∃ pass : FirstPass .ignoringSample "/w/q" {} [] "/w/q/../.git" true,
      pass.Separated ∧
      ¬IsSettled pass.after "/w/q" {} [] "/w/q/../.git" true pass.project pass.generation := by
  let place : List FileName := ["w", "q"]
  let walk : Walk := ⟨Surroundings.ignoringSample.files, place, false⟩
  have hpass : (Project.passOf .ignoringSample "/w/q" {} [] walk.found).toOption.any
      (fun result => decide (∀ unit ∈ result.2.units, '/' ∉ unit.name.toList) &&
        decide (result.1.files ≠ []) &&
        (let after : Surroundings := { Surroundings.ignoringSample with
          files := (GeneratedUnit.writeAll .ignoringSample "/w/q/../.git" result.2.units true).files }
        decide (after.files.resolve? (after.locate "/w/q") = some place) &&
          decide ((Project.passOf after "/w/q" {} [] (Walk.found ⟨after.files, place,
            false⟩)).toOption.map (·.1.files) = some [])) &&
        (GeneratedUnit.writeAll .ignoringSample "/w/q/../.git" result.2.units
          true).result.toOption.any fun _ => true) = true := by
    decide +kernel
  obtain ⟨⟨project, generation⟩, hgenerated, hfacts⟩ := exists_ok_of_any hpass
  simp only [Bool.and_eq_true, decide_eq_true_eq] at hfacts
  obtain ⟨⟨⟨hnames, hsources⟩, hresolve, hagain⟩, hwrites⟩ := hfacts
  obtain ⟨summary, hwrite, -⟩ := exists_ok_of_any hwrites
  refine ⟨{ walk, delivered := walk.found, project, generation, summary
            tree := ⟨by decide +kernel, by decide +kernel⟩
            skips := rfl
            own_tables := by decide +kernel
            walk_eq := ScanConfig.walk?_eq_some_iff.mpr
              ⟨place, by decide +kernel, by decide +kernel, rfl⟩
            delivered_perm := List.Perm.refl _
            generated := hgenerated
            names := hnames
            written := hwrite }, ?_, ?_⟩
  · have hseparated : (((({} : Config).scan.selected walk.found).map
        SourceFile.relativePath)).Nodup := by
      decide +kernel
    exact hseparated
  · dsimp only [FirstPass.after]
    refine not_isSettled_of_passOf_ne hresolve (List.Perm.refl _) ?_
    intro hsame
    rw [hsame] at hagain
    exact hsources (Option.some.inj hagain)

theorem exists_pass_tied :
    ∃ pass : FirstPass .tieSample "/w" {} [] "/out" true,
      KeepsRepositories Surroundings.tieSample.files pass.after.files ∧
      ¬IsSettled pass.after "/w" {} [] "/out" true pass.project pass.generation := by
  let place : List FileName := ["w"]
  have hpass : (Project.ofScan .tieSample "/w" {} [] ⟨tiedFiles, 0, 68⟩).result.toOption.any
      (fun project =>
        let units := (project.program.generate {}).units
        let after : Surroundings := { Surroundings.tieSample with
          files := (GeneratedUnit.writeAll .tieSample "/out" units true).files }
        decide (∀ unit ∈ units, '/' ∉ unit.name.toList) &&
        decide (KeepsRepositories Surroundings.tieSample.files after.files) &&
        (decide (after.files.resolve? (after.locate "/w") = some place) &&
          decide (Walk.found ⟨after.files, place, false⟩ = tiedFound) &&
          decide ((Project.ofScan after "/w" {} [] ⟨tiedFiles.reverse, 0, 68⟩).result.toOption.map
            (fun project => (project.program.generate {}).units) ≠ some units)) &&
        (GeneratedUnit.writeAll .tieSample "/out" units true).result.toOption.any fun _ => true) =
        true := by
    decide +kernel
  obtain ⟨project, hproject, hfacts⟩ := exists_ok_of_any hpass
  simp only [Bool.and_eq_true, decide_eq_true_eq] at hfacts
  obtain ⟨⟨⟨hnames, hkeeps⟩, ⟨hresolve, hfound⟩, hunits⟩, hwrites⟩ := hfacts
  obtain ⟨summary, hwrite, -⟩ := exists_ok_of_any hwrites
  rw [← scanOf_tiedFound] at hproject
  refine ⟨{ walk := ⟨Surroundings.tieSample.files, place, false⟩
            delivered := tiedFound
            project
            generation := project.program.generate {}
            summary
            tree := ⟨by decide +kernel, by decide +kernel⟩
            skips := rfl
            own_tables := by decide +kernel
            walk_eq := ScanConfig.walk?_eq_some_iff.mpr
              ⟨place, by decide +kernel, by decide +kernel, rfl⟩
            delivered_perm := by decide +kernel
            generated := Project.passOf_eq_ok_iff.mpr ⟨hproject, rfl⟩
            names := hnames
            written := hwrite }, hkeeps, ?_⟩
  dsimp only [FirstPass.after]
  refine not_isSettled_of_passOf_ne hresolve (List.reverse_perm _) ?_
  intro hsame
  obtain ⟨hagain, -⟩ := Project.passOf_eq_ok_iff.mp hsame
  have hscan : ({} : Config).scan.scanOf tiedFound.reverse = _ := scanOf_tiedFound_reverse
  rw [hfound, hscan] at hagain
  rw [hagain] at hunits
  exact hunits rfl

/-- Neither condition can be left out. -/
theorem pass_need_not_settle :
    (¬∀ (surroundings : Surroundings) (root : String) (config : Config) (tables : List String)
      (directory : String) (pruning : Bool)
      (pass : FirstPass surroundings root config tables directory pruning), pass.Separated →
      IsSettled pass.after root config tables directory pruning pass.project pass.generation) ∧
    ¬∀ (surroundings : Surroundings) (root : String) (config : Config) (tables : List String)
      (directory : String) (pruning : Bool)
      (pass : FirstPass surroundings root config tables directory pruning),
      KeepsRepositories surroundings.files pass.after.files →
      IsSettled pass.after root config tables directory pruning pass.project pass.generation := by
  constructor
  · intro h
    obtain ⟨pass, hseparated, hunsettled⟩ := exists_pass_ignoring
    exact hunsettled (h _ _ _ _ _ _ pass hseparated)
  · intro h
    obtain ⟨pass, hkeeps, hunsettled⟩ := exists_pass_tied
    exact hunsettled (h _ _ _ _ _ _ pass hkeeps)

end HookEvents
