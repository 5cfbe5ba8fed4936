import HookEvents.Proofs.Sorting
import HookEvents.Proofs.Workspace.Path
import HookEvents.Workspace.Project

/-!
The order in which a walk delivers what it finds. A scan sorts the selected files by their relative
path, in which bytes that are no text are replaced and a backslash counts as a separator too, and
files that agree in it stay in the order of the walk.
-/
namespace HookEvents

open Text

section Slashes

def slashed (s : String) : String :=
  String.ofList (s.toList.map fun c => if c = '\\' then '/' else c)

theorem slashed_append (s t : String) : slashed (s ++ t) = slashed s ++ slashed t := by
  simp [slashed]

theorem slashed_join (sep : String) (parts : List String) :
    slashed (join sep parts) = join (slashed sep) (parts.map slashed) := by
  induction parts with
  | nil => rfl
  | cons part parts ih =>
    by_cases hp : parts = []
    · simp [hp]
    · rw [join_cons sep part hp, slashed_append, slashed_append, ih, List.map_cons,
        join_cons _ _ (by simpa using hp)]

theorem slashed_of_not_mem {s : String} (h : '\\' ∉ s.toList) : slashed s = s := by
  have hmap : (s.toList.map fun c => if c = '\\' then '/' else c) = s.toList.map id := by
    apply List.map_congr_left
    intro c hc
    apply if_neg
    rintro rfl
    exact h hc
  rw [slashed, hmap, List.map_id, String.ofList_toList]

theorem slashed_eq_join (s : String) : slashed s = join "/" (split '\\' s) := by
  have hpieces : (split '\\' s).map slashed = (split '\\' s).map id := by
    apply List.map_congr_left
    intro piece hp
    exact slashed_of_not_mem (not_mem_of_mem_split hp)
  calc slashed s
    _ = slashed (join "\\" (split '\\' s)) := by rw [join_split (by decide)]
    _ = join "/" ((split '\\' s).map slashed) := slashed_join _ _
    _ = join "/" (split '\\' s) := by rw [hpieces, List.map_id]

/-- The names of a path as text, where a backslash separates names too. -/
def slashNames (path : List FileName) : List String := path.flatMap fun name => split '\\' name.lossy

theorem slashNames_ne_nil {path : List FileName} (h : path ≠ []) : slashNames path ≠ [] := by
  cases path with
  | nil => exact absurd rfl h
  | cons name path => simp [slashNames, split_ne_nil]

theorem slashNames_of_text {path : List FileName}
    (h : ∀ name ∈ path, ∃ text, name = FileName.ofText text ∧ '\\' ∉ text.toList) :
    (slashNames path).map FileName.ofText = path := by
  induction path with
  | nil => rfl
  | cons name path ih =>
    obtain ⟨text, rfl, htext⟩ := h name (by simp)
    have hrest := ih fun other ho => h other (by simp [ho])
    rw [slashNames] at hrest
    rw [slashNames, List.flatMap_cons, FileName.lossy_ofText, split_of_not_mem htext, List.map_append,
      hrest]
    rfl

theorem lossy_bytes (path : List FileName) :
    lossy (Path.bytes path) = join "/" (path.map FileName.lossy) := by
  have hparts := lossy_intercalate (by decide : '/'.toNat < 128) (by decide : "/".toList = ['/'])
    (path.map FileName.bytes)
  rw [List.map_map] at hparts
  exact hparts

theorem slash_notMem_lossy {name : FileName} (h : Path.slash ∉ name.bytes) :
    '/' ∉ name.lossy.toList := by
  intro hc
  rw [FileName.lossy, lossy, String.toList_ofList] at hc
  exact h (mem_of_mem_lossyFrom (by decide) hc)

theorem relativePath_eq_join (path : List FileName) :
    ScanConfig.relativePath path = join "/" (slashNames path) := by
  change slashed (lossy (Path.bytes path)) = _
  rw [lossy_bytes, slashed_join, List.map_map]
  induction path with
  | nil => rfl
  | cons name path ih =>
    by_cases hp : path = []
    · simp [hp, slashNames, slashed_eq_join]
    · have hne : path.map (slashed ∘ FileName.lossy) ≠ [] := by simpa using hp
      rw [List.map_cons, join_cons _ _ hne, ih, Function.comp_apply, slashed_eq_join]
      exact (join_append _ (split_ne_nil _ _) (slashNames_ne_nil hp)).symm

theorem split_relativePath {path : List FileName} (hne : path ≠ [])
    (h : ∀ name ∈ path, Path.slash ∉ name.bytes) :
    split '/' (ScanConfig.relativePath path) = slashNames path := by
  rw [relativePath_eq_join, split_join (by decide) (slashNames_ne_nil hne)]
  calc (slashNames path).flatMap (split '/')
    _ = (slashNames path).flatMap fun name => [name] := by
      apply List.flatMap_congr
      intro piece hp
      obtain ⟨name, hn, hpiece⟩ := List.mem_flatMap.mp hp
      apply split_of_not_mem
      intro hc
      apply slash_notMem_lossy (h name hn)
      rw [← join_split (by decide : "\\".toList = ['\\']) name.lossy]
      exact mem_toList_join hpiece hc
    _ = slashNames path := List.flatMap_singleton' _

theorem relativePath_eq_iff {path other : List FileName} (hp : path ≠ []) (ho : other ≠ [])
    (hps : ∀ name ∈ path, Path.slash ∉ name.bytes)
    (hos : ∀ name ∈ other, Path.slash ∉ name.bytes) :
    ScanConfig.relativePath path = ScanConfig.relativePath other ↔
      slashNames path = slashNames other := by
  constructor
  · intro h
    rw [← split_relativePath hp hps, h, split_relativePath ho hos]
  · intro h
    rw [relativePath_eq_join, h, relativePath_eq_join]

example : ScanConfig.relativePath [⟨0xff :: utf8Bytes ".cs"⟩] =
    ScanConfig.relativePath [⟨0xfe :: utf8Bytes ".cs"⟩] := by decide +kernel

end Slashes

namespace ScanConfig

variable (config : ScanConfig)

def selected (found : List FoundFile) : List SourceFile :=
  (found.map config.select).filterMap Selection.file?

def Separates (found : List FoundFile) : Prop :=
  ∀ file ∈ config.selected found, ∀ other ∈ config.selected found,
    slashNames file.path = slashNames other.path → file.path = other.path

instance (found : List FoundFile) : Decidable (config.Separates found) :=
  inferInstanceAs (Decidable (∀ file ∈ config.selected found, ∀ other ∈ config.selected found,
    slashNames file.path = slashNames other.path → file.path = other.path))

variable {config}

theorem files_eq_keySorted (found : List FoundFile) : (config.scanOf found).files =
    (config.selected found).mergeSort (keyOrder SourceFile.relativePath) := by
  rw [scanOf_eq]
  rfl

theorem selected_perm {delivered found : List FoundFile} (h : delivered.Perm found) :
    (config.selected delivered).Perm (config.selected found) :=
  (h.map _).filterMap _

theorem selected_reverse (found : List FoundFile) :
    config.selected found.reverse = (config.selected found).reverse := by
  rw [selected, List.map_reverse, List.filterMap_reverse, selected]

theorem path_of_select {file : FoundFile} {source : SourceFile}
    (h : (config.select file).file? = some source) :
    source.path = file.path ∧ source.relativePath = relativePath file.path ∧ file.path ≠ [] := by
  unfold select at h
  split at h
  · exact absurd h (by simp [Selection.file?])
  next hwanted =>
    split at h
    · exact absurd h (by simp [Selection.file?])
    · split at h
      · exact absurd h (by simp [Selection.file?])
      · obtain rfl := Option.some.inj h
        refine ⟨rfl, rfl, ?_⟩
        intro hnil
        apply hwanted
        rw [FoundFile.name, hnil]
        rfl

theorem mem_selected {found : List FoundFile} {source : SourceFile}
    (h : source ∈ config.selected found) :
    ∃ file ∈ found, source.path = file.path ∧ source.relativePath = relativePath file.path ∧
      file.path ≠ [] := by
  obtain ⟨selection, hs, hsource⟩ := List.mem_filterMap.mp h
  obtain ⟨file, hf, rfl⟩ := List.mem_map.mp hs
  exact ⟨file, hf, path_of_select hsource⟩

theorem paths_selected_sublist (config : ScanConfig) (found : List FoundFile) :
    ((config.selected found).map SourceFile.path).Sublist (found.map FoundFile.path) := by
  induction found with
  | nil => exact List.Sublist.refl _
  | cons file found ih =>
    rw [selected, List.map_cons, List.filterMap_cons, List.map_cons]
    split
    · exact ih.cons _
    next source hsource =>
      rw [List.map_cons, (path_of_select hsource).1]
      exact ih.cons_cons _

theorem relativePath_eq_iff_selected {found : List FoundFile}
    (hnames : ∀ file ∈ found, ∀ name ∈ file.path, Path.slash ∉ name.bytes) {source other : SourceFile}
    (hs : source ∈ config.selected found) (ho : other ∈ config.selected found) :
    source.relativePath = other.relativePath ↔ slashNames source.path = slashNames other.path := by
  obtain ⟨file, hf, hpath, hrelative, hne⟩ := mem_selected hs
  obtain ⟨file', hf', hpath', hrelative', hne'⟩ := mem_selected ho
  rw [hrelative, hrelative', hpath, hpath']
  exact relativePath_eq_iff hne hne' (hnames file hf) (hnames file' hf')

theorem separates_of_text {found : List FoundFile}
    (h : ∀ file ∈ found, ∀ name ∈ file.path,
      ∃ text, name = FileName.ofText text ∧ '\\' ∉ text.toList) : config.Separates found := by
  intro source hs other ho heq
  obtain ⟨file, hf, hpath, -⟩ := mem_selected hs
  obtain ⟨file', hf', hpath', -⟩ := mem_selected ho
  rw [hpath, hpath'] at heq ⊢
  rw [← slashNames_of_text (h file hf), heq, slashNames_of_text (h file' hf')]

end ScanConfig

structure SourceScan.SameUpToTies (scan other : SourceScan) : Prop where
  skipped : other.skipped = scan.skipped
  bytes : other.bytes = scan.bytes
  files : other.files.Perm scan.files
  relativePaths : other.files.map (·.relativePath) = scan.files.map (·.relativePath)

namespace ScanConfig

variable {config : ScanConfig} {delivered found : List FoundFile}

theorem sameUpToTies_of_perm (h : delivered.Perm found) :
    (config.scanOf found).SameUpToTies (config.scanOf delivered) where
  skipped := by
    rw [scanOf_eq, scanOf_eq]
    exact (h.map config.select).count_eq _
  bytes := by
    rw [scanOf_eq, scanOf_eq]
    apply (selected_perm h).foldl_eq'
    intro file _ other _ bytes
    omega
  files := by
    rw [files_eq_keySorted, files_eq_keySorted]
    exact keySorted_perm (selected_perm h)
  relativePaths := by
    rw [files_eq_keySorted, files_eq_keySorted]
    exact keys_keySorted (selected_perm h)

theorem scanOf_eq_iff_files (h : delivered.Perm found) :
    config.scanOf delivered = config.scanOf found ↔
      (config.scanOf delivered).files = (config.scanOf found).files := by
  have hsame : (config.scanOf found).SameUpToTies (config.scanOf delivered) :=
    sameUpToTies_of_perm h
  rw [SourceScan.mk.injEq]
  exact ⟨fun heq => heq.1, fun heq => ⟨heq, hsame.skipped, hsame.bytes⟩⟩

theorem scanOf_eq_iff_ties (h : delivered.Perm found) :
    config.scanOf delivered = config.scanOf found ↔ ∀ name,
      (config.selected delivered).filter (·.relativePath = name) =
        (config.selected found).filter (·.relativePath = name) := by
  rw [scanOf_eq_iff_files h, files_eq_keySorted, files_eq_keySorted]
  exact keySorted_eq_iff

theorem scanOf_eq_of_separates (hdistinct : (found.map FoundFile.path).Nodup)
    (hnames : ∀ file ∈ found, ∀ name ∈ file.path, Path.slash ∉ name.bytes)
    (hseparates : config.Separates found) (h : delivered.Perm found) :
    config.scanOf delivered = config.scanOf found := by
  have hpaths := hdistinct.sublist (paths_selected_sublist config found)
  apply (scanOf_eq_iff_files h).mpr
  rw [files_eq_keySorted, files_eq_keySorted]
  apply keySorted_eq_of_perm (selected_perm h)
  intro source hs other ho heq
  apply List.inj_on_of_nodup_map hpaths hs ho
  apply hseparates source hs other ho
  exact (relativePath_eq_iff_selected hnames hs ho).mp heq

theorem separates_of_reverse (hdistinct : (found.map FoundFile.path).Nodup)
    (hnames : ∀ file ∈ found, ∀ name ∈ file.path, Path.slash ∉ name.bytes)
    (h : config.scanOf found.reverse = config.scanOf found) : config.Separates found := by
  have hpaths := hdistinct.sublist (paths_selected_sublist config found)
  have hfiles := congrArg SourceScan.files h
  rw [files_eq_keySorted, files_eq_keySorted, selected_reverse] at hfiles
  intro source hs other ho heq
  rw [key_inj_of_reverse (List.Nodup.of_map _ hpaths) hfiles hs ho]
  exact (relativePath_eq_iff_selected hnames hs ho).mpr heq

end ScanConfig

theorem Project.generate_eq_ok {surroundings : Surroundings} {root : String} {config : Config}
    {tables : List String} {project : Project}
    (h : (Project.analyze surroundings root config tables).result = .ok project) :
    (Project.generate surroundings root config tables).result =
      .ok (project, project.program.generate config.generator) := by
  unfold Project.generate Project.withHooks
  rw [h]

/-- **A scan depends on the order of the walk only where the texts of two selected paths differ in
slashes and backslashes alone.** Such files change places, and all else stays. -/
theorem scan_order_free_iff (config : Config) (found : List FoundFile)
    (hdistinct : (found.map FoundFile.path).Nodup)
    (hnames : ∀ file ∈ found, ∀ name ∈ file.path, Path.slash ∉ name.bytes) :
    (∀ delivered, delivered.Perm found →
      (config.scan.scanOf found).SameUpToTies (config.scan.scanOf delivered) ∧
      (config.scan.scanOf delivered = config.scan.scanOf found ↔ ∀ name,
        (config.scan.selected delivered).filter (·.relativePath = name) =
          (config.scan.selected found).filter (·.relativePath = name))) ∧
    ((∀ delivered, delivered.Perm found →
      config.scan.scanOf delivered = config.scan.scanOf found) ↔ config.scan.Separates found) ∧
    ((∀ file ∈ found, ∀ name ∈ file.path,
      ∃ text, name = FileName.ofText text ∧ '\\' ∉ text.toList) → config.scan.Separates found) ∧
    (config.scan.Separates found → ∀ surroundings root tables,
      config.scan.scan? surroundings.files (surroundings.locate root) =
        some (config.scan.scanOf found) →
      ∀ delivered, delivered.Perm found →
        let analyzed :=
          Project.ofScan surroundings root config tables (config.scan.scanOf delivered)
        analyzed = Project.analyze surroundings root config tables ∧
        ∀ project, analyzed.result = .ok project →
          (Project.generate surroundings root config tables).result =
            .ok (project, project.program.generate config.generator)) := by
  refine ⟨?_, ?_, ScanConfig.separates_of_text, ?_⟩
  · intro delivered h
    exact ⟨ScanConfig.sameUpToTies_of_perm h, ScanConfig.scanOf_eq_iff_ties h⟩
  · constructor
    · intro h
      exact ScanConfig.separates_of_reverse hdistinct hnames (h _ found.reverse_perm)
    · intro h delivered hp
      exact ScanConfig.scanOf_eq_of_separates hdistinct hnames h hp
  · intro h surroundings root tables hscan delivered hp analyzed
    have hsame : analyzed = Project.analyze surroundings root config tables := by
      simp only [analyzed]
      rw [ScanConfig.scanOf_eq_of_separates hdistinct hnames h hp, Project.analyze, hscan]
    refine ⟨hsame, ?_⟩
    intro project hproject
    apply Project.generate_eq_ok
    rw [← hsame, hproject]

theorem scan_order_free_iff_backslash :
    let found : List FoundFile :=
      [⟨["a", "Y.cs"], 4⟩, ⟨["X.g.cs"], 9⟩, ⟨["a\\X.cs"], 3⟩, ⟨["a"], 2⟩,
        ⟨[⟨0xff :: utf8Bytes ".cs"⟩], 5⟩]
    (found.map FoundFile.path).Nodup ∧
    (∀ file ∈ found, ∀ name ∈ file.path, Path.slash ∉ name.bytes) ∧
    ∀ delivered, delivered.Perm found →
      ScanConfig.scanOf {} delivered = ScanConfig.scanOf {} found := by
  intro found
  have hdistinct : (found.map FoundFile.path).Nodup := by decide +kernel
  have hnames : ∀ file ∈ found, ∀ name ∈ file.path, Path.slash ∉ name.bytes := by decide +kernel
  obtain ⟨-, hiff, -⟩ := scan_order_free_iff {} found hdistinct hnames
  exact ⟨hdistinct, hnames, hiff.mpr (by decide +kernel)⟩

def Surroundings.tieSample : Surroundings :=
  { files := ⟨
      [(["w"], .directory), (["w", "a"], .directory),
       (["w", "a", "b.cs"], .file (.text "class A { void M(int n) { On.A.M += F; } }")),
       (["w", "a\\b.cs"], .file (.text "class A { void M(Pet p); }"))]⟩ }

def tiedFiles : List SourceFile := [⟨["a", "b.cs"], "a/b.cs", 42⟩, ⟨["a\\b.cs"], "a/b.cs", 26⟩]

def tiedFound : List FoundFile := tiedFiles.map fun file => ⟨file.path, file.size⟩

theorem scanOf_tiedFound : ScanConfig.scanOf {} tiedFound = ⟨tiedFiles, 0, 68⟩ := by
  rw [ScanConfig.scanOf_eq, List.mergeSort_of_pairwise (by decide +kernel)]
  decide +kernel

theorem scanOf_tiedFound_reverse :
    ScanConfig.scanOf {} tiedFound.reverse = ⟨tiedFiles.reverse, 0, 68⟩ := by
  rw [ScanConfig.scanOf_eq, List.mergeSort_of_pairwise (by decide +kernel)]
  decide +kernel

/-- The order of the walk can decide which method a hook is generated for. -/
theorem walk_order_shows_in_units :
    ¬∀ (surroundings : Surroundings) (root : String) (config : Config)
      (found delivered : List FoundFile),
      (found.map FoundFile.path).Nodup →
      (∀ file ∈ found, ∀ name ∈ file.path, Path.slash ∉ name.bytes) → delivered.Perm found →
      ((Project.ofScan surroundings root config [] (config.scan.scanOf delivered)).result.toOption.map
        fun project => (project.program.generate config.generator).units) =
      ((Project.ofScan surroundings root config [] (config.scan.scanOf found)).result.toOption.map
        fun project => (project.program.generate config.generator).units) := by
  intro h
  have hunits := h .tieSample "/w" {} tiedFound tiedFound.reverse (by decide +kernel)
    (by decide +kernel) tiedFound.reverse_perm
  rw [show (({} : Config).scan.scanOf tiedFound) = _ from scanOf_tiedFound,
    show (({} : Config).scan.scanOf tiedFound.reverse) = _ from scanOf_tiedFound_reverse] at hunits
  exact absurd hunits (by decide +kernel)

end HookEvents
