import HookEvents.Proofs.Text.Utf8
import HookEvents.Proofs.Workspace.Extension
import HookEvents.Proofs.Workspace.SecondPass
import HookEvents.Proofs.Workspace.WalkOrder

namespace HookEvents

open Text

def FoundFile.source (file : FoundFile) : SourceFile :=
  { path := file.path, relativePath := ScanConfig.relativePath file.path, size := file.size }

namespace ScanConfig

def HasGeneratedName (name : FileName) : Prop :=
  ∃ stem, name = FileName.ofText (stem ++ ".g.cs")

theorem isGenerated_iff {name : FileName} : isGenerated name = true ↔ HasGeneratedName name := by
  constructor
  · intro h
    rw [isGenerated] at h
    split at h
    next text htext =>
      obtain ⟨stem, rfl⟩ := endsWith_iff.mp h
      exact ⟨stem, FileName.text?_eq_some_iff.mp htext⟩
    · exact absurd h (by simp)
  · rintro ⟨stem, rfl⟩
    rw [isGenerated_ofText]
    exact endsWith_iff.mpr ⟨stem, rfl⟩

instance (name : FileName) : Decidable (HasGeneratedName name) := decidable_of_iff _ isGenerated_iff

instance (config : ScanConfig) (name : FileName) : Decidable (config.HasWantedExtension name) :=
  decidable_of_iff _ wantsExtension_iff

structure Accepts (config : ScanConfig) (file : FoundFile) : Prop where
  extension : config.HasWantedExtension file.name
  written : config.skipGenerated = true → ¬HasGeneratedName file.name
  filled : 1 ≤ file.size
  small : file.size ≤ config.maxFileSize

structure Rejects (config : ScanConfig) (file : FoundFile) : Prop where
  extension : config.HasWantedExtension file.name
  reason : config.skipGenerated = true ∧ HasGeneratedName file.name ∨ file.size = 0 ∨
    config.maxFileSize < file.size

instance (config : ScanConfig) (file : FoundFile) : Decidable (config.Accepts file) :=
  decidable_of_iff (config.HasWantedExtension file.name ∧
      (config.skipGenerated = true → ¬HasGeneratedName file.name) ∧ 1 ≤ file.size ∧
      file.size ≤ config.maxFileSize)
    ⟨fun h => ⟨h.1, h.2.1, h.2.2.1, h.2.2.2⟩, fun h => ⟨h.extension, h.written, h.filled, h.small⟩⟩

instance (config : ScanConfig) (file : FoundFile) : Decidable (config.Rejects file) :=
  decidable_of_iff (config.HasWantedExtension file.name ∧
      (config.skipGenerated = true ∧ HasGeneratedName file.name ∨ file.size = 0 ∨
        config.maxFileSize < file.size))
    ⟨fun h => ⟨h.1, h.2⟩, fun h => ⟨h.extension, h.reason⟩⟩

variable {config : ScanConfig} {file : FoundFile}

theorem Accepts.not_rejects (h : config.Accepts file) : ¬config.Rejects file := by
  rintro ⟨-, ⟨hskip, hname⟩ | hempty | hlarge⟩
  · exact h.written hskip hname
  · exact absurd h.filled (by omega)
  · exact absurd h.small (by omega)

theorem accepts_or_rejects (h : config.HasWantedExtension file.name) :
    config.Accepts file ∨ config.Rejects file := by
  by_cases hr : config.Rejects file
  · exact .inr hr
  · have hreason := fun reason => hr ⟨h, reason⟩
    refine .inl ⟨h, ?_, ?_, ?_⟩
    · intro hskip hname
      exact hreason (.inl ⟨hskip, hname⟩)
    · exact Nat.pos_of_ne_zero fun hempty => hreason (.inr (.inl hempty))
    · exact Nat.le_of_not_lt fun hlarge => hreason (.inr (.inr hlarge))

theorem Accepts.select_eq (h : config.Accepts file) :
    config.select file = .selected file.source := by
  have hgenerated : ¬(config.skipGenerated && isGenerated file.name) = true := by
    rw [Bool.and_eq_true, isGenerated_iff]
    rintro ⟨hskip, hname⟩
    exact h.written hskip hname
  have hsize : ¬(decide (file.size = 0) || decide (config.maxFileSize < file.size)) = true := by
    have hfilled := h.filled
    have hsmall := h.small
    simp only [Bool.or_eq_true, decide_eq_true_eq]
    omega
  rw [select, wantsExtension_iff.mpr h.extension, if_neg (by simp), if_neg hgenerated,
    if_neg hsize]
  rfl

theorem Rejects.select_eq (h : config.Rejects file) : config.select file = .skipped := by
  rw [select, wantsExtension_iff.mpr h.extension, if_neg (by simp)]
  split
  · rfl
  next hgenerated =>
    rw [Bool.and_eq_true, isGenerated_iff] at hgenerated
    apply if_pos
    simp only [Bool.or_eq_true, decide_eq_true_eq]
    exact h.reason.resolve_left hgenerated

theorem select_eq_unwanted (h : ¬config.HasWantedExtension file.name) :
    config.select file = .unwanted := by
  rw [← wantsExtension_iff, Bool.not_eq_true] at h
  rw [select, h]
  rfl

theorem select_cases (config : ScanConfig) (file : FoundFile) :
    config.Accepts file ∧ ¬config.Rejects file ∧ config.select file = .selected file.source ∨
    ¬config.Accepts file ∧ config.Rejects file ∧ config.select file = .skipped ∨
    ¬config.Accepts file ∧ ¬config.Rejects file ∧ config.select file = .unwanted := by
  by_cases hw : config.HasWantedExtension file.name
  · rcases accepts_or_rejects hw with ha | hr
    · exact .inl ⟨ha, ha.not_rejects, ha.select_eq⟩
    · exact .inr (.inl ⟨fun ha => ha.not_rejects hr, hr, hr.select_eq⟩)
  · exact .inr (.inr ⟨fun ha => hw ha.extension, fun hr => hw hr.extension, select_eq_unwanted hw⟩)

theorem selected_eq (config : ScanConfig) (found : List FoundFile) :
    config.selected found = (found.filter fun file => config.Accepts file).map
      FoundFile.source := by
  induction found with
  | nil => rfl
  | cons file found ih =>
    rw [selected] at ih
    rw [selected, List.map_cons, List.filterMap_cons, ih, List.filter_cons]
    obtain ⟨ha, -, hselect⟩ | ⟨ha, -, hselect⟩ | ⟨ha, -, hselect⟩ := select_cases config file <;>
      simp [ha, hselect, Selection.file?]

theorem count_skipped (config : ScanConfig) (found : List FoundFile) :
    (found.map config.select).count .skipped =
      (found.filter fun file => config.Rejects file).length := by
  induction found with
  | nil => rfl
  | cons file found ih =>
    rw [List.map_cons, List.count_cons, ih, List.filter_cons]
    obtain ⟨-, hr, hselect⟩ | ⟨-, hr, hselect⟩ | ⟨-, hr, hselect⟩ := select_cases config file <;>
      simp [hr, hselect]

end ScanConfig

structure SourceScan.Exact (config : ScanConfig) (found : List FoundFile) (scan : SourceScan) :
    Prop where
  files : scan.files.Perm ((found.filter fun file => config.Accepts file).map FoundFile.source)
  sorted : scan.files.Pairwise fun file next =>
    ¬utf8Bytes next.relativePath < utf8Bytes file.relativePath
  bytes : scan.bytes = scan.files.foldl (fun bytes file => bytes + file.size) 0
  skipped : scan.skipped = (found.filter fun file => config.Rejects file).length

theorem ScanConfig.exact_scanOf (config : ScanConfig) (found : List FoundFile) :
    (config.scanOf found).Exact config found where
  files := by
    rw [files_eq_keySorted, ← selected_eq]
    exact List.mergeSort_perm _ _
  sorted := by
    rw [files_eq_keySorted]
    apply (pairwise_keySorted _).imp
    intro file next hle
    exact utf8Bytes_not_lt hle
  bytes := by
    rw [files_eq_keySorted, scanOf_eq]
    apply (List.mergeSort_perm (config.selected found) _).symm.foldl_eq'
    intro file _ other _ bytes
    omega
  skipped := by
    rw [scanOf_eq]
    exact count_skipped config found

theorem SourceScan.Exact.of_perm {config : ScanConfig} {found delivered : List FoundFile}
    {scan : SourceScan} (h : scan.Exact config delivered) (hp : delivered.Perm found) :
    scan.Exact config found where
  files := h.files.trans ((hp.filter _).map _)
  sorted := h.sorted
  bytes := h.bytes
  skipped := h.skipped.trans (hp.filter _).length_eq

end HookEvents
