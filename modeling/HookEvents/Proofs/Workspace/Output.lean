import HookEvents.Proofs.Workspace.Path
import HookEvents.Proofs.Workspace.Update
import HookEvents.Workspace.Output

namespace HookEvents

open FileSystem

open FileName (ofText)

namespace FileSystem

variable {files made after : FileSystem}

theorem isDirectory_iff {location : List FileName} : files.isDirectory location = true ↔
    ∃ place, files.resolve? location = some place ∧ files.get? place = some .directory := by
  rw [FileSystem.isDirectory, decide_eq_true_eq, entry?, Option.bind_eq_some_iff]

theorem Extended.isDirectory (h : Extended files made) (hf : files.IsTree) (hm : made.IsTree)
    {location : List FileName} (hd : files.isDirectory location = true) :
    made.isDirectory location = true :=
  (h.updated (Rewritten.refl made)).isDirectory hf hm hd

theorem IsTree.makeDirectory? (h : files.IsTree) {location : List FileName}
    (hm : files.makeDirectory? location = some made) :
    Extended files made ∧ made.IsTree ∧ made.isDirectory location = true := by
  obtain ⟨place, hplace, hm⟩ := Option.bind_eq_some_iff.mp hm
  rw [h.resolveOwn?_eq] at hplace
  split at hm
  · exact absurd hm (by simp)
  next hnone =>
    obtain rfl := Option.some.inj hm
    have hne : place ≠ [] := fun hn => absurd (hn ▸ hnone) (by simp [get?])
    have hplain : IsPlain place := isPlain_of_follow hplace (by simp [IsPlain])
    have hparent := h.closed.parent_of_follow hplace get?_nil
    have htree : (files.put place .directory).IsTree :=
      h.put hplain hne hparent rfl (fun _ => rfl)
    have hextended : Extended files (files.put place .directory) := by
      intro other
      rw [get?_put hne]
      by_cases ho : other = place
      · right
        rw [ho, if_pos rfl]
        exact ⟨hnone, rfl⟩
      · left
        rw [if_neg ho]
    refine ⟨hextended, htree, isDirectory_iff.mpr ⟨place, ?_, ?_⟩⟩
    · rw [htree.resolve?_eq]
      apply follow_mono _ hplace
      intro other
      exact (hextended.updated (Rewritten.refl _)).directory
    · rw [get?_put hne, if_pos rfl]

theorem makeDirectoriesFrom_cons (h : files.IsTree) {reached rest : List FileName} {step : FileName}
    (hm : files.makeDirectoriesFrom reached (step :: rest) = (made, true)) :
    ∃ mid, Extended files mid ∧ mid.IsTree ∧ mid.isDirectory (reached ++ [step]) = true ∧
      mid.makeDirectoriesFrom (reached ++ [step]) rest = (made, true) := by
  rw [makeDirectoriesFrom] at hm
  split at hm
  next hd => exact ⟨files, Extended.refl files, h, hd, hm⟩
  · split at hm
    next mid hmid =>
      obtain ⟨hextended, htree, hd⟩ := h.makeDirectory? hmid
      exact ⟨mid, hextended, htree, hd, hm⟩
    · exact absurd hm (by simp)

theorem makeDirectoriesFrom_spec (h : files.IsTree) {reached steps : List FileName}
    (hm : files.makeDirectoriesFrom reached steps = (made, true)) :
    Extended files made ∧ made.IsTree ∧
      (files.isDirectory reached = true → made.isDirectory (reached ++ steps) = true) := by
  induction steps generalizing files reached with
  | nil =>
    obtain ⟨rfl, -⟩ := Prod.mk.inj hm
    exact ⟨Extended.refl files, h, by simp⟩
  | cons step rest ih =>
    obtain ⟨mid, hextended, htree, hd, hrest⟩ := makeDirectoriesFrom_cons h hm
    obtain ⟨hextended', htree', hd'⟩ := ih htree hrest
    refine ⟨hextended.trans hextended', htree', fun _ => ?_⟩
    have hend := hd' hd
    rwa [List.append_assoc] at hend

theorem makeDirectoriesFrom_again (h : files.IsTree) {reached steps : List FileName}
    (hm : files.makeDirectoriesFrom reached steps = (made, true))
    (ha : ∀ location, made.isDirectory location = true → after.isDirectory location = true) :
    after.makeDirectoriesFrom reached steps = (after, true) := by
  induction steps generalizing files reached with
  | nil => rfl
  | cons step rest ih =>
    obtain ⟨mid, _, htree, hd, hrest⟩ := makeDirectoriesFrom_cons h hm
    obtain ⟨hextended, htree', _⟩ := makeDirectoriesFrom_spec htree hrest
    have hthere := ha _ (hextended.isDirectory htree htree' hd)
    rw [makeDirectoriesFrom, if_pos hthere]
    exact ih htree hrest

theorem follow_filter {reached steps place : List FileName}
    (h : files.follow reached (steps.filter (· ≠ FileName.here)) = some place)
    (hd : files.get? place = some .directory) : files.follow reached steps = some place := by
  induction steps generalizing reached with
  | nil => exact h
  | cons step rest ih =>
    rw [follow]
    by_cases hdot : step = .here
    · rw [if_pos hdot]
      rw [List.filter_cons_of_neg (by simp [hdot])] at h
      exact ih h
    rw [List.filter_cons_of_pos (by simp [hdot]), follow, if_neg hdot] at h
    rw [if_neg hdot]
    by_cases hup : step = .up
    · rw [if_pos hup] at h ⊢
      exact ih h
    rw [if_neg hup] at h ⊢
    by_cases hstep : files.get? (reached ++ [step]) = some .directory
    · rw [if_pos hstep] at h ⊢
      exact ih h
    · rw [if_neg hstep] at h
      split at h
      · obtain rfl := Option.some.inj h
        exact absurd hd hstep
      · exact absurd h (by simp)

theorem IsTree.resolve?_concat (h : files.IsTree) {location place : List FileName} {name : FileName}
    (hr : files.resolve? location = some place) (hd : files.get? place = some .directory)
    (hn : IsPlain [name]) : files.resolve? (location ++ [name]) = some (place ++ [name]) := by
  rw [h.resolve?_eq] at hr ⊢
  rw [follow_append hr hd, follow_name hn]

theorem IsTree.readText?_concat (h : files.IsTree) {location place : List FileName}
    {name : FileName} {text : String} (hr : files.resolve? location = some place)
    (hd : files.get? place = some .directory) (hn : IsPlain [name]) :
    files.readText? (location ++ [name]) = some text ↔
      files.get? (place ++ [name]) = some (.file (.text text)) := by
  rw [readText?, read?, h.entry?_append hr hd hn]
  cases files.get? (place ++ [name]) with
  | none => simp
  | some entry =>
    cases entry with
    | directory => simp
    | link target => simp
    | file content => cases content <;> simp [FileContent.text?]

end FileSystem

theorem GeneratedUnit.isGenerated_fileName (unit : GeneratedUnit) :
    ScanConfig.isGenerated unit.fileName = true := by
  rw [ScanConfig.isGenerated_ofText]
  exact Text.endsWith_iff.mpr ⟨unit.name, rfl⟩

theorem GeneratedUnit.fileName_ne (unit : GeneratedUnit) {name : String}
    (h : ScanConfig.isGenerated name = false) : unit.fileName ≠ name := by
  rintro rfl
  rw [unit.isGenerated_fileName] at h
  exact absurd h (by simp)

theorem GeneratedUnit.isPlain_fileName (unit : GeneratedUnit) : IsPlain [ofText unit.fileName] :=
  isPlain_singleton.mpr ⟨by simpa [FileName.here] using unit.fileName_ne (by decide +kernel),
    by simpa [FileName.up] using unit.fileName_ne (by decide +kernel)⟩

structure HoldsUnits (files written : FileSystem) (place : List FileName)
    (units : List GeneratedUnit) : Prop where
  tree : written.IsTree
  frame : ∀ location, (∀ unit ∈ units, location ≠ place ++ [ofText unit.fileName]) →
    written.get? location = files.get? location
  holds : ∀ unit ∈ units,
    written.get? (place ++ [ofText unit.fileName]) = some (.file (.text unit.text))
  undirected : ∀ unit ∈ units, files.get? (place ++ [ofText unit.fileName]) ≠ some .directory

namespace HoldsUnits

variable {files mid written : FileSystem} {place : List FileName} {unit : GeneratedUnit}
  {units : List GeneratedUnit}

theorem nil (h : files.IsTree) : HoldsUnits files files place [] where
  tree := h
  frame _ _ := rfl
  holds _ hu := absurd hu List.not_mem_nil
  undirected _ hu := absurd hu List.not_mem_nil

theorem cons (h : HoldsUnits files mid place [unit]) (h' : HoldsUnits mid written place units)
    (hn : unit.fileName ∉ units.map GeneratedUnit.fileName) :
    HoldsUnits files written place (unit :: units) := by
  have hother : ∀ other ∈ units,
      place ++ [ofText unit.fileName] ≠ place ++ [ofText other.fileName] := by
    intro other ho heq
    have hname : unit.fileName = other.fileName := by simpa using heq
    exact hn (List.mem_map.mpr ⟨other, ho, hname.symm⟩)
  have hkept : ∀ other ∈ units, mid.get? (place ++ [ofText other.fileName]) =
      files.get? (place ++ [ofText other.fileName]) := by
    intro other ho
    apply h.frame
    intro first hf
    obtain rfl := List.mem_singleton.mp hf
    exact (hother other ho).symm
  constructor
  · exact h'.tree
  · intro location hl
    rw [h'.frame location fun other ho => hl other (by simp [ho]),
      h.frame location fun first hf => hl first (by simp_all)]
  · intro other ho
    rcases List.mem_cons.mp ho with rfl | ho
    · rw [h'.frame _ hother, h.holds other (by simp)]
    · exact h'.holds other ho
  · intro other ho
    rcases List.mem_cons.mp ho with rfl | ho
    · exact h.undirected other (by simp)
    · rw [← hkept other ho]
      exact h'.undirected other ho

theorem rewritten (h : HoldsUnits files written place units) : Rewritten files written := by
  intro location
  by_cases hl : ∀ unit ∈ units, location ≠ place ++ [ofText unit.fileName]
  · exact Or.inl (h.frame location hl)
  · simp only [Classical.not_forall, ne_eq, Classical.not_not] at hl
    obtain ⟨unit, hu, rfl⟩ := hl
    right
    refine ⟨isGeneratedPlace_concat.mpr unit.isGenerated_fileName, h.undirected unit hu, ?_⟩
    simp [h.holds unit hu]

end HoldsUnits

namespace GeneratedUnit

variable {files : FileSystem} {locate : String → List FileName} {directory : String}
  {location place : List FileName} {units : List GeneratedUnit}

theorem holdsUnits_put (h : files.IsTree) (hp : IsPlain place)
    (hd : files.get? place = some .directory) {unit : GeneratedUnit}
    (hf : files.get? (place ++ [ofText unit.fileName]) ≠ some .directory) :
    HoldsUnits files (files.put (place ++ [ofText unit.fileName]) (.file (.text unit.text))) place
      [unit] := by
  have hne : place ++ [ofText unit.fileName] ≠ [] := by simp
  constructor
  · apply h.put (isPlain_append_iff.mpr ⟨hp, unit.isPlain_fileName⟩) hne
    · rwa [List.dropLast_concat]
    · rfl
    · exact fun hold => absurd hold hf
  · intro other ho
    rw [get?_put hne, if_neg (ho unit (by simp))]
  · intro other ho
    rw [List.mem_singleton.mp ho, get?_put hne, if_pos rfl]
  · intro other ho
    rwa [List.mem_singleton.mp ho]

theorem writeEach_cases (h : files.IsTree) (hr : files.resolve? location = some place)
    (hd : files.get? place = some .directory) {unit : GeneratedUnit}
    (hl : locate (Path.join directory unit.fileName) = location ++ [ofText unit.fileName])
    (summary : WriteSummary) (units : List GeneratedUnit) :
    writeEach locate directory files summary (unit :: units) =
        { files, result := .error ⟨Path.join directory unit.fileName⟩ } ∨
      ∃ mid next, HoldsUnits files mid place [unit] ∧
        writeEach locate directory files summary (unit :: units) =
          writeEach locate directory mid next units := by
  have hname := unit.isPlain_fileName
  rw [writeEach, hl]
  by_cases ht : files.readText? (location ++ [ofText unit.fileName]) = some unit.text
  · -- the text is there already
    rw [if_pos ht]
    have hget := (h.readText?_concat hr hd hname).mp ht
    refine Or.inr ⟨files, _, ⟨h, fun _ _ => rfl, ?_, ?_⟩, rfl⟩
    · intro other ho
      rwa [List.mem_singleton.mp ho]
    · intro other ho
      simp [List.mem_singleton.mp ho, hget]
  · rw [if_neg ht]
    have hplace : IsPlain place := h.isPlain_of_get? (by simp [hd])
    have hresolve := h.resolve?_concat hr hd hname
    by_cases hfile : files.get? (place ++ [ofText unit.fileName]) = some .directory
    · have hnone : files.write? (location ++ [ofText unit.fileName]) unit.text = none := by
        simp [write?, hresolve, hfile]
      rw [hnone]
      exact Or.inl rfl
    · have hwrite : files.write? (location ++ [ofText unit.fileName]) unit.text =
          some (files.put (place ++ [ofText unit.fileName]) (.file (.text unit.text))) := by
        unfold write?
        rw [hresolve, Option.bind_eq_bind, Option.bind_some]
        split
        next hdirectory => exact absurd hdirectory hfile
        · rfl
      rw [hwrite]
      exact Or.inr ⟨_, _, holdsUnits_put h hplace hd hfile, rfl⟩

theorem writeEach_cons (h : files.IsTree) (hr : files.resolve? location = some place)
    (hd : files.get? place = some .directory) {unit : GeneratedUnit}
    (hl : locate (Path.join directory unit.fileName) = location ++ [ofText unit.fileName])
    {summary result : WriteSummary}
    (hw : (writeEach locate directory files summary (unit :: units)).result = .ok result) :
    ∃ mid next, HoldsUnits files mid place [unit] ∧
      writeEach locate directory files summary (unit :: units) =
        writeEach locate directory mid next units := by
  rcases writeEach_cases h hr hd hl summary units with hfails | hwritten
  · rw [hfails] at hw
    exact absurd hw (by simp)
  · exact hwritten

theorem holdsUnits_writeEach (h : files.IsTree) (hr : files.resolve? location = some place)
    (hd : files.get? place = some .directory)
    (hl : ∀ unit ∈ units,
      locate (Path.join directory unit.fileName) = location ++ [ofText unit.fileName])
    (hn : (units.map fileName).Nodup) {summary result : WriteSummary}
    (hw : (writeEach locate directory files summary units).result = .ok result) :
    HoldsUnits files (writeEach locate directory files summary units).files place units := by
  induction units generalizing files summary with
  | nil => exact HoldsUnits.nil h
  | cons unit units ih =>
    obtain ⟨mid, next, hunit, heq⟩ := writeEach_cons h hr hd (hl unit (by simp)) hw
    rw [heq] at hw ⊢
    rw [List.map_cons, List.nodup_cons] at hn
    have hupdated := (Extended.refl files).updated hunit.rewritten
    have hrest := ih hunit.tree (hupdated.resolve? h hunit.tree hr) (hupdated.directory hd)
      (fun other ho => hl other (by simp [ho])) hn.2 hw
    exact hunit.cons hrest hn.1

theorem writeEach_unchanged (h : files.IsTree) (hr : files.resolve? location = some place)
    (hd : files.get? place = some .directory)
    (hl : ∀ unit ∈ units,
      locate (Path.join directory unit.fileName) = location ++ [ofText unit.fileName])
    (hu : ∀ unit ∈ units,
      files.get? (place ++ [ofText unit.fileName]) = some (.file (.text unit.text)))
    (summary : WriteSummary) :
    writeEach locate directory files summary units =
      { files
        result := .ok { summary with unchanged := summary.unchanged + units.length } } := by
  induction units generalizing summary with
  | nil => rfl
  | cons unit units ih =>
    have hread : files.readText? (locate (Path.join directory unit.fileName)) = some unit.text := by
      rw [hl unit (by simp)]
      exact (h.readText?_concat hr hd unit.isPlain_fileName).mpr (hu unit (by simp))
    rw [writeEach, if_pos hread, ih (fun other ho => hl other (by simp [ho]))
      (fun other ho => hu other (by simp [ho]))]
    simp only [List.length_cons]
    congr 3
    omega

theorem isFile_iff (h : files.IsTree) {name : FileName} (hn : name ∈ files.children place) :
    files.isFile (place ++ [name]) = true ↔
      ∃ content, files.get? (place ++ [name]) = some (.file content) := by
  rw [isFile, read?, h.entry?_plain (h.isPlain_of_get? (mem_children.mp hn))]
  cases files.get? (place ++ [name]) with
  | none => simp
  | some entry => cases entry <;> simp

theorem mem_stale (h : files.IsTree) {name : String} :
    name ∈ stale files place units ↔
      isUnitName name = true ∧ name ∉ units.map fileName ∧
        ∃ content, files.get? (place ++ [ofText name]) = some (.file content) := by
  rw [stale, List.mem_filterMap]
  constructor
  · rintro ⟨child, hchild, hstale⟩
    obtain ⟨text, htext, hstale⟩ := Option.bind_eq_some_iff.mp hstale
    split at hstale
    next hall =>
      obtain rfl := Option.some.inj hstale
      rw [FileName.text?_eq_some_iff] at htext
      subst htext
      simp only [Bool.and_eq_true, Bool.not_eq_true', List.contains_eq_mem,
        decide_eq_false_iff_not] at hall
      exact ⟨hall.1.1, hall.1.2, (isFile_iff h hchild).mp hall.2⟩
    · exact absurd hstale (by simp)
  · rintro ⟨hunit, hnot, hfile⟩
    have hchild : ofText name ∈ files.children place := by
      obtain ⟨content, hget⟩ := hfile
      exact mem_children.mpr (by simp [hget])
    refine ⟨ofText name, hchild, ?_⟩
    rw [FileName.text?_ofText, Option.bind_eq_bind, Option.bind_some, hunit,
      (isFile_iff h hchild).mpr hfile]
    simpa using hnot

theorem foldl_erase (h : files.IsTree) {names : List String}
    (hf : ∀ name ∈ names, files.get? (place ++ [ofText name]) ≠ some .directory) :
    let after := names.foldl (fun files name => files.erase (place ++ [ofText name])) files
    after.IsTree ∧ ∀ other, after.get? other =
        if ∃ name ∈ names, other = place ++ [ofText name] then none else files.get? other := by
  induction names generalizing files with
  | nil => exact ⟨h, by simp⟩
  | cons name names ih =>
    have hne : place ++ [ofText name] ≠ [] := by simp
    have hrest : ∀ other ∈ names,
        (files.erase (place ++ [ofText name])).get? (place ++ [ofText other]) ≠ some .directory := by
      intro other ho
      rw [get?_erase hne]
      split
      · simp
      · exact hf other (by simp [ho])
    obtain ⟨htree, hget⟩ := ih (h.erase (hf name (by simp))) hrest
    refine ⟨htree, fun other => ?_⟩
    rw [List.foldl_cons, hget, get?_erase hne]
    by_cases hfirst : other = place ++ [ofText name]
    · simp [hfirst]
    · simp [hfirst]

theorem get?_prune (h : files.IsTree) (other : List FileName) :
    (prune files place units).get? other =
      if ∃ name ∈ stale files place units, other = place ++ [ofText name] then none
      else files.get? other := by
  refine (foldl_erase h fun name hn => ?_).2 other
  obtain ⟨-, -, content, hget⟩ := (mem_stale h).mp hn
  simp [hget]

theorem isTree_prune (h : files.IsTree) : (prune files place units).IsTree := by
  refine (foldl_erase h fun name hn => ?_).1
  obtain ⟨-, -, content, hget⟩ := (mem_stale h).mp hn
  simp [hget]

theorem rewritten_prune (h : files.IsTree) : Rewritten files (prune files place units) := by
  intro other
  rw [get?_prune h]
  split
  next hstale =>
    obtain ⟨name, hn, rfl⟩ := hstale
    obtain ⟨hunit, -, content, hget⟩ := (mem_stale h).mp hn
    rw [isUnitName, Bool.and_eq_true, ← ScanConfig.isGenerated_ofText] at hunit
    right
    exact ⟨isGeneratedPlace_concat.mpr hunit.1, by simp [hget], by simp⟩
  · exact Or.inl rfl

theorem get?_prune_unit (h : files.IsTree) {unit : GeneratedUnit} (hu : unit ∈ units) :
    (prune files place units).get? (place ++ [ofText unit.fileName]) =
      files.get? (place ++ [ofText unit.fileName]) := by
  rw [get?_prune h, if_neg]
  rintro ⟨name, hn, heq⟩
  have hname : unit.fileName = name := by simpa using heq
  exact ((mem_stale h).mp hn).2.1 (List.mem_map.mpr ⟨unit, hu, hname⟩)

theorem stale_prune (h : files.IsTree) : stale (prune files place units) place units = [] := by
  rw [List.eq_nil_iff_forall_not_mem]
  intro name hn
  obtain ⟨hunit, hnot, content, hget⟩ := (mem_stale (isTree_prune h)).mp hn
  rw [get?_prune h] at hget
  split at hget
  · exact absurd hget (by simp)
  next hkept => exact hkept ⟨name, (mem_stale h).mpr ⟨hunit, hnot, content, hget⟩, rfl⟩

structure UpToDate (files : FileSystem) (location place : List FileName)
    (units : List GeneratedUnit) : Prop where
  tree : files.IsTree
  made : files.makeDirectories location = (files, true)
  resolved : files.resolve? (location.filter (· ≠ FileName.here)) = some place
  directory : files.get? place = some .directory
  holds : ∀ unit ∈ units,
    files.get? (place ++ [ofText unit.fileName]) = some (.file (.text unit.text))

theorem UpToDate.resolve? (h : UpToDate files location place units) :
    files.resolve? location = some place := by
  have hresolved := h.resolved
  rw [h.tree.resolve?_eq] at hresolved ⊢
  exact follow_filter hresolved h.directory

theorem locate_fileName {surroundings : Surroundings} (hc : IsPlain surroundings.place)
    (directory : String) {unit : GeneratedUnit} (hs : '/' ∉ unit.name.toList) :
    surroundings.locate (Path.join directory unit.fileName) =
      (surroundings.locate directory).filter (· ≠ FileName.here) ++ [ofText unit.fileName] := by
  have hdot : FileName.here ∉ surroundings.place := fun hd => (hc .here hd).1 rfl
  have hslash : '/' ∉ unit.fileName.toList := by
    simp [fileName, generatedExtension, hs]
  exact Path.locate_join hdot directory
    ⟨unit.fileName_ne (by decide +kernel), unit.fileName_ne (by decide +kernel)⟩ hslash

theorem UpToDate.writeAll {surroundings : Surroundings} {directory : String} {pruning : Bool}
    (h : UpToDate surroundings.files (surroundings.locate directory) place units)
    (hc : IsPlain surroundings.place) (hs : ∀ unit ∈ units, '/' ∉ unit.name.toList)
    (hp : pruning = true → stale surroundings.files place units = []) :
    writeAll surroundings directory units pruning =
      { files := surroundings.files, result := .ok { unchanged := units.length } } := by
  have heach := writeEach_unchanged h.tree h.resolved h.directory
    (fun unit hu => locate_fileName hc directory (hs unit hu)) h.holds {}
  unfold GeneratedUnit.writeAll
  dsimp only
  rw [h.made]
  dsimp only
  rw [heach]
  dsimp only
  rw [h.resolve?, Option.getD_some]
  cases pruning with
  | false => simp
  | true => simp [hp rfl, prune]

theorem writeAll_eq_ok {surroundings : Surroundings} {directory : String} {pruning : Bool}
    {summary : WriteSummary}
    (hw : (GeneratedUnit.writeAll surroundings directory units pruning).result = .ok summary) :
    ∃ made written result,
      surroundings.files.makeDirectories (surroundings.locate directory) = (made, true) ∧
      writeEach surroundings.locate directory made {} units =
        { files := written, result := .ok result } ∧
      (GeneratedUnit.writeAll surroundings directory units pruning).files =
        if pruning then
          prune written ((written.resolve? (surroundings.locate directory)).getD
            (surroundings.locate directory)) units
        else written := by
  unfold GeneratedUnit.writeAll at hw ⊢
  dsimp only at hw ⊢
  split at hw
  · exact absurd hw (by simp)
  next made hmade =>
    cases heach : writeEach surroundings.locate directory made {} units with
    | mk written outcome =>
      rw [heach] at hw
      cases outcome with
      | error fault => exact absurd hw (by simp)
      | ok result =>
        refine ⟨made, written, result, hmade, heach, ?_⟩
        cases pruning <;> rfl

theorem exists_upToDate {surroundings : Surroundings} {directory : String} {pruning : Bool}
    (h : surroundings.files.IsTree) (hc : IsPlain surroundings.place)
    (hs : ∀ unit ∈ units, '/' ∉ unit.name.toList) (hn : (units.map fileName).Nodup)
    {summary : WriteSummary} {after : FileSystem}
    (hw : (GeneratedUnit.writeAll surroundings directory units pruning).result = .ok summary)
    (ha : (GeneratedUnit.writeAll surroundings directory units pruning).files = after) :
    ∃ place, Updated surroundings.files after ∧
      UpToDate after (surroundings.locate directory) place units ∧
      (pruning = true → stale after place units = []) := by
  obtain ⟨made, written, result, hmade, heach, hfiles⟩ := writeAll_eq_ok hw
  rw [ha] at hfiles
  obtain ⟨hextended, htree, hdirectory⟩ := makeDirectoriesFrom_spec h hmade
  obtain ⟨place, hresolve, hplace⟩ :=
    isDirectory_iff.mp (hdirectory (isDirectory_iff.mpr ⟨[], rfl, rfl⟩))
  rw [List.nil_append] at hresolve
  have hholds := holdsUnits_writeEach htree hresolve hplace
    (fun unit hu => locate_fileName hc directory (hs unit hu)) hn (by rw [heach])
  rw [heach] at hholds
  -- whatever happens to generated files after the directories are made, these stay
  have hcurrent : ∀ final : FileSystem, Rewritten made final → final.IsTree →
      (∀ unit ∈ units,
        final.get? (place ++ [ofText unit.fileName]) = some (.file (.text unit.text))) →
      UpToDate final (surroundings.locate directory) place units := by
    intro final hrewritten hfinal hunits
    have hupdated := (Extended.refl made).updated hrewritten
    exact ⟨hfinal, makeDirectoriesFrom_again h hmade fun _ => hupdated.isDirectory htree hfinal,
      hupdated.resolve? htree hfinal hresolve, hupdated.directory hplace, hunits⟩
  have hwritten := hcurrent written hholds.rewritten hholds.tree hholds.holds
  cases pruning with
  | false =>
    rw [if_neg (by simp)] at hfiles
    obtain rfl := hfiles
    exact ⟨place, hextended.updated hholds.rewritten, hwritten, by simp⟩
  | true =>
    rw [if_pos rfl, hwritten.resolve?, Option.getD_some] at hfiles
    obtain rfl := hfiles
    have hpruned : Rewritten made (prune written place units) :=
      hholds.rewritten.trans (rewritten_prune hholds.tree)
    refine ⟨place, hextended.updated hpruned, ?_, fun _ => stale_prune hholds.tree⟩
    apply hcurrent _ hpruned (isTree_prune hholds.tree)
    intro unit hu
    rw [get?_prune_unit hholds.tree hu, hholds.holds unit hu]

end GeneratedUnit

end HookEvents
