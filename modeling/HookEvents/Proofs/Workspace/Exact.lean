import HookEvents.Proofs.Workspace.SecondPass
import HookEvents.Proofs.Workspace.Way
import Mathlib.Data.List.Find

namespace HookEvents

open FileSystem Text

open FileName (ofText)

def FileEntry.isFile : FileEntry → Bool
  | .file _ => true
  | _ => false

theorem FileEntry.isFile_iff {entry : FileEntry} :
    entry.isFile = true ↔ ∃ content, entry = .file content := by
  cases entry <;> simp [isFile]

namespace GeneratedUnit

variable {files made written after : FileSystem} {locate : String → List FileName}
  {directory : String} {name : FileName} {text : String} {place steps : List FileName}
  {unit : GeneratedUnit} {units : List GeneratedUnit} {pruning : Bool}

def lastText? (units : List GeneratedUnit) (name : FileName) : Option String :=
  (units.reverse.find? fun unit => ofText unit.fileName = name).map (·.text)

def looksGenerated (text : String) : Bool :=
  endsWith ".g.cs" text && (startsWith "On." text || startsWith "IL." text)

/-- What is wanted under a name of the output directory, in place of what stood there. -/
def wanted (units : List GeneratedUnit) (pruning : Bool) (name : FileName)
    (entry : Option FileEntry) : Option FileEntry :=
  match lastText? units name with
  | some text => some (.file (.text text))
  | none =>
    if pruning && name.text?.any looksGenerated && entry.any FileEntry.isFile then none else entry

theorem lastText?_eq_none_iff :
    lastText? units name = none ↔ name ∉ units.map (ofText ·.fileName) := by
  simp [lastText?]

theorem ofText_mem_iff : ofText text ∈ units.map (ofText ·.fileName) ↔
    text ∈ units.map fileName := by
  simp

structure IsStale (units : List GeneratedUnit) (pruning : Bool) (name : FileName)
    (entry : Option FileEntry) : Prop where
  pruning : pruning = true
  isUnitName : ∃ text, name = ofText text ∧ isUnitName text = true
  notMem : name ∉ units.map (ofText ·.fileName)
  isFile : ∃ content, entry = some (.file content)

theorem looksGenerated_iff : looksGenerated text = true ↔ isUnitName text = true := by
  rw [isUnitName_iff, looksGenerated, Bool.and_eq_true, Bool.or_eq_true]

theorem wanted_of_isStale {entry : Option FileEntry} (h : IsStale units pruning name entry) :
    wanted units pruning name entry = none := by
  have hnone := lastText?_eq_none_iff.mpr h.notMem
  obtain ⟨text, rfl, hunit⟩ := h.isUnitName
  obtain ⟨content, rfl⟩ := h.isFile
  rw [wanted, hnone, h.pruning, FileName.text?_ofText, Option.any_some,
    looksGenerated_iff.mpr hunit]
  rfl

theorem wanted_of_not_isStale {entry : Option FileEntry}
    (hn : name ∉ units.map (ofText ·.fileName))
    (h : ¬IsStale units pruning name entry) : wanted units pruning name entry = entry := by
  rw [wanted, lastText?_eq_none_iff.mpr hn]
  apply if_neg
  intro hc
  simp only [Bool.and_eq_true] at hc
  obtain ⟨⟨hpruning, hname⟩, hfile⟩ := hc
  obtain ⟨text, htext, hunit⟩ := (Option.any_eq_true _ _).mp hname
  obtain ⟨other, hother, hisFile⟩ := (Option.any_eq_true _ _).mp hfile
  obtain ⟨content, rfl⟩ := FileEntry.isFile_iff.mp hisFile
  exact h ⟨hpruning, ⟨text, FileName.text?_eq_some_iff.mp htext, looksGenerated_iff.mp hunit⟩, hn,
    content, hother⟩

section Names

variable (hp : ∀ unit ∈ units,
  unit.place? files locate directory = some (place ++ [ofText unit.fileName]))

include hp

theorem textAt?_name (name : FileName) :
    textAt? files locate directory units (place ++ [name]) = lastText? units name := by
  rw [textAt?, lastText?]
  congr 1
  apply List.find?_congr
  intro unit hu
  rw [hp unit (List.mem_reverse.mp hu)]
  simp

theorem textAt?_elsewhere {location : List FileName} (hl : ∀ name, location ≠ place ++ [name]) :
    textAt? files locate directory units location = none := by
  rw [textAt?, Option.map_eq_none_iff, List.find?_eq_none]
  intro unit hu
  rw [hp unit (List.mem_reverse.mp hu)]
  simpa using (hl (ofText unit.fileName)).symm

end Names

theorem sameDirectories_prune (h : written.IsTree) :
    SameDirectories written (prune written place units) := by
  intro location
  rw [get?_prune h]
  split
  next hstale =>
    obtain ⟨name, hn, rfl⟩ := hstale
    obtain ⟨-, -, content, hget⟩ := (mem_stale h).mp hn
    simp [hget]
  · rfl

def pruneIf (pruning : Bool) (written : FileSystem) (place : List FileName)
    (units : List GeneratedUnit) : FileSystem :=
  if pruning then prune written place units else written

open Classical in
theorem get?_pruneIf (h : written.IsTree) (name : FileName) :
    (pruneIf pruning written place units).get? (place ++ [name]) =
      if IsStale units pruning name (written.get? (place ++ [name])) then none
      else written.get? (place ++ [name]) := by
  cases pruning with
  | false =>
    have hnot : ¬IsStale units false name (written.get? (place ++ [name])) :=
      fun hs => absurd hs.pruning (by simp)
    rw [if_neg hnot]
    rfl
  | true =>
    have hiff : (∃ other ∈ stale written place units, place ++ [name] = place ++ [ofText other]) ↔
        IsStale units true name (written.get? (place ++ [name])) := by
      constructor
      · rintro ⟨other, ho, heq⟩
        obtain rfl : name = ofText other := by simpa using heq
        obtain ⟨hunit, hnot, hfile⟩ := (mem_stale h).mp ho
        exact ⟨rfl, ⟨other, rfl, hunit⟩, mt ofText_mem_iff.mp hnot, hfile⟩
      · intro hs
        have hnot := hs.notMem
        obtain ⟨text, rfl, hunit⟩ := hs.isUnitName
        exact ⟨text, (mem_stale h).mpr ⟨hunit, mt ofText_mem_iff.mpr hnot, hs.isFile⟩, rfl⟩
    refine (get?_prune h _).trans ?_
    by_cases hs : IsStale units true name (written.get? (place ++ [name]))
    · rw [if_pos hs, if_pos (hiff.mpr hs)]
    · rw [if_neg hs, if_neg (mt hiff.mp hs)]

section State

variable (hw : InOrder made written locate directory units)
  (hp : ∀ unit ∈ units, unit.place? made locate directory = some (place ++ [ofText unit.fileName]))

include hw hp

theorem get?_written_name (name : FileName) :
    written.get? (place ++ [name]) =
      ((lastText? units name).map fun text => .file (.text text)).or
        (made.get? (place ++ [name])) := by
  rw [hw.get?_eq, textAt?_name hp]

theorem get?_written_elsewhere {location : List FileName} (hl : ∀ name, location ≠ place ++ [name]) :
    written.get? location = made.get? location := by
  rw [hw.get?_eq, textAt?_elsewhere hp hl]
  rfl

theorem get?_pruneIf_name (name : FileName) :
    (pruneIf pruning written place units).get? (place ++ [name]) =
      wanted units pruning name (made.get? (place ++ [name])) := by
  have hwritten := get?_written_name hw hp name
  cases hlast : lastText? units name with
  | some text =>
    have hmem : ¬IsStale units pruning name (written.get? (place ++ [name])) := by
      intro hs
      rw [lastText?_eq_none_iff.mpr hs.notMem] at hlast
      exact absurd hlast (by simp)
    rw [get?_pruneIf hw.tree, if_neg hmem, hwritten, hlast, wanted, hlast]
    rfl
  | none =>
    have hmade : written.get? (place ++ [name]) = made.get? (place ++ [name]) := by
      rw [hwritten, hlast]
      rfl
    rw [get?_pruneIf hw.tree, hmade]
    split
    next hs => exact (wanted_of_isStale hs).symm
    next hs => exact (wanted_of_not_isStale (lastText?_eq_none_iff.mp hlast) hs).symm

theorem get?_pruneIf_elsewhere {location : List FileName} (hl : ∀ name, location ≠ place ++ [name]) :
    (pruneIf pruning written place units).get? location = made.get? location := by
  rw [← get?_written_elsewhere hw hp hl]
  cases pruning with
  | false => rfl
  | true =>
    refine (get?_prune hw.tree location).trans (if_neg ?_)
    rintro ⟨name, -, heq⟩
    exact hl _ heq

end State

structure Exact (before after : FileSystem) (steps place : List FileName)
    (units : List GeneratedUnit) (pruning : Bool) : Prop where
  directory : after.get? place = some .directory
  names : ∀ name, after.get? (place ++ [name]) =
      wanted units pruning name (before.get? (place ++ [name])) ∨
    FileName.up ∈ steps ∧ MadeOnWay before after steps (place ++ [name])
  elsewhere : ∀ location, (∀ name, location ≠ place ++ [name]) →
    after.get? location = before.get? location ∨ MadeOnWay before after steps location

structure Accounts (before after : FileSystem) (directory : String) (place : List FileName)
    (units : List GeneratedUnit) (summary : WriteSummary) : Prop where
  total : summary.written.length + summary.unchanged = units.length
  sorted : summary.removed.Pairwise (· < ·)
  removed : ∀ path, path ∈ summary.removed ↔ ∃ name content, path = Path.join directory name ∧
    before.get? (place ++ [ofText name]) = some (.file content) ∧
    after.get? (place ++ [ofText name]) = none

theorem sameDirectories_pruneIf (hw : InOrder made written locate directory units) :
    SameDirectories made (pruneIf pruning written place units) := by
  cases pruning with
  | false => exact hw.sameDirectories
  | true =>
    intro location
    rw [← hw.sameDirectories]
    exact sameDirectories_prune hw.tree location

theorem isTree_pruneIf (h : written.IsTree) : (pruneIf pruning written place units).IsTree := by
  cases pruning with
  | false => exact h
  | true => exact isTree_prune h

theorem isStale_of_wanted {entry : FileEntry} (h : wanted units pruning name (some entry) = none) :
    IsStale units pruning name (some entry) := by
  by_contra hs
  cases hlast : lastText? units name with
  | some text =>
    rw [wanted, hlast] at h
    exact absurd h (by simp)
  | none =>
    rw [wanted_of_not_isStale (lastText?_eq_none_iff.mp hlast) hs] at h
    exact absurd h (by simp)

structure Ran (surroundings : Surroundings) (directory : String) (units : List GeneratedUnit)
    (pruning : Bool) (made written : FileSystem) (place : List FileName) (summary : WriteSummary) :
    Prop where
  along : MadeAlong surroundings.files made [] (surroundings.namesTo directory)
  resolved : made.resolve? (surroundings.namesTo directory) = some place
  isDirectory : made.get? place = some .directory
  order : InOrder made written surroundings.locate directory units
  placed : ∀ unit ∈ units,
    unit.place? made surroundings.locate directory = some (place ++ [ofText unit.fileName])
  files : (writeAll surroundings directory units pruning).files =
    pruneIf pruning written place units
  total : summary.written.length + summary.unchanged = units.length
  removed : summary.removed = if pruning then
    ((stale written place units).map (Path.join directory)).mergeSort (keyOrder id) else []

variable {surroundings : Surroundings} {summary : WriteSummary}

theorem summary_of_writeEach {result : WriteSummary}
    (hm : surroundings.files.makeDirectories (surroundings.locate directory) = (made, true))
    (he : writeEach surroundings.locate directory made {} units =
      { files := written, result := .ok result })
    (hr : written.resolve? (surroundings.locate directory) = some place)
    (hw : (writeAll surroundings directory units pruning).result = .ok summary) :
    summary = if pruning then
        { result with
          removed := ((stale written place units).map (Path.join directory)).mergeSort
            (keyOrder id) }
      else result := by
  unfold writeAll at hw
  dsimp only at hw
  rw [hm] at hw
  dsimp only at hw
  rw [he] at hw
  dsimp only at hw
  rw [hr, Option.getD_some] at hw
  cases pruning <;> exact (Except.ok.inj hw).symm

theorem exists_ran (ht : surroundings.IsTree) (hs : ∀ unit ∈ units, '/' ∉ unit.name.toList)
    (hw : (writeAll surroundings directory units pruning).result = .ok summary) :
    ∃ made written place, Ran surroundings directory units pruning made written place summary := by
  obtain ⟨made, written, result, hmade, heach, hfiles⟩ := writeAll_eq_ok hw
  have halong := Surroundings.madeAlong_of_makeDirectories ht.files hmade
  obtain ⟨place, hresolve, hd⟩ := Surroundings.exists_outputPlace ht.files hmade
  -- the run did not stop early, because it gave a summary
  obtain ⟨horder, hcounted⟩ : InOrder made written surroundings.locate directory units ∧
      Counted {} result units.length := by
    rcases writeEach_run halong.tree {} units with ⟨other, found, hrun, horder, hcounted⟩ |
      ⟨front, unit, back, other, found, -, -, -, -, hrun⟩
    · obtain ⟨rfl, hfound⟩ := Written.mk.inj (heach.symm.trans hrun)
      exact ⟨horder, Except.ok.inj hfound ▸ hcounted⟩
    · exact absurd (congrArg Written.result (heach.symm.trans hrun)) (by simp)
  have hlocation : written.resolve? (surroundings.locate directory) = some place := by
    rw [horder.sameDirectories.resolve?_eq halong.tree horder.tree]
    rw [halong.tree.resolve?_eq] at hresolve ⊢
    exact follow_filter hresolve hd
  have hsummary := summary_of_writeEach hmade heach hlocation hw
  refine ⟨made, written, place, halong, hresolve, hd, horder, fun unit hu => ?_, ?_, ?_, ?_⟩
  · have hplaced := horder.placed unit hu
    have hname := Surroundings.resolve?_fileName ht.isPlain halong.tree hresolve hd (hs unit hu)
    rw [place?, writePlace?, hname] at hplaced ⊢
    obtain ⟨other, hother⟩ := Option.ne_none_iff_exists'.mp hplaced
    rw [hother, Option.some.inj (Option.filter_eq_some_iff.mp hother).1]
  · rw [hfiles, hlocation]
    rfl
  · have htotal := hcounted.total
    cases pruning <;> simpa [hsummary] using htotal
  · cases pruning with
    | false => simpa [hsummary] using hcounted.removed
    | true => simp [hsummary]

theorem stale_nodup (h : files.IsTree) : (stale files place units).Nodup := by
  rw [stale, List.Nodup, List.pairwise_filterMap]
  apply (h.children_nodup place).imp
  intro name other hne text htext same hsame heq
  obtain ⟨shown, hshown, htext⟩ := Option.bind_eq_some_iff.mp htext
  obtain ⟨shown', hshown', hsame⟩ := Option.bind_eq_some_iff.mp hsame
  have hname : shown = text := by
    split at htext
    · exact Option.some.inj htext
    · exact absurd htext (by simp)
  have hother : shown' = same := by
    split at hsame
    · exact Option.some.inj hsame
    · exact absurd hsame (by simp)
  rw [FileName.text?_eq_some_iff] at hshown hshown'
  exact hne (by rw [hshown, hshown', hname, hother, heq])

theorem isAbsolute_of_isUnitName (h : isUnitName text = true) : Path.isAbsolute text = false := by
  rcases (isUnitName_iff.mp h).2 with hroot | hroot
  · obtain ⟨rest, rfl⟩ := startsWith_iff.mp hroot
    exact Path.isAbsolute_append (by decide) rest
  · obtain ⟨rest, rfl⟩ := startsWith_iff.mp hroot
    exact Path.isAbsolute_append (by decide) rest

namespace Ran

variable (h : Ran surroundings directory units pruning made written place summary)

include h

theorem up_of_madeOnWay (hm : MadeOnWay surroundings.files made (surroundings.namesTo directory)
    (place ++ [name])) : FileName.up ∈ surroundings.namesTo directory := by
  by_contra hup
  have hplain := Surroundings.isPlain_namesTo hup
  have hresolved := h.resolved
  rw [h.along.tree.resolve?_eq] at hresolved
  have hplace : place = surroundings.namesTo directory := by
    simpa using eq_of_follow_plain hresolved hplain
  have hlength := (hm.isPrefix h.along.tree hplain).length_le
  rw [hplace, List.length_append, List.length_singleton] at hlength
  omega

theorem exact : Exact surroundings.files (pruneIf pruning written place units)
    (surroundings.namesTo directory) place units pruning := by
  have hsame : SameDirectories made (pruneIf pruning written place units) :=
    sameDirectories_pruneIf h.order
  have htree : (pruneIf pruning written place units).IsTree := isTree_pruneIf h.order.tree
  refine ⟨(hsame place).mpr h.isDirectory, fun name => ?_, fun location hl => ?_⟩
  · rw [get?_pruneIf_name h.order h.placed]
    rcases h.along.same_or_made (place ++ [name]) with heq | hmade
    · rw [heq]
      exact Or.inl rfl
    · exact Or.inr ⟨h.up_of_madeOnWay hmade, hmade.of_sameDirectories hsame h.along.tree htree⟩
  · rw [get?_pruneIf_elsewhere h.order h.placed hl]
    rcases h.along.same_or_made location with heq | hmade
    · exact Or.inl heq
    · exact Or.inr (hmade.of_sameDirectories hsame h.along.tree htree)

theorem get?_file {location : List FileName} {content : FileContent} :
    made.get? location = some (.file content) ↔
      surroundings.files.get? location = some (.file content) := by
  rcases h.along.extended location with hsame | ⟨hnone, hmade⟩
  · rw [hsame]
  · simp [hnone, hmade]

theorem get?_written (hn : name ∉ units.map (ofText ·.fileName)) :
    written.get? (place ++ [name]) = made.get? (place ++ [name]) := by
  rw [get?_written_name h.order h.placed, lastText?_eq_none_iff.mpr hn]
  rfl

theorem gone_iff :
    (∃ content, surroundings.files.get? (place ++ [ofText text]) = some (.file content)) ∧
      (pruneIf pruning written place units).get? (place ++ [ofText text]) = none ↔
    pruning = true ∧ text ∈ stale written place units := by
  rw [get?_pruneIf_name h.order h.placed, mem_stale h.order.tree]
  constructor
  · rintro ⟨⟨content, hfile⟩, hgone⟩
    have hmade := h.get?_file.mpr hfile
    rw [hmade] at hgone
    have hstale := isStale_of_wanted hgone
    obtain ⟨other, hother, hunit⟩ := hstale.isUnitName
    rw [← FileName.ofText_inj.mp hother] at hunit
    refine ⟨hstale.pruning, hunit, mt ofText_mem_iff.mpr hstale.notMem, content, ?_⟩
    rw [h.get?_written hstale.notMem, hmade]
  · rintro ⟨hpruning, hunit, hnot, content, hfile⟩
    -- a stale file is older than the run, which made only directories besides its units
    have hnames := mt ofText_mem_iff.mp hnot
    rw [h.get?_written hnames] at hfile
    exact ⟨⟨content, h.get?_file.mp hfile⟩,
      wanted_of_isStale ⟨hpruning, ⟨text, rfl, hunit⟩, hnames, content, hfile⟩⟩

theorem removed_sorted : summary.removed.Pairwise (· < ·) := by
  rw [h.removed]
  split
  · -- the names differ, and a path in front of them keeps them apart
    have hjoined : ((stale written place units).map (Path.join directory)).Nodup := by
      apply List.pairwise_map.mpr
      apply (stale_nodup h.order.tree).imp_of_mem
      intro name other hn ho hne heq
      apply hne
      apply Path.join_right_injective directory _ _ heq
      · exact isAbsolute_of_isUnitName ((mem_stale h.order.tree).mp hn).1
      · exact isAbsolute_of_isUnitName ((mem_stale h.order.tree).mp ho).1
    exact pairwise_lt_sorted hjoined
  · exact List.Pairwise.nil

theorem accounts : Accounts surroundings.files (pruneIf pruning written place units) directory place
    units summary := by
  refine ⟨h.total, h.removed_sorted, fun path => ?_⟩
  have hmem : path ∈ summary.removed ↔
      ∃ name, (pruning = true ∧ name ∈ stale written place units) ∧
        path = Path.join directory name := by
    rw [h.removed]
    cases pruning with
    | false => simp
    | true => simp [List.mem_mergeSort, eq_comm]
  rw [hmem]
  constructor
  · rintro ⟨name, hstale, hpath⟩
    obtain ⟨⟨content, hfile⟩, hgone⟩ := h.gone_iff.mpr hstale
    exact ⟨name, content, hpath, hfile, hgone⟩
  · rintro ⟨name, content, hpath, hfile, hgone⟩
    exact ⟨name, h.gone_iff.mp ⟨⟨content, hfile⟩, hgone⟩, hpath⟩

theorem resolve?_pruneIf :
    (pruneIf pruning written place units).resolve? (surroundings.locate directory) =
      some place := by
  have htree : (pruneIf pruning written place units).IsTree := isTree_pruneIf h.order.tree
  have hresolved := h.resolved
  rw [(sameDirectories_pruneIf h.order).resolve?_eq h.along.tree htree]
  rw [h.along.tree.resolve?_eq] at hresolved ⊢
  exact follow_filter hresolved h.isDirectory

end Ran

theorem fileNames_nodup (h : (units.map (·.name)).Nodup) : (units.map fileName).Nodup := by
  have hinjective : ∀ a b : String, a ≠ b → a ++ generatedExtension ≠ b ++ generatedExtension :=
    fun a b hab heq => hab (by simpa using heq)
  have hmap := (List.pairwise_map.mpr (h.imp (hinjective _ _)))
  rwa [List.map_map] at hmap

end GeneratedUnit

/-- **A run that succeeds brings the output directory to the state that is wanted**: it holds the
last text of each unit, without old generated files if pruning, and the rest as before. A directory
can be new there where the way to the output directory goes up. -/
theorem writeAll_exact (surroundings : Surroundings) (directory : String)
    (units : List GeneratedUnit) (pruning : Bool) (summary : WriteSummary)
    (htree : surroundings.IsTree) (hnames : ∀ unit ∈ units, '/' ∉ unit.name.toList)
    (hok : (GeneratedUnit.writeAll surroundings directory units pruning).result = .ok summary) :
    let after := (GeneratedUnit.writeAll surroundings directory units pruning).files
    ∃ place, after.resolve? (surroundings.locate directory) = some place ∧
      GeneratedUnit.Exact surroundings.files after (surroundings.namesTo directory) place units
        pruning ∧
      GeneratedUnit.Accounts surroundings.files after directory place units summary ∧
      ((units.map (·.name)).Nodup →
        GeneratedUnit.writeAll { surroundings with files := after } directory units pruning =
          { files := after
            result := .ok { written := [], unchanged := units.length, removed := [] } }) := by
  intro after
  obtain ⟨made, written, place, hran⟩ := GeneratedUnit.exists_ran htree hnames hok
  have hafter : after = GeneratedUnit.pruneIf pruning written place units := hran.files
  refine ⟨place, hafter ▸ hran.resolve?_pruneIf, hafter ▸ hran.exact, hafter ▸ hran.accounts,
    fun hnodup => ?_⟩
  obtain ⟨again, -, hcurrent, hstale⟩ := GeneratedUnit.exists_upToDate htree.files htree.isPlain
    hnames (GeneratedUnit.fileNames_nodup hnodup) hok rfl
  exact hcurrent.writeAll htree.isPlain hnames hstale

def Surroundings.pruningSample : Surroundings :=
  { files := ⟨
      [(["w"], .directory), (["w", "out"], .directory),
       (["w", "out", "IL.Old.g.cs"], .file (.text "old")),
       (["w", "out", "On.A.g.cs"], .file (.text "a")),
       (["w", "out", "On.Kept.g.cs"], .directory)]⟩
    directory := ["w"] }

def pruningUnits : List GeneratedUnit := [⟨"On.B", "b"⟩, ⟨"On.A", "a"⟩]

theorem writeAll_exact_pruning :
    let after := (GeneratedUnit.writeAll .pruningSample "out" pruningUnits true).files
    ∃ summary place,
      (GeneratedUnit.writeAll .pruningSample "out" pruningUnits true).result = .ok summary ∧
      summary.written = ["out/On.B.g.cs"] ∧ summary.unchanged = 1 ∧
      GeneratedUnit.Exact Surroundings.pruningSample.files after ["w", "out"] place pruningUnits
        true ∧
      GeneratedUnit.Accounts Surroundings.pruningSample.files after "out" place pruningUnits
        summary ∧
      GeneratedUnit.writeAll { Surroundings.pruningSample with files := after } "out" pruningUnits
        true =
        { files := after, result := .ok { written := [], unchanged := 2, removed := [] } } := by
  intro after
  have hrun : (GeneratedUnit.writeAll .pruningSample "out" pruningUnits true).result.toOption.any
      (fun summary => decide (summary.written = ["out/On.B.g.cs"]) &&
        decide (summary.unchanged = 1)) = true := by
    decide +kernel
  obtain ⟨summary, hok, hfacts⟩ := exists_ok_of_any hrun
  simp only [Bool.and_eq_true, decide_eq_true_eq] at hfacts
  obtain ⟨place, -, hexact, haccounts, hagain⟩ := writeAll_exact .pruningSample "out" pruningUnits
    true summary ⟨by decide +kernel, by decide +kernel⟩ (by decide +kernel) hok
  exact ⟨summary, place, hok, hfacts.1, hfacts.2, hexact, haccounts, hagain (by decide +kernel)⟩

def Surroundings.emptySample : Surroundings :=
  { files := ⟨[(["w"], .directory)]⟩, directory := ["w"] }

def FileName.untextSample : FileName := ⟨utf8Bytes "On." ++ 0xff :: utf8Bytes ".g.cs"⟩

def Surroundings.untextSample : Surroundings :=
  { files := ⟨[(["w"], .directory), (["w", .untextSample], .file (.text "old"))]⟩
    directory := ["w"] }

/-- Where the way to the output directory goes up, a directory can be new in it, and an old generated
file stays if its name is no text. -/
theorem exact_run_deviates :
    (¬∀ (surroundings : Surroundings) (directory : String) (units : List GeneratedUnit)
      (pruning : Bool) (summary : WriteSummary), surroundings.IsTree →
      (∀ unit ∈ units, '/' ∉ unit.name.toList) →
      (GeneratedUnit.writeAll surroundings directory units pruning).result = .ok summary →
      let after := (GeneratedUnit.writeAll surroundings directory units pruning).files
      ∀ place, after.resolve? (surroundings.locate directory) = some place →
        ∀ name, after.get? (place ++ [name]) =
          GeneratedUnit.wanted units pruning name (surroundings.files.get? (place ++ [name]))) ∧
    ¬∀ (surroundings : Surroundings) (directory : String) (units : List GeneratedUnit)
      (summary : WriteSummary), surroundings.IsTree →
      (∀ unit ∈ units, '/' ∉ unit.name.toList) →
      (GeneratedUnit.writeAll surroundings directory units true).result = .ok summary →
      let after := (GeneratedUnit.writeAll surroundings directory units true).files
      ∀ place, after.resolve? (surroundings.locate directory) = some place →
        ∀ name content, name ∉ units.map (ofText ·.fileName) →
          utf8Bytes "On." <+: name.bytes → utf8Bytes ".g.cs" <:+ name.bytes →
          surroundings.files.get? (place ++ [name]) = some (.file content) →
          after.get? (place ++ [name]) = none := by
  constructor
  · intro hwanted
    have hnew := hwanted .emptySample "new/.." [] false {} ⟨by decide +kernel, by decide +kernel⟩
      (by simp) (by decide +kernel) ["w"] (by decide +kernel) "new"
    exact absurd hnew (by decide +kernel)
  · intro hremoved
    have hgone := hremoved .untextSample "." [] {} ⟨by decide +kernel, by decide +kernel⟩
      (by simp) (by decide +kernel) ["w"] (by decide +kernel) .untextSample (.text "old") (by simp)
      (by decide +kernel) (by decide +kernel) (by decide +kernel)
    exact absurd hgone (by decide +kernel)

end HookEvents
