import HookEvents.Proofs.Workspace.Output

/-!
Writing units one after the other: where each of them goes, that the last one at a place wins, and
that the first one without a place ends it.
-/
namespace HookEvents

open FileSystem

namespace FileSystem

variable {files after : FileSystem}

def SameDirectories (files after : FileSystem) : Prop :=
  ∀ location, after.get? location = some .directory ↔ files.get? location = some .directory

theorem SameDirectories.resolve?_eq (h : SameDirectories files after) (hf : files.IsTree)
    (ha : after.IsTree) (location : List FileName) :
    after.resolve? location = files.resolve? location := by
  rw [hf.resolve?_eq, ha.resolve?_eq]
  cases hfollow : files.follow [] location with
  | some place => exact follow_mono (fun other => (h other).mpr) hfollow
  | none =>
    cases hback : after.follow [] location with
    | none => rfl
    | some place =>
      have hagain := follow_mono (fun other => (h other).mp) hback
      exact absurd (hfollow.symm.trans hagain) (by simp)

def writePlace? (files : FileSystem) (location : List FileName) : Option (List FileName) :=
  (files.resolve? location).filter fun place => files.get? place ≠ some .directory

theorem writePlace?_eq_some {location place : List FileName} :
    files.writePlace? location = some place ↔
      files.resolve? location = some place ∧ files.get? place ≠ some .directory := by
  rw [writePlace?, Option.filter_eq_some_iff, decide_eq_true_eq]

theorem writePlace?_eq_none {location : List FileName} :
    files.writePlace? location = none ↔
      files.isDirectory location = true ∨ files.resolve? location = none := by
  rw [writePlace?, isDirectory_iff]
  cases files.resolve? location with
  | none => simp
  | some place => simp [Option.filter]

theorem SameDirectories.writePlace?_eq (h : SameDirectories files after) (hf : files.IsTree)
    (ha : after.IsTree) (location : List FileName) :
    after.writePlace? location = files.writePlace? location := by
  rw [writePlace?, writePlace?, h.resolve?_eq hf ha]
  congr 1
  funext place
  simp only [ne_eq, h place]

theorem write?_eq (location : List FileName) (text : String) :
    files.write? location text =
      (files.writePlace? location).map fun place => files.put place (.file (.text text)) := by
  rw [write?, writePlace?]
  cases files.resolve? location with
  | none => rfl
  | some place =>
    by_cases hd : files.get? place = some .directory
    · simp [Option.filter, hd]
    · have hkept : (some place).filter (fun place => files.get? place ≠ some .directory) =
          some place := by
        simp [Option.filter, hd]
      rw [hkept, Option.bind_eq_bind, Option.bind_some]
      split
      next hdirectory => exact absurd hdirectory hd
      · rfl

structure TextPut (files after : FileSystem) (place : List FileName) (text : String) : Prop where
  tree : after.IsTree
  sameDirectories : SameDirectories files after
  get?_eq : ∀ location, after.get? location =
    if location = place then some (.file (.text text)) else files.get? location

theorem IsTree.textPut_put (h : files.IsTree) {location place : List FileName}
    (hp : files.writePlace? location = some place) (text : String) :
    TextPut files (files.put place (.file (.text text))) place text := by
  obtain ⟨hresolve, hfile⟩ := writePlace?_eq_some.mp hp
  rw [h.resolve?_eq] at hresolve
  have hne : place ≠ [] := fun hn => hfile (hn ▸ get?_nil)
  have hplain : IsPlain place := isPlain_of_follow hresolve (by simp [IsPlain])
  have hparent := h.closed.parent_of_follow hresolve get?_nil
  refine ⟨h.put hplain hne hparent rfl fun hd => absurd hd hfile, fun other => ?_, get?_put hne _⟩
  rw [get?_put hne]
  by_cases ho : other = place
  · simp [ho, hfile]
  · rw [if_neg ho]

theorem entry?_of_readText? {location : List FileName} {text : String}
    (h : files.readText? location = some text) :
    FileSystem.entry? files location = some (.file (.text text)) := by
  obtain ⟨content, hread, htext⟩ := Option.bind_eq_some_iff.mp h
  unfold read? at hread
  split at hread
  next other hentry =>
    obtain rfl := Option.some.inj hread
    cases other with
    | text s => rw [hentry, Option.some.inj htext]
    | binary bytes => exact absurd htext (by simp [FileContent.text?])
  · exact absurd hread (by simp)

theorem IsTree.textPut_of_readText? (h : files.IsTree) {location : List FileName} {text : String}
    (hr : files.readText? location = some text) :
    ∃ place, files.writePlace? location = some place ∧ TextPut files files place text := by
  obtain ⟨place, hresolve, hget⟩ := Option.bind_eq_some_iff.mp (entry?_of_readText? hr)
  refine ⟨place, writePlace?_eq_some.mpr ⟨hresolve, by simp [hget]⟩, h, fun _ => Iff.rfl, ?_⟩
  intro other
  by_cases ho : other = place
  · rw [if_pos ho, ho, hget]
  · rw [if_neg ho]

end FileSystem

namespace GeneratedUnit

variable {files after : FileSystem} {locate : String → List FileName} {directory : String}
  {unit : GeneratedUnit} {units : List GeneratedUnit}

def place? (files : FileSystem) (locate : String → List FileName) (directory : String)
    (unit : GeneratedUnit) : Option (List FileName) :=
  files.writePlace? (locate (Path.join directory unit.fileName))

/-- The text that units leave at a location when they are written in order. -/
def textAt? (files : FileSystem) (locate : String → List FileName) (directory : String)
    (units : List GeneratedUnit) (location : List FileName) : Option String :=
  (units.reverse.find? fun unit => unit.place? files locate directory = some location).map (·.text)

theorem textAt?_cons (unit : GeneratedUnit) (units : List GeneratedUnit) (location : List FileName) :
    textAt? files locate directory (unit :: units) location =
      (textAt? files locate directory units location).or
        (if unit.place? files locate directory = some location then some unit.text else none) := by
  rw [textAt?, textAt?, List.reverse_cons, List.find?_append, Option.map_or]
  by_cases hp : unit.place? files locate directory = some location <;> simp [hp]

theorem textAt?_congr (h : SameDirectories files after)
    (hf : files.IsTree) (ha : after.IsTree) (locate : String → List FileName) (directory : String)
    (units : List GeneratedUnit) (location : List FileName) :
    textAt? after locate directory units location =
      textAt? files locate directory units location := by
  have hplace : ∀ unit : GeneratedUnit,
      unit.place? after locate directory = unit.place? files locate directory :=
    fun unit => h.writePlace?_eq hf ha _
  simp only [textAt?, hplace]

structure InOrder (files after : FileSystem) (locate : String → List FileName) (directory : String)
    (units : List GeneratedUnit) : Prop where
  tree : after.IsTree
  sameDirectories : SameDirectories files after
  placed : ∀ unit ∈ units, unit.place? files locate directory ≠ none
  get?_eq : ∀ location, after.get? location =
    ((textAt? files locate directory units location).map fun text => .file (.text text)).or
      (files.get? location)

theorem InOrder.nil (h : files.IsTree) : InOrder files files locate directory [] where
  tree := h
  sameDirectories _ := Iff.rfl
  placed _ hu := absurd hu List.not_mem_nil
  get?_eq _ := rfl

theorem InOrder.cons {mid : FileSystem} {place : List FileName} (hf : files.IsTree)
    (hp : unit.place? files locate directory = some place) (h : TextPut files mid place unit.text)
    (h' : InOrder mid after locate directory units) :
    InOrder files after locate directory (unit :: units) := by
  have hplace : ∀ other : GeneratedUnit,
      other.place? mid locate directory = other.place? files locate directory :=
    fun other => h.sameDirectories.writePlace?_eq hf h.tree _
  refine ⟨h'.tree, fun location => ?_, ?_, fun location => ?_⟩
  · rw [h'.sameDirectories, h.sameDirectories]
  · intro other ho
    rcases List.mem_cons.mp ho with rfl | ho
    · simp [hp]
    · exact hplace other ▸ h'.placed other ho
  · rw [h'.get?_eq, textAt?_congr h.sameDirectories hf h.tree, textAt?_cons, hp, h.get?_eq]
    -- a later unit at the same place wins
    cases textAt? files locate directory units location with
    | some text => rfl
    | none =>
      by_cases hl : location = place
      · simp [hl]
      · simp [hl, Ne.symm hl]

structure Counted (summary next : WriteSummary) (count : Nat) : Prop where
  total : next.written.length + next.unchanged =
    summary.written.length + summary.unchanged + count
  removed : next.removed = summary.removed

theorem writeEach_step (h : files.IsTree) (unit : GeneratedUnit) (summary : WriteSummary) :
    (unit.place? files locate directory = none ∧
      ∀ units, writeEach locate directory files summary (unit :: units) =
        { files, result := .error ⟨Path.join directory unit.fileName⟩ }) ∨
    ∃ place mid next, unit.place? files locate directory = some place ∧
      TextPut files mid place unit.text ∧ Counted summary next 1 ∧
      ∀ units, writeEach locate directory files summary (unit :: units) =
        writeEach locate directory mid next units := by
  simp only [writeEach]
  by_cases ht : files.readText? (locate (Path.join directory unit.fileName)) = some unit.text
  · right
    obtain ⟨place, hplace, hput⟩ := h.textPut_of_readText? ht
    refine ⟨place, files, { summary with unchanged := summary.unchanged + 1 }, hplace, hput,
      ⟨(Nat.add_assoc ..).symm, rfl⟩, fun units => ?_⟩
    rw [if_pos ht]
  · rw [write?_eq]
    cases hplace : files.writePlace? (locate (Path.join directory unit.fileName)) with
    | none =>
      left
      refine ⟨hplace, fun units => ?_⟩
      rw [if_neg ht]
      rfl
    | some place =>
      right
      refine ⟨place, files.put place (.file (.text unit.text)),
        { summary with written := summary.written ++ [Path.join directory unit.fileName] }, hplace,
        h.textPut_put hplace unit.text, ⟨?_, rfl⟩, fun units => ?_⟩
      · simp only [List.length_append, List.length_singleton]
        omega
      · rw [if_neg ht]
        rfl

theorem Counted.trans {summary next final : WriteSummary} {first second : Nat}
    (h : Counted summary next first) (h' : Counted next final second) :
    Counted summary final (second + first) := by
  refine ⟨?_, h'.removed.trans h.removed⟩
  have := h.total
  have := h'.total
  omega

theorem writeEach_run (h : files.IsTree) (summary : WriteSummary) (units : List GeneratedUnit) :
    (∃ after result, writeEach locate directory files summary units =
        { files := after, result := .ok result } ∧
      InOrder files after locate directory units ∧ Counted summary result units.length) ∨
    ∃ front unit back after result, units = front ++ unit :: back ∧
      writeEach locate directory files summary front = { files := after, result := .ok result } ∧
      InOrder files after locate directory front ∧ unit.place? files locate directory = none ∧
      writeEach locate directory files summary units =
        { files := after, result := .error ⟨Path.join directory unit.fileName⟩ } := by
  induction units generalizing files summary with
  | nil => exact Or.inl ⟨files, summary, rfl, .nil h, rfl, rfl⟩
  | cons unit units ih =>
    rcases writeEach_step h unit summary with ⟨hnone, hfails⟩ |
      ⟨place, mid, next, hplace, hput, hcounted, hstep⟩
    · exact Or.inr ⟨[], unit, units, files, summary, rfl, rfl, .nil h, hnone, hfails units⟩
    rw [hstep]
    rcases ih hput.tree next with ⟨after, result, hrun, horder, hcount⟩ |
      ⟨front, failing, back, after, result, rfl, hfront, horder, hnone, hrun⟩
    · exact Or.inl ⟨after, result, hrun, horder.cons h hplace hput, hcounted.trans hcount⟩
    · right
      refine ⟨unit :: front, failing, back, after, result, rfl, (hstep front).trans hfront,
        horder.cons h hplace hput, ?_, hrun⟩
      rwa [place?, hput.sameDirectories.writePlace?_eq h hput.tree] at hnone

end GeneratedUnit
end HookEvents
