import HookEvents.Proofs.Workspace.SecondPass
import HookEvents.Proofs.Workspace.Way

namespace HookEvents

open FileSystem Text

open FileName (ofText)

namespace GeneratedUnit

variable {surroundings : Surroundings} {directory : String} {units front back : List GeneratedUnit}
  {unit : GeneratedUnit} {pruning : Bool} {made after : FileSystem}

theorem writeAll_eq_error {fault : WriteFault}
    (h : (writeAll surroundings directory units pruning).result = .error fault) :
    (surroundings.files.makeDirectories (surroundings.locate directory) =
        ((writeAll surroundings directory units pruning).files, false) ∧
      fault = ⟨directory⟩) ∨
    ∃ made, surroundings.files.makeDirectories (surroundings.locate directory) = (made, true) ∧
      writeEach surroundings.locate directory made {} units =
        { files := (writeAll surroundings directory units pruning).files
          result := .error fault } := by
  unfold writeAll at h ⊢
  dsimp only at h ⊢
  split at h
  next made hmade =>
    rw [hmade]
    exact Or.inl ⟨rfl, (Except.error.inj h).symm⟩
  next made hmade =>
    rw [hmade]
    refine Or.inr ⟨made, rfl, ?_⟩
    cases heach : writeEach surroundings.locate directory made {} units with
    | mk written outcome =>
      rw [heach] at h
      cases outcome with
      | error other =>
        rw [Except.error.inj h]
      | ok summary => cases pruning <;> exact absurd h (by simp)

theorem writeAll_of_writeEach {summary : WriteSummary}
    (hm : surroundings.files.makeDirectories (surroundings.locate directory) = (made, true))
    (h : writeEach surroundings.locate directory made {} units =
      { files := after, result := .ok summary }) :
    writeAll surroundings directory units false = { files := after, result := .ok summary } := by
  unfold writeAll
  dsimp only
  rw [hm]
  dsimp only
  rw [h]
  rfl

structure Barred (before after : FileSystem) (steps : List FileName) : Prop where
  blocked : ∃ front content, front <+: steps ∧
    FileSystem.entry? after front = some (.file content)
  kept : ∀ location, after.get? location = before.get? location ∨
    MadeOnWay before after steps location
  unchanged : FileName.up ∉ steps → ∀ location, after.get? location = before.get? location

structure Halted (surroundings : Surroundings) (directory : String) (front : List GeneratedUnit)
    (unit : GeneratedUnit) (after : FileSystem) : Prop where
  blocked : after.isDirectory (surroundings.locate (Path.join directory unit.fileName)) = true ∨
    '/' ∈ unit.name.toList ∧
      after.resolve? (surroundings.locate (Path.join directory unit.fileName)) = none
  earlier : ∃ summary, writeAll surroundings directory front false =
    { files := after, result := .ok summary }
  holds : ∀ location text, textAt? after surroundings.locate directory front location = some text →
    after.get? location = some (.file (.text text))
  kept : ∀ location, textAt? after surroundings.locate directory front location = none →
    after.get? location = surroundings.files.get? location ∨
      MadeOnWay surroundings.files after (surroundings.namesTo directory) location
  unchanged : FileName.up ∉ surroundings.namesTo directory → '/' ∉ unit.name.toList →
    ∀ location, textAt? after surroundings.locate directory front location = none →
      after.get? location = surroundings.files.get? location

theorem barred_of_makeDirectories (ht : surroundings.IsTree)
    (hm : surroundings.files.makeDirectories (surroundings.locate directory) = (made, false)) :
    Barred surroundings.files made (surroundings.namesTo directory) := by
  have halong := Surroundings.madeAlong_of_makeDirectories ht.files hm
  have hroot : surroundings.files.isDirectory [] = true := isDirectory_iff.mpr ⟨[], rfl, rfl⟩
  obtain ⟨front, content, hfront, hentry⟩ := makeDirectoriesFrom_blocked ht.files hroot hm
  refine ⟨⟨front, content, hfront, hentry⟩, halong.same_or_made, fun hup => ?_⟩
  exact same_of_blocked ht.files halong (Surroundings.isPlain_namesTo hup) hfront hentry

theorem halted_of_writeEach (ht : surroundings.IsTree) {summary : WriteSummary}
    (hm : surroundings.files.makeDirectories (surroundings.locate directory) = (made, true))
    (he : writeEach surroundings.locate directory made {} front =
      { files := after, result := .ok summary })
    (ho : InOrder made after surroundings.locate directory front)
    (hu : unit.place? made surroundings.locate directory = none) :
    Halted surroundings directory front unit after := by
  have halong := Surroundings.madeAlong_of_makeDirectories ht.files hm
  have htext := textAt?_congr ho.sameDirectories halong.tree ho.tree surroundings.locate directory
    front
  have hkept : ∀ location, textAt? after surroundings.locate directory front location = none →
      after.get? location = made.get? location := by
    intro location hnone
    rw [ho.get?_eq, ← htext, hnone]
    rfl
  have hplace := (ho.sameDirectories.writePlace?_eq halong.tree ho.tree _).trans hu
  obtain ⟨place, hresolve, hd⟩ := Surroundings.exists_outputPlace ht.files hm
  have hname : '/' ∉ unit.name.toList →
      made.resolve? (surroundings.locate (Path.join directory unit.fileName)) =
        some (place ++ [ofText unit.fileName]) :=
    Surroundings.resolve?_fileName ht.isPlain halong.tree hresolve hd
  constructor
  · rcases writePlace?_eq_none.mp hplace with hdirectory | hnone
    · exact Or.inl hdirectory
    · refine Or.inr ⟨?_, hnone⟩
      by_contra hslash
      rw [ho.sameDirectories.resolve?_eq halong.tree ho.tree, hname hslash] at hnone
      exact absurd hnone (by simp)
  · exact ⟨summary, writeAll_of_writeEach hm he⟩
  · intro location text hsome
    rw [ho.get?_eq, ← htext, hsome]
    rfl
  · intro location hnone
    rw [hkept location hnone]
    rcases halong.same_or_made location with hsame | hmade
    · exact Or.inl hsame
    · exact Or.inr (hmade.of_sameDirectories ho.sameDirectories halong.tree ho.tree)
  · intro hup hslash location hnone
    have hplain := Surroundings.isPlain_namesTo hup
    rw [halong.tree.resolve?_eq] at hresolve
    obtain rfl : place = surroundings.namesTo directory := by
      simpa using eq_of_follow_plain hresolve hplain
    -- what stands at the place of the unit is older than the run, and so is its directory
    have hthere : made.get? (surroundings.namesTo directory ++ [ofText unit.fileName]) ≠ none := by
      have hblocked := writePlace?_eq_none.mp hu
      rw [isDirectory_iff, hname hslash] at hblocked
      rcases hblocked with ⟨other, hother, hdirectory⟩ | hmissing
      · rw [Option.some.inj hother, hdirectory]
        simp
      · exact absurd hmissing (by simp)
    rw [hkept location hnone]
    exact same_of_child ht.files halong hplain hthere location

end GeneratedUnit

/-- **A run that fails prunes nothing and writes nothing past the unit that failed.** Directories on
the way to the output directory can stay behind, where that way goes up or the unit is not in it. -/
theorem writeAll_failure_exact (surroundings : Surroundings) (directory : String)
    (units : List GeneratedUnit) (pruning : Bool) (fault : WriteFault) (htree : surroundings.IsTree)
    (hfail : (GeneratedUnit.writeAll surroundings directory units pruning).result = .error fault) :
    (fault.path = directory ∧ GeneratedUnit.Barred surroundings.files
      (GeneratedUnit.writeAll surroundings directory units pruning).files
      (surroundings.namesTo directory)) ∨
    ∃ front unit back, units = front ++ unit :: back ∧
      fault.path = Path.join directory unit.fileName ∧
      GeneratedUnit.Halted surroundings directory front unit
        (GeneratedUnit.writeAll surroundings directory units pruning).files := by
  rcases GeneratedUnit.writeAll_eq_error hfail with ⟨hmade, rfl⟩ | ⟨made, hmade, heach⟩
  · exact Or.inl ⟨rfl, GeneratedUnit.barred_of_makeDirectories htree hmade⟩
  right
  have hmadeTree := (Surroundings.madeAlong_of_makeDirectories htree.files hmade).tree
  rcases GeneratedUnit.writeEach_run hmadeTree {} units with ⟨after, result, hrun, -, -⟩ |
    ⟨front, unit, back, after, result, hunits, hfront, horder, hnone, hrun⟩
  · rw [hrun] at heach
    exact absurd (congrArg Written.result heach) (by simp)
  · have hsame := hrun.symm.trans heach
    obtain ⟨hfiles, hresult⟩ := Written.mk.inj hsame
    refine ⟨front, unit, back, hunits,
      (congrArg WriteFault.path (Except.error.inj hresult)).symm, ?_⟩
    rw [← hfiles]
    exact GeneratedUnit.halted_of_writeEach htree hmade hfront horder hnone

def Surroundings.haltingSample : Surroundings :=
  { files := ⟨
      [(["w"], .directory), (["w", "out"], .directory), (["w", "out", "On.B.g.cs"], .directory),
       (["w", "out", "On.Old.g.cs"], .file (.text "old"))]⟩
    directory := ["w"] }

def haltingUnits : List GeneratedUnit :=
  [⟨"On.A", "first"⟩, ⟨"On.A", "a"⟩, ⟨"On.B", "b"⟩, ⟨"On.C", "c"⟩]

theorem writeAll_failure_exact_halting :
    (GeneratedUnit.writeAll .haltingSample "out" haltingUnits true).result =
      .error ⟨"out/On.B.g.cs"⟩ ∧
    ∃ front unit back, haltingUnits = front ++ unit :: back ∧
      "out/On.B.g.cs" = Path.join "out" unit.fileName ∧
      GeneratedUnit.Halted .haltingSample "out" front unit
        (GeneratedUnit.writeAll .haltingSample "out" haltingUnits true).files := by
  have hfail : (GeneratedUnit.writeAll .haltingSample "out" haltingUnits true).result =
      .error ⟨"out/On.B.g.cs"⟩ := by
    decide +kernel
  refine ⟨hfail, ?_⟩
  rcases writeAll_failure_exact .haltingSample "out" haltingUnits true _
    ⟨by decide +kernel, by decide +kernel⟩ hfail with ⟨hpath, -⟩ | hhalted
  · exact absurd hpath (by decide)
  · exact hhalted

def Surroundings.barringSample : Surroundings :=
  { files := ⟨[(["w"], .directory), (["w", "file"], .file (.text "x"))]⟩
    directory := ["w"] }

/-- Where the way to the output directory goes up, a run that fails leaves what it made before. -/
theorem barred_run_leaves_directory :
    ¬∀ (surroundings : Surroundings) (directory : String) (units : List GeneratedUnit)
      (pruning : Bool), surroundings.IsTree →
      (GeneratedUnit.writeAll surroundings directory units pruning).result = .error ⟨directory⟩ →
      ∀ location,
        (GeneratedUnit.writeAll surroundings directory units pruning).files.get? location =
          surroundings.files.get? location := by
  intro hunchanged
  have hfail : (GeneratedUnit.writeAll .barringSample "new/../file/x" [] true).result =
      .error ⟨"new/../file/x"⟩ := by
    decide +kernel
  have hnew := hunchanged .barringSample "new/../file/x" [] true
    ⟨by decide +kernel, by decide +kernel⟩ hfail ["w", "new"]
  exact absurd hnew (by decide +kernel)

end HookEvents
