import HookEvents.Proofs.Workspace.Output
import Mathlib.Tactic.ByContra

/-!
What writing units may touch: the output directory with those around it that are missing, the files of
the units, and old generated files. This holds as well of a run that fails halfway.
-/
namespace HookEvents

open FileSystem Text

open FileName (ofText)

namespace FileSystem

variable {files made : FileSystem}

structure MadeAlong (files made : FileSystem) (reached steps : List FileName) : Prop where
  extended : Extended files made
  tree : made.IsTree
  along : ∀ location, files.get? location = none → made.get? location = some .directory →
    ∃ front, front <+: steps ∧ made.resolve? (reached ++ front) = some location

theorem MadeAlong.refl (h : files.IsTree) (reached steps : List FileName) :
    MadeAlong files files reached steps where
  extended := Extended.refl files
  tree := h
  along _ hnone hmade := absurd (hnone.symm.trans hmade) (by simp)

theorem IsTree.madeAlong_makeDirectory? (h : files.IsTree) {reached : List FileName} {step : FileName}
    (hm : files.makeDirectory? (reached ++ [step]) = some made) :
    MadeAlong files made reached [step] := by
  obtain ⟨hextended, htree, hdirectory⟩ := h.makeDirectory? hm
  refine ⟨hextended, htree, fun location hnone hmade => ⟨[step], List.prefix_rfl, ?_⟩⟩
  obtain ⟨place, hplace, hm⟩ := Option.bind_eq_some_iff.mp hm
  rw [h.resolveOwn?_eq] at hplace
  split at hm
  · exact absurd hm (by simp)
  next hfree =>
    obtain rfl := Option.some.inj hm
    have hne : place ≠ [] := fun hn => absurd (hn ▸ hfree) (by simp [get?])
    -- a directory that was not there before is the one that was put there
    have hlocation : location = place := by
      by_contra hother
      rw [get?_put hne, if_neg hother] at hmade
      exact absurd (hnone.symm.trans hmade) (by simp)
    rw [hlocation, htree.resolve?_eq]
    exact follow_mono (fun _ => (hextended.updated (Rewritten.refl _)).directory) hplace

theorem MadeAlong.cons {mid : FileSystem} {reached rest : List FileName} {step : FileName}
    (h : MadeAlong files mid reached [step])
    (h' : MadeAlong mid made (reached ++ [step]) rest) :
    MadeAlong files made reached (step :: rest) where
  extended := h.extended.trans h'.extended
  tree := h'.tree
  along location hnone hmade := by
    rcases h.extended location with hsame | ⟨-, hmid⟩
    · obtain ⟨front, hfront, hresolve⟩ := h'.along location (hsame ▸ hnone) hmade
      exact ⟨step :: front, List.cons_prefix_cons.mpr ⟨rfl, hfront⟩, by simpa using hresolve⟩
    · obtain ⟨front, hfront, hresolve⟩ := h.along location hnone hmid
      refine ⟨front, hfront.trans (List.cons_prefix_cons.mpr ⟨rfl, List.nil_prefix⟩), ?_⟩
      exact (h'.extended.updated (Rewritten.refl made)).resolve? h.tree h'.tree hresolve

theorem madeAlong_makeDirectoriesFrom (h : files.IsTree) (reached steps : List FileName) :
    MadeAlong files (files.makeDirectoriesFrom reached steps).1 reached steps := by
  induction steps generalizing files reached with
  | nil => exact .refl h reached []
  | cons step rest ih =>
    rw [makeDirectoriesFrom]
    split
    · exact (MadeAlong.refl h reached [step]).cons (ih h (reached ++ [step]))
    · split
      next mid hmid =>
        have hstep := h.madeAlong_makeDirectory? hmid
        exact hstep.cons (ih hstep.tree (reached ++ [step]))
      · exact .refl h reached (step :: rest)

end FileSystem

def Surroundings.namesTo (surroundings : Surroundings) (path : String) : List FileName :=
  (surroundings.locate path).filter (· ≠ FileName.here)

/-- What may happen at a location when units are written to a directory. The steps to the directory
lead through those around it. -/
inductive Touched (before after : FileSystem) (steps : List FileName) (units : List GeneratedUnit)
    (pruning : Bool) (location : List FileName) : Prop
  | kept (h : after.get? location = before.get? location)
  | made {front : List FileName} (hfront : front <+: steps)
    (hresolve : after.resolve? front = some location) (hbefore : before.get? location = none)
    (hafter : after.get? location = some .directory)
  | written {place : List FileName} {unit : GeneratedUnit}
    (hresolve : after.resolve? steps = some place) (hunit : unit ∈ units)
    (hlocation : location = place ++ [ofText unit.fileName])
    (hbefore : before.get? location ≠ some .directory)
    (hafter : after.get? location = some (.file (.text unit.text)))
  | removed {place : List FileName} {name : String} {content : FileContent}
    (hpruning : pruning = true) (hresolve : after.resolve? steps = some place)
    (hlocation : location = place ++ [ofText name])
    (hstart : startsWith "On." name = true ∨ startsWith "IL." name = true)
    (hend : endsWith ".g.cs" name = true)
    (hbefore : before.get? location = some (.file content)) (hafter : after.get? location = none)

def UnitsPut (files written : FileSystem) (place : List FileName) (units : List GeneratedUnit) :
    Prop :=
  ∀ location, written.get? location = files.get? location ∨
    ∃ unit ∈ units, location = place ++ [ofText unit.fileName] ∧
      files.get? location ≠ some .directory ∧
      written.get? location = some (.file (.text unit.text))

namespace UnitsPut

variable {files mid written : FileSystem} {place : List FileName} {unit : GeneratedUnit}
  {units : List GeneratedUnit}

theorem refl (files : FileSystem) : UnitsPut files files place units := fun _ => Or.inl rfl

theorem of_holdsUnits (h : HoldsUnits files written place units) :
    UnitsPut files written place units := by
  intro location
  by_cases hl : ∀ unit ∈ units, location ≠ place ++ [ofText unit.fileName]
  · exact Or.inl (h.frame location hl)
  · simp only [Classical.not_forall, ne_eq, Classical.not_not] at hl
    obtain ⟨unit, hu, rfl⟩ := hl
    exact Or.inr ⟨unit, hu, rfl, h.undirected unit hu, h.holds unit hu⟩

theorem cons (h : UnitsPut files mid place [unit]) (h' : UnitsPut mid written place units) :
    UnitsPut files written place (unit :: units) := by
  intro location
  rcases h' location with hsame | ⟨other, ho, hlocation, hmid, hafter⟩
  · rw [hsame]
    refine (h location).imp_right fun ⟨first, hf, hput⟩ => ⟨first, ?_, hput⟩
    rw [List.mem_singleton.mp hf]
    exact List.mem_cons_self
  · refine Or.inr ⟨other, List.mem_cons_of_mem unit ho, hlocation, ?_, hafter⟩
    rcases h location with hsame | ⟨_, _, _, hbefore, _⟩
    · exact hsame ▸ hmid
    · exact hbefore

theorem rewritten (h : UnitsPut files written place units) : Rewritten files written := by
  intro location
  refine (h location).imp_right ?_
  rintro ⟨unit, hu, rfl, hbefore, hafter⟩
  exact ⟨isGeneratedPlace_concat.mpr unit.isGenerated_fileName, hbefore, by simp [hafter]⟩

end UnitsPut

namespace GeneratedUnit

variable {files : FileSystem} {locate : String → List FileName} {directory : String}
  {location place : List FileName} {units : List GeneratedUnit}

theorem unitsPut_writeEach (h : files.IsTree) (hr : files.resolve? location = some place)
    (hd : files.get? place = some .directory)
    (hl : ∀ unit ∈ units,
      locate (Path.join directory unit.fileName) = location ++ [ofText unit.fileName])
    (summary : WriteSummary) :
    (writeEach locate directory files summary units).files.IsTree ∧
      UnitsPut files (writeEach locate directory files summary units).files place units := by
  induction units generalizing files summary with
  | nil => exact ⟨h, .refl files⟩
  | cons unit units ih =>
    rcases writeEach_cases h hr hd (hl unit (by simp)) summary units with
      hfails | ⟨mid, next, hunit, heq⟩
    · rw [hfails]
      exact ⟨h, .refl files⟩
    · rw [heq]
      have hupdated := (Extended.refl files).updated hunit.rewritten
      obtain ⟨htree, hput⟩ := ih hunit.tree (hupdated.resolve? h hunit.tree hr)
        (hupdated.directory hd) (fun other ho => hl other (by simp [ho])) next
      exact ⟨htree, (UnitsPut.of_holdsUnits hunit).cons hput⟩

theorem files_writeAll (surroundings : Surroundings) (directory : String)
    (units : List GeneratedUnit) (pruning : Bool) :
    let made := surroundings.files.makeDirectories (surroundings.locate directory)
    let written := (writeEach surroundings.locate directory made.1 {} units).files
    let after := (writeAll surroundings directory units pruning).files
    after = made.1 ∨ (made.2 = true ∧ (after = written ∨ (pruning = true ∧
      after = prune written ((written.resolve? (surroundings.locate directory)).getD
        (surroundings.locate directory)) units))) := by
  dsimp only
  unfold writeAll
  dsimp only
  rcases hmade : surroundings.files.makeDirectories (surroundings.locate directory) with ⟨made, ok⟩
  cases ok with
  | false => exact Or.inl rfl
  | true =>
    refine Or.inr ⟨rfl, ?_⟩
    dsimp only
    cases (writeEach surroundings.locate directory made {} units).result with
    | error fault => exact Or.inl rfl
    | ok summary =>
      cases pruning with
      | false => exact Or.inl rfl
      | true => exact Or.inr ⟨rfl, rfl⟩

theorem isUnitName_iff {name : String} : isUnitName name = true ↔
    endsWith ".g.cs" name = true ∧
      (startsWith "On." name = true ∨ startsWith "IL." name = true) := by
  simp [isUnitName, HookKind.all, HookKind.root, generatedExtension]

section

variable {before made written after : FileSystem} {steps other : List FileName} {pruning : Bool}
  (hm : MadeAlong before made [] steps)

include hm

theorem touched_of_made (hu : Updated made after) (ha : after.IsTree)
    (hsame : after.get? other = made.get? other) :
    Touched before after steps units pruning other := by
  rcases hm.extended other with hold | ⟨hnone, hnew⟩
  · exact .kept (hsame.trans hold)
  · obtain ⟨front, hfront, hresolve⟩ := hm.along other hnone hnew
    exact .made hfront (hu.resolve? hm.tree ha hresolve) hnone (hsame.trans hnew)

theorem touched_of_written (hu : Updated made after) (ha : after.IsTree)
    (hp : UnitsPut made written place units) (hr : after.resolve? steps = some place)
    (hsame : after.get? other = written.get? other) :
    Touched before after steps units pruning other := by
  rcases hp other with hkept | ⟨unit, hunit, hlocation, hmade, hafter⟩
  · exact touched_of_made hm hu ha (hsame.trans hkept)
  · refine .written hr hunit hlocation (fun hbefore => hmade ?_) (hsame.trans hafter)
    exact (hm.extended.updated (Rewritten.refl made)).directory hbefore

theorem touched_of_stale (hp : UnitsPut made written place units) (hw : written.IsTree)
    (hr : after.resolve? steps = some place) {name : String}
    (hs : name ∈ stale written place units) (hnone : after.get? (place ++ [ofText name]) = none) :
    Touched before after steps units true (place ++ [ofText name]) := by
  obtain ⟨hname, hnot, content, hget⟩ := (mem_stale hw).mp hs
  obtain ⟨hend, hstart⟩ := isUnitName_iff.mp hname
  -- no unit has the name, so the file is as old as the files themselves
  have hmade : made.get? (place ++ [ofText name]) = some (.file content) := by
    rcases hp (place ++ [ofText name]) with hkept | ⟨unit, hunit, hlocation, -, -⟩
    · rw [← hkept, hget]
    · have heq : unit.fileName = name := by simpa using hlocation.symm
      exact absurd (List.mem_map.mpr ⟨unit, hunit, heq⟩) hnot
  have hbefore : before.get? (place ++ [ofText name]) = some (.file content) := by
    rcases hm.extended (place ++ [ofText name]) with hold | ⟨-, hnew⟩
    · rw [← hold, hmade]
    · exact absurd (hmade.symm.trans hnew) (by simp)
  exact .removed rfl hr rfl hstart hend hbefore hnone

end

theorem touched_writeAll {surroundings : Surroundings} (h : surroundings.files.IsTree)
    (hc : IsPlain surroundings.place) (directory : String)
    (hs : ∀ unit ∈ units, '/' ∉ unit.name.toList) (pruning : Bool) (other : List FileName) :
    Touched surroundings.files (writeAll surroundings directory units pruning).files
      (surroundings.namesTo directory) units pruning other := by
  have hm := madeAlong_makeDirectoriesFrom h [] (surroundings.namesTo directory)
  have hfiles := files_writeAll surroundings directory units pruning
  change MadeAlong _ (surroundings.files.makeDirectories (surroundings.locate directory)).1 _ _ at hm
  dsimp only at hfiles
  generalize hmade : surroundings.files.makeDirectories (surroundings.locate directory) = made
    at hm hfiles
  rcases hfiles with hafter | ⟨hok, hafter⟩
  · rw [hafter]
    exact touched_of_made hm ((Extended.refl made.1).updated (Rewritten.refl made.1)) hm.tree rfl
  -- the directory is there, and its place is the same from now on
  obtain ⟨-, -, hdirectory⟩ := makeDirectoriesFrom_spec h (hmade.trans (Prod.ext rfl hok))
  obtain ⟨place, hresolve, hplace⟩ :=
    isDirectory_iff.mp (hdirectory (isDirectory_iff.mpr ⟨[], rfl, rfl⟩))
  rw [List.nil_append] at hresolve
  obtain ⟨hw, hp⟩ := unitsPut_writeEach hm.tree hresolve hplace
    (fun unit hu => locate_fileName hc directory (hs unit hu)) {}
  have hupdated := (Extended.refl made.1).updated hp.rewritten
  rcases hafter with hafter | ⟨rfl, hafter⟩
  · rw [hafter]
    exact touched_of_written hm hupdated hw hp (hupdated.resolve? hm.tree hw hresolve) rfl
  · have hlocation : (writeEach surroundings.locate directory made.1 {} units).files.resolve?
        (surroundings.locate directory) = some place := by
      have hfollow := hupdated.resolve? hm.tree hw hresolve
      rw [hw.resolve?_eq] at hfollow ⊢
      exact follow_filter hfollow (hupdated.directory hplace)
    rw [hlocation, Option.getD_some] at hafter
    rw [hafter]
    generalize (writeEach surroundings.locate directory made.1 {} units).files = written at hw hp
    have ha : (prune written place units).IsTree := isTree_prune hw
    have hpruned : Updated made.1 (prune written place units) :=
      (Extended.refl made.1).updated (hp.rewritten.trans (rewritten_prune hw))
    have hr := hpruned.resolve? hm.tree ha hresolve
    have hget : (prune written place units).get? other = _ := get?_prune hw other
    split at hget
    next hstale =>
      obtain ⟨name, hname, rfl⟩ := hstale
      exact touched_of_stale hm hp hw hr hname hget
    · exact touched_of_written hm hpruned ha hp hr hget

end GeneratedUnit
end HookEvents
