import HookEvents.Proofs.Workspace.Frame
import HookEvents.Proofs.Workspace.WriteOrder

/-!
Directories that are made on the way to another one. They can stay behind only where the way goes up
again, because elsewhere a file in the way stands in a directory that is there.
-/
namespace HookEvents

open FileSystem

open FileName (ofText)

namespace FileSystem

variable {files made after : FileSystem} {steps : List FileName}

structure MadeOnWay (before after : FileSystem) (steps location : List FileName) : Prop where
  missing : before.get? location = none
  made : after.get? location = some .directory
  onWay : ∃ front, front <+: steps ∧ after.resolve? front = some location

theorem MadeAlong.same_or_made (h : MadeAlong files made [] steps) (location : List FileName) :
    made.get? location = files.get? location ∨ MadeOnWay files made steps location := by
  rcases h.extended location with hsame | ⟨hnone, hdirectory⟩
  · exact Or.inl hsame
  · exact Or.inr ⟨hnone, hdirectory, h.along location hnone hdirectory⟩

theorem MadeOnWay.of_sameDirectories {location : List FileName}
    (h : MadeOnWay files made steps location) (hs : SameDirectories made after) (hm : made.IsTree)
    (ha : after.IsTree) : MadeOnWay files after steps location where
  missing := h.missing
  made := (hs location).mpr h.made
  onWay := by
    obtain ⟨front, hfront, hresolve⟩ := h.onWay
    exact ⟨front, hfront, (hs.resolve?_eq hm ha front).trans hresolve⟩

theorem MadeOnWay.isPrefix {location : List FileName} (h : MadeOnWay files made steps location)
    (hm : made.IsTree) (hs : IsPlain steps) : location <+: steps := by
  obtain ⟨front, hfront, hresolve⟩ := h.onWay
  have hplain : IsPlain front := fun name hn => hs name (hfront.subset hn)
  rw [hm.resolve?_eq] at hresolve
  rwa [eq_of_follow_plain hresolve hplain, List.nil_append]

theorem IsTree.resolve?_step (h : files.IsTree) {reached place : List FileName} {step : FileName}
    (hr : files.resolve? reached = some place) (hd : files.get? place = some .directory)
    (hn : files.isDirectory (reached ++ [step]) = false) :
    files.resolve? (reached ++ [step]) = some (place ++ [step]) := by
  have hnot : ∀ other, files.follow place [step] = some other →
      files.get? other ≠ some .directory := by
    intro other ho hdirectory
    rw [h.resolve?_eq] at hr
    have hresolve : files.resolve? (reached ++ [step]) = some other := by
      rw [h.resolve?_eq, follow_append hr hd, ho]
    rw [isDirectory_iff.mpr ⟨other, hresolve, hdirectory⟩] at hn
    exact absurd hn (by simp)
  have hplain : IsPlain [step] := by
    refine isPlain_singleton.mpr ⟨?_, ?_⟩
    · rintro rfl
      exact hnot place (by simp [follow]) hd
    · rintro rfl
      exact hnot place.dropLast (by simp [follow]) (h.closed.dropLast (by simp [hd]))
  exact h.resolve?_concat hr hd hplain

theorem IsTree.entry?_of_makeDirectory? (h : files.IsTree) {reached : List FileName} {step : FileName}
    (hr : files.isDirectory reached = true) (hn : files.isDirectory (reached ++ [step]) = false)
    (hm : files.makeDirectory? (reached ++ [step]) = none) :
    ∃ content, FileSystem.entry? files (reached ++ [step]) = some (.file content) := by
  obtain ⟨place, hplace, hd⟩ := isDirectory_iff.mp hr
  have hstep := h.resolve?_step hplace hd hn
  have hentry : FileSystem.entry? files (reached ++ [step]) = files.get? (place ++ [step]) := by
    rw [ entry?, hstep, Option.bind_some]
  rw [hentry]
  cases hget : files.get? (place ++ [step]) with
  | none =>
    rw [h.resolve?_eq, ← h.resolveOwn?_eq] at hstep
    simp [FileSystem.makeDirectory?, hstep, hget] at hm
  | some entry =>
    cases entry with
    | file content => exact ⟨content, rfl⟩
    | directory =>
      rw [isDirectory_iff.mpr ⟨_, hstep, hget⟩] at hn
      exact absurd hn (by simp)
    | link target => exact absurd hget (h.get?_ne_link _ target)

theorem makeDirectoriesFrom_blocked (h : files.IsTree) {reached : List FileName}
    (hr : files.isDirectory reached = true)
    (hm : files.makeDirectoriesFrom reached steps = (made, false)) :
    ∃ front content, front <+: steps ∧
      FileSystem.entry? made (reached ++ front) = some (.file content) := by
  induction steps generalizing files reached with
  | nil => exact absurd hm (by simp [makeDirectoriesFrom])
  | cons step rest ih =>
    -- what stands in the way further on stands in the way here
    have hlater : ∀ mid : FileSystem, mid.IsTree → mid.isDirectory (reached ++ [step]) = true →
        mid.makeDirectoriesFrom (reached ++ [step]) rest = (made, false) →
        ∃ front content, front <+: step :: rest ∧
          FileSystem.entry? made (reached ++ front) = some (.file content) := by
      intro mid hmid hd hrest
      obtain ⟨front, content, hfront, hentry⟩ := ih hmid hd hrest
      refine ⟨step :: front, content, List.cons_prefix_cons.mpr ⟨rfl, hfront⟩, ?_⟩
      rwa [List.append_assoc, List.singleton_append] at hentry
    rw [makeDirectoriesFrom] at hm
    split at hm
    next hd => exact hlater files h hd hm
    next hd =>
      split at hm
      next mid hmid =>
        obtain ⟨-, htree, hthere⟩ := h.makeDirectory? hmid
        exact hlater mid htree hthere hm
      next hnone =>
        obtain ⟨rfl, -⟩ := Prod.mk.inj hm
        obtain ⟨content, hentry⟩ := h.entry?_of_makeDirectory? hr (by simpa using hd) hnone
        exact ⟨[step], content, List.prefix_append [step] rest, hentry⟩

section Plain

variable (hf : files.IsTree) (hm : MadeAlong files made [] steps) (hs : IsPlain steps)

include hf hm hs

theorem same_of_there {rest : List FileName} (ht : files.get? (steps ++ rest) ≠ none)
    (hr : rest ≠ []) (location : List FileName) : made.get? location = files.get? location := by
  rcases hm.same_or_made location with hsame | hmade
  · exact hsame
  · obtain ⟨between, hbetween⟩ := hmade.isPrefix hm.tree hs
    rw [← hbetween, List.append_assoc] at ht
    have hdirectory := hf.closed.directory_of_append (by simp [hr]) ht
    exact absurd (hmade.missing.symm.trans hdirectory) (by simp)

theorem same_of_child {name : FileName} (ht : made.get? (steps ++ [name]) ≠ none)
    (location : List FileName) : made.get? location = files.get? location := by
  apply same_of_there hf hm hs _ (List.cons_ne_nil name [])
  rcases hm.same_or_made (steps ++ [name]) with hsame | hmade
  · rwa [← hsame]
  · have hlength := (hmade.isPrefix hm.tree hs).length_le
    rw [List.length_append, List.length_singleton] at hlength
    omega

theorem same_of_blocked {front : List FileName} {content : FileContent} (hfront : front <+: steps)
    (hb : FileSystem.entry? made front = some (.file content)) (location : List FileName) :
    made.get? location = files.get? location := by
  have hplain : IsPlain front := fun name hn => hs name (hfront.subset hn)
  rw [hm.tree.entry?_plain hplain] at hb
  rcases hm.same_or_made location with hsame | hmade
  · exact hsame
  -- the file is older than the directory, so neither can be below the other
  have hold : files.get? front = some (.file content) := by
    rcases hm.extended front with hsame | ⟨-, hnew⟩
    · rw [← hsame, hb]
    · exact absurd (hb.symm.trans hnew) (by simp)
  rcases List.prefix_or_prefix_of_prefix (hmade.isPrefix hm.tree hs) hfront with
    ⟨rest, hrest⟩ | ⟨rest, hrest⟩
  · have hne : rest ≠ [] := by
      rintro rfl
      rw [List.append_nil] at hrest
      exact absurd (hmade.missing.symm.trans (hrest ▸ hold)) (by simp)
    have hthere : files.get? (location ++ rest) ≠ none := by simp [hrest, hold]
    have hdirectory := hf.closed.directory_of_append hne hthere
    exact absurd (hmade.missing.symm.trans hdirectory) (by simp)
  · have hne : rest ≠ [] := by
      rintro rfl
      rw [List.append_nil] at hrest
      exact absurd (hb.symm.trans (hrest ▸ hmade.made)) (by simp)
    have hthere : made.get? (front ++ rest) ≠ none := by simp [hrest, hmade.made]
    have hdirectory := hm.tree.closed.directory_of_append hne hthere
    exact absurd (hb.symm.trans hdirectory) (by simp)

end Plain
end FileSystem

namespace Surroundings

variable {surroundings : Surroundings} {directory : String} {made : FileSystem} {ok : Bool}

theorem madeAlong_of_makeDirectories (h : surroundings.files.IsTree)
    (hm : surroundings.files.makeDirectories (surroundings.locate directory) = (made, ok)) :
    MadeAlong surroundings.files made [] (surroundings.namesTo directory) := by
  have halong := madeAlong_makeDirectoriesFrom h [] (surroundings.namesTo directory)
  change MadeAlong _ (surroundings.files.makeDirectories (surroundings.locate directory)).1 _ _
    at halong
  rwa [hm] at halong

theorem exists_outputPlace (h : surroundings.files.IsTree)
    (hm : surroundings.files.makeDirectories (surroundings.locate directory) = (made, true)) :
    ∃ place, made.resolve? (surroundings.namesTo directory) = some place ∧
      made.get? place = some .directory := by
  have hroot : surroundings.files.isDirectory [] = true := isDirectory_iff.mpr ⟨[], rfl, rfl⟩
  obtain ⟨-, -, hthere⟩ := makeDirectoriesFrom_spec h hm
  exact isDirectory_iff.mp (hthere hroot)

theorem resolve?_fileName (hc : IsPlain surroundings.place) (hm : made.IsTree)
    {place : List FileName} (hr : made.resolve? (surroundings.namesTo directory) = some place)
    (hd : made.get? place = some .directory) {unit : GeneratedUnit} (hs : '/' ∉ unit.name.toList) :
    made.resolve? (surroundings.locate (Path.join directory unit.fileName)) =
      some (place ++ [ofText unit.fileName]) := by
  rw [GeneratedUnit.locate_fileName hc directory hs]
  exact hm.resolve?_concat hr hd unit.isPlain_fileName

theorem isPlain_namesTo (h : FileName.up ∉ surroundings.namesTo directory) :
    IsPlain (surroundings.namesTo directory) := by
  intro name hn
  exact ⟨of_decide_eq_true (List.mem_filter.mp hn).2, fun hup => h (hup ▸ hn)⟩

end Surroundings
end HookEvents
