import HookEvents.Proofs.Workspace.Tree
import HookEvents.Workspace.Discovery

namespace HookEvents

theorem ScanConfig.isGenerated_ofText (s : String) :
    isGenerated (FileName.ofText s) = Text.endsWith generatedExtension s := by
  simp [isGenerated]

namespace FileSystem

def IsGeneratedPlace (location : List FileName) : Prop :=
  ∃ name ∈ location.getLast?, ScanConfig.isGenerated name = true

instance : DecidablePred IsGeneratedPlace := fun location =>
  decidable_of_iff (location.getLast?.any ScanConfig.isGenerated = true) (Option.any_eq_true _ _)

theorem isGeneratedPlace_append {front back : List FileName} (hb : back ≠ []) :
    IsGeneratedPlace (front ++ back) ↔ IsGeneratedPlace back := by
  rw [IsGeneratedPlace, List.getLast?_append, IsGeneratedPlace]
  cases hlast : back.getLast? with
  | none => exact absurd (List.getLast?_eq_none_iff.mp hlast) hb
  | some last => rfl

theorem isGeneratedPlace_concat {location : List FileName} {name : FileName} :
    IsGeneratedPlace (location ++ [name]) ↔ ScanConfig.isGenerated name = true := by
  simp [IsGeneratedPlace]

def Extended (before after : FileSystem) : Prop :=
  ∀ location, after.get? location = before.get? location ∨
    (before.get? location = none ∧ after.get? location = some .directory)

def Rewritten (before after : FileSystem) : Prop :=
  ∀ location, after.get? location = before.get? location ∨
    (IsGeneratedPlace location ∧ before.get? location ≠ some .directory ∧
      after.get? location ≠ some .directory)

def Updated (before after : FileSystem) : Prop :=
  ∀ location, after.get? location = before.get? location ∨
    (before.get? location = none ∧ after.get? location = some .directory) ∨
    (IsGeneratedPlace location ∧ before.get? location ≠ some .directory ∧
      after.get? location ≠ some .directory)

variable {before mid after : FileSystem}

theorem Extended.refl (files : FileSystem) : Extended files files := fun _ => Or.inl rfl

theorem Rewritten.refl (files : FileSystem) : Rewritten files files := fun _ => Or.inl rfl

theorem Extended.trans (h : Extended before mid) (h' : Extended mid after) :
    Extended before after := by
  intro location
  rcases h' location with hsame | ⟨hnone, hmade⟩
  · rw [hsame]
    exact h location
  · rcases h location with hsame | ⟨_, hmid⟩
    · exact Or.inr ⟨hsame ▸ hnone, hmade⟩
    · exact absurd (hnone.symm.trans hmid) (by simp)

theorem Rewritten.trans (h : Rewritten before mid) (h' : Rewritten mid after) :
    Rewritten before after := by
  intro location
  rcases h' location with hsame | ⟨hplace, hmid, hafter⟩
  · rw [hsame]
    exact h location
  · rcases h location with hsame | ⟨_, hbefore, _⟩
    · exact Or.inr ⟨hplace, hsame ▸ hmid, hafter⟩
    · exact Or.inr ⟨hplace, hbefore, hafter⟩

theorem Extended.updated (h : Extended before mid) (h' : Rewritten mid after) :
    Updated before after := by
  intro location
  rcases h' location with hsame | ⟨hplace, hmid, hafter⟩
  · rw [hsame]
    exact (h location).imp_right Or.inl
  · rcases h location with hsame | ⟨_, hmade⟩
    · exact Or.inr (Or.inr ⟨hplace, hsame ▸ hmid, hafter⟩)
    · exact absurd hmade hmid

namespace Updated

theorem directory (h : Updated before after) {location : List FileName}
    (hd : before.get? location = some .directory) : after.get? location = some .directory := by
  rcases h location with hsame | ⟨hnone, _⟩ | ⟨_, hbefore, _⟩
  · rw [hsame, hd]
  · exact absurd (hnone.symm.trans hd) (by simp)
  · exact absurd hd hbefore

theorem resolve? (h : Updated before after) (hb : before.IsTree) (ha : after.IsTree)
    {location place : List FileName} (hr : before.resolve? location = some place) :
    after.resolve? location = some place := by
  rw [hb.resolve?_eq] at hr
  rw [ha.resolve?_eq]
  exact follow_mono (fun _ => h.directory) hr

theorem isDirectory (h : Updated before after) (hb : before.IsTree) (ha : after.IsTree)
    {location : List FileName} (hd : before.isDirectory location = true) :
    after.isDirectory location = true := by
  have hentry : FileSystem.entry? before location = some .directory := of_decide_eq_true hd
  obtain ⟨place, hr, hget⟩ := Option.bind_eq_some_iff.mp hentry
  apply decide_eq_true
  rw [ entry?, h.resolve? hb ha hr, Option.bind_some, h.directory hget]

theorem read?_eq_some (h : Updated before after) (hb : before.IsTree) (ha : after.IsTree)
    {location : List FileName} {content : FileContent}
    (hn : ∀ name ∈ location.getLast?, ScanConfig.isGenerated name = false)
    (hr : before.read? location = some content) : after.read? location = some content := by
  have hentry : FileSystem.entry? before location = some (.file content) := by
    unfold read? at hr
    split at hr
    next hfile => rw [hfile, Option.some.inj hr]
    · exact absurd hr (by simp)
  obtain ⟨place, hplace, hget⟩ := Option.bind_eq_some_iff.mp hentry
  -- the location ends in the name of the file, so the file is no generated one
  have hlast : location.getLast? = place.getLast? :=
    hb.closed.getLast?_of_follow (hb.resolve?_eq location ▸ hplace) (by simp [hget]) get?_nil
  have hsame : after.get? place = some (.file content) := by
    rcases h place with hsame | ⟨hnone, _⟩ | ⟨⟨name, hname, hgenerated⟩, _, _⟩
    · rw [hsame, hget]
    · exact absurd (hnone.symm.trans hget) (by simp)
    · exact absurd (hn name (hlast ▸ hname)) (by simp [hgenerated])
  rw [read?, entry?, h.resolve? hb ha hplace, Option.bind_some, hsame]

theorem read?_plain (h : Updated before after) (hb : before.IsTree) (ha : after.IsTree)
    {location : List FileName} (hl : IsPlain location) (hn : ¬IsGeneratedPlace location) :
    after.read? location = before.read? location := by
  rw [read?, read?, ha.entry?_plain hl, hb.entry?_plain hl]
  rcases h location with hsame | ⟨hnone, hmade⟩ | ⟨hplace, _⟩
  · rw [hsame]
  · rw [hnone, hmade]
  · exact absurd hplace hn

end Updated
end FileSystem
end HookEvents
