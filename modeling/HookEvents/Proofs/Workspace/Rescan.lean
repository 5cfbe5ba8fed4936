import HookEvents.Proofs.Workspace.Discovery
import Mathlib.Data.List.Perm.Basic

namespace HookEvents

open FileSystem

theorem flatMap_filter_of_nil {α β : Type} {p : α → Bool} {f : α → List β} {as : List α}
    (h : ∀ a ∈ as, p a = false → f a = []) : (as.filter p).flatMap f = as.flatMap f := by
  induction as with
  | nil => rfl
  | cons a as ih =>
    have hrest := ih fun other ho => h other (by simp [ho])
    cases hp : p a with
    | true => simp [hp, hrest]
    | false => simp [hp, hrest, h a (by simp) hp]

theorem flatMap_perm_of_common {α β : Type} [DecidableEq α] {as bs : List α} {f g : α → List β}
    (hna : as.Nodup) (hnb : bs.Nodup) (hboth : ∀ a, a ∈ as → a ∈ bs → (f a).Perm (g a))
    (hleft : ∀ a ∈ as, a ∉ bs → f a = []) (hright : ∀ b ∈ bs, b ∉ as → g b = []) :
    (as.flatMap f).Perm (bs.flatMap g) := by
  have hcommon : (as.filter (· ∈ bs)).Perm (bs.filter (· ∈ as)) := by
    rw [List.perm_ext_iff_of_nodup (hna.sublist List.filter_sublist)
      (hnb.sublist List.filter_sublist)]
    intro a
    simp [and_comm]
  have hf : as.flatMap f = (as.filter (· ∈ bs)).flatMap f :=
    (flatMap_filter_of_nil fun a hm hn => hleft a hm (by simpa using hn)).symm
  have hg : bs.flatMap g = (bs.filter (· ∈ as)).flatMap g :=
    (flatMap_filter_of_nil fun b hm hn => hright b hm (by simpa using hn)).symm
  rw [hf, hg]
  refine (List.Perm.flatMap_left _ fun a hm => ?_).trans (hcommon.flatMap_right g)
  obtain ⟨hma, hmb⟩ := List.mem_filter.mp hm
  exact hboth a hma (of_decide_eq_true hmb)

def FileSystem.KeepsRepositories (before after : FileSystem) : Prop :=
  ∀ place, before.get? (place ++ [IgnoreLevel.repositoryName]) = none →
    after.get? (place ++ [IgnoreLevel.repositoryName]) = none

variable {before after : FileSystem}

theorem FileSystem.keepsRepositories_iff :
    KeepsRepositories before after ↔ ∀ entry ∈ after.entries,
      entry.1.getLast? = some IgnoreLevel.repositoryName → before.get? entry.1 ≠ none := by
  constructor
  · intro h entry he hlast hnone
    obtain ⟨place, hplace⟩ := List.getLast?_eq_some_iff.mp hlast
    rw [hplace] at hnone
    exact (get?_eq_none_iff (by simp)).mp (h place hnone) entry he hplace
  · intro h place hnone
    rw [get?_eq_none_iff (by simp)]
    intro entry he hplace
    exact h entry he (by simp [hplace]) (hplace ▸ hnone)

instance : Decidable (KeepsRepositories before after) :=
  decidable_of_iff _ FileSystem.keepsRepositories_iff.symm

theorem IgnoreLevel.rulesIn_eq (h : Updated before after) (hb : before.IsTree) (ha : after.IsTree)
    {location : List FileName} (hl : IsPlain location) (hn : ¬IsGeneratedPlace location) :
    rulesIn after location = rulesIn before location := by
  rw [rulesIn, rulesIn, h.read?_plain hb ha hl hn]

theorem IgnoreLevel.ofDirectory_eq (h : Updated before after) (hb : before.IsTree)
    (ha : after.IsTree) (hg : KeepsRepositories before after) {location : List FileName}
    (hl : IsPlain location) : ofDirectory after location = ofDirectory before location := by
  have hrules : ∀ names, names ≠ [] → IsPlain names → ¬IsGeneratedPlace names →
      rulesIn after (location ++ names) = rulesIn before (location ++ names) := by
    intro names hne hplain hnot
    apply rulesIn_eq h hb ha (isPlain_append_iff.mpr ⟨hl, hplain⟩)
    rwa [isGeneratedPlace_append hne]
  have hrepository : after.isThere (location ++ [repositoryName]) =
      before.isThere (location ++ [repositoryName]) := by
    have hplain : IsPlain (location ++ [repositoryName]) :=
      isPlain_append_iff.mpr ⟨hl, by decide +kernel⟩
    rw [isThere, isThere, ha.entry?_plain hplain, hb.entry?_plain hplain]
    rcases h (location ++ [repositoryName]) with hsame | ⟨hnone, hmade⟩ | ⟨hplace, _⟩
    · rw [hsame]
    · rw [hnone, hg location hnone]
    · rw [isGeneratedPlace_concat] at hplace
      exact absurd hplace (by decide +kernel)
  unfold ofDirectory
  dsimp only
  rw [hrepository, hrules [".hookgenignore"] (by simp) (by decide +kernel) (by decide +kernel),
    hrules [".ignore"] (by simp) (by decide +kernel) (by decide +kernel),
    hrules [".gitignore"] (by simp) (by decide +kernel) (by decide +kernel),
    hrules [repositoryName, "info", "exclude"] (by simp) (by decide +kernel) (by decide +kernel)]

theorem IgnoreLevel.above_eq (h : Updated before after) (hb : before.IsTree) (ha : after.IsTree)
    (hg : KeepsRepositories before after) {location : List FileName} (hl : IsPlain location) :
    above after location = above before location := by
  rw [above, above]
  congr 1
  apply List.map_congr_left
  intro n _
  exact ofDirectory_eq h hb ha hg fun name hn => hl name (List.mem_of_mem_take hn)

def FoundFile.isOwn (file : FoundFile) : Bool := !ScanConfig.isGenerated file.name

namespace Walk

variable {root : List FileName} {followLinks : Bool}

theorem filter_foundAt_generated {walk : Walk} {levels : List IgnoreLevel} {path : List FileName}
    {inner : List FileName → List FoundFile} {name : FileName}
    (hn : ScanConfig.isGenerated name = true)
    (hd : walk.files.get? (walk.root ++ path ++ [name]) ≠ some .directory) :
    (walk.foundAt levels path inner name).filter FoundFile.isOwn = [] := by
  unfold foundAt
  dsimp only
  split
  next hget => exact absurd hget hd
  next content _ =>
    split
    · simp [FoundFile.isOwn, FoundFile.name, hn]
    · rfl
  · rfl

theorem filter_foundAt_added {levels : List IgnoreLevel} {path : List FileName}
    {inner : List FileName → List FoundFile} {name : FileName}
    (hd : after.get? (root ++ path ++ [name]) = some .directory)
    (hi : (inner (path ++ [name])).filter FoundFile.isOwn = []) :
    (foundAt { files := after, root, followLinks } levels path inner name).filter
      FoundFile.isOwn = [] := by
  simp only [foundAt, hd]
  split
  · exact hi
  · rfl

theorem filter_below_added (h : Updated before after) (hb : before.IsTree) {depth : Nat}
    {above : List IgnoreLevel} {path : List FileName}
    (hd : before.get? (root ++ path) ≠ some .directory) :
    (below { files := after, root, followLinks } depth above path).filter FoundFile.isOwn = [] := by
  induction depth generalizing above path with
  | zero => rfl
  | succ depth ih =>
    rw [below, List.filter_flatMap, List.flatMap_eq_nil_iff]
    intro name hname
    have hafter : after.get? (root ++ path ++ [name]) ≠ none := mem_children.mp hname
    have hbefore : before.get? (root ++ path ++ [name]) = none := by
      apply Classical.byContradiction
      intro hthere
      exact hd (hb.closed (root ++ path) name hthere)
    rcases h (root ++ path ++ [name]) with hsame | ⟨_, hmade⟩ | ⟨hplace, _, hfile⟩
    · exact absurd (hsame.trans hbefore) hafter
    · apply filter_foundAt_added hmade
      apply ih
      rw [← List.append_assoc, hbefore]
      simp
    · exact filter_foundAt_generated (isGeneratedPlace_concat.mp hplace) hfile

theorem filter_below (h : Updated before after) (hb : before.IsTree) (ha : after.IsTree)
    (hg : KeepsRepositories before after) {depth : Nat} {above : List IgnoreLevel}
    {path : List FileName} (hd : before.get? (root ++ path) = some .directory) :
    ((below { files := before, root, followLinks } depth above path).filter FoundFile.isOwn).Perm
      ((below { files := after, root, followLinks } depth above path).filter FoundFile.isOwn) := by
  induction depth generalizing above path with
  | zero => exact List.Perm.refl _
  | succ depth ih =>
    have hplain : IsPlain (root ++ path) := hb.isPlain_of_get? (by simp [hd])
    rw [below, below, List.filter_flatMap, List.filter_flatMap,
      IgnoreLevel.ofDirectory_eq h hb ha hg hplain]
    apply flatMap_perm_of_common (hb.children_nodup _) (ha.children_nodup _)
    · -- a name that was there before and is there now
      intro name hbefore hafter
      rw [mem_children] at hbefore hafter
      rcases h (root ++ path ++ [name]) with hsame | ⟨hnone, _⟩ | ⟨hplace, hfile, hfile'⟩
      · simp only [foundAt, hsame]
        split
        next hdirectory =>
          split
          · rw [List.append_assoc] at hdirectory
            exact ih hdirectory
          · exact List.Perm.refl _
        · exact List.Perm.refl _
        · exact List.Perm.refl _
      · exact absurd hnone hbefore
      · rw [isGeneratedPlace_concat] at hplace
        rw [filter_foundAt_generated hplace hfile, filter_foundAt_generated hplace hfile']
    · -- a name that is gone: a generated file was removed
      intro name hbefore hafter
      rw [mem_children] at hbefore hafter
      have hnone : after.get? (root ++ path ++ [name]) = none := by simpa using hafter
      rcases h (root ++ path ++ [name]) with hsame | ⟨hgone, _⟩ | ⟨hplace, hfile, _⟩
      · exact absurd (hsame.symm.trans hnone) hbefore
      · exact absurd hgone hbefore
      · exact filter_foundAt_generated (isGeneratedPlace_concat.mp hplace) hfile
    · -- a new name: a directory or a generated file
      intro name hafter hbefore
      rw [mem_children] at hbefore hafter
      have hnone : before.get? (root ++ path ++ [name]) = none := by simpa using hbefore
      rcases h (root ++ path ++ [name]) with hsame | ⟨_, hmade⟩ | ⟨hplace, _, hfile⟩
      · exact absurd (hsame.trans hnone) hafter
      · apply filter_foundAt_added hmade
        apply filter_below_added h hb
        rw [← List.append_assoc, hnone]
        simp
      · exact filter_foundAt_generated (isGeneratedPlace_concat.mp hplace) hfile

theorem filter_found (h : Updated before after) (hb : before.IsTree) (ha : after.IsTree)
    (hg : KeepsRepositories before after) (hd : before.get? root = some .directory) :
    ((found { files := before, root, followLinks }).filter FoundFile.isOwn).Perm
      ((found { files := after, root, followLinks }).filter FoundFile.isOwn) := by
  have hplain : IsPlain root := hb.isPlain_of_get? (by simp [hd])
  have hroot : before.get? (root ++ []) = some .directory := by rwa [List.append_nil]
  -- one depth that is enough for both walks
  have hdepth := Nat.le_max_left before.entries.length after.entries.length
  have hdepth' := Nat.le_max_right before.entries.length after.entries.length
  rw [found_eq_below hb hd (Nat.lt_succ_of_le hdepth),
    found_eq_below ha (h.directory hd) (Nat.lt_succ_of_le hdepth'),
    IgnoreLevel.above_eq h hb ha hg hplain]
  exact filter_below h hb ha hg hroot

end Walk

end HookEvents
