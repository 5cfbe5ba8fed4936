import HookEvents.Proofs.Workspace.FileSystem

/-!
File systems without links. There a location means what its steps lead to, one after the other.
-/
namespace HookEvents

def FileEntry.isLink : FileEntry → Bool
  | .link _ => true
  | _ => false

namespace FileSystem

def IsPlain (location : List FileName) : Prop := ∀ name ∈ location, name ≠ .here ∧ name ≠ .up

instance : DecidablePred IsPlain := fun _ => List.decidableBAll _ _

structure IsTree (files : FileSystem) : Prop where
  closed : files.Closed
  unlinked : ∀ entry ∈ files.entries, entry.2.isLink = false
  plain : ∀ entry ∈ files.entries, IsPlain entry.1
  nodup : (files.entries.map (·.1)).Nodup

instance : DecidablePred IsTree := fun files =>
  decidable_of_iff (files.Closed ∧ (∀ entry ∈ files.entries, entry.2.isLink = false) ∧
      (∀ entry ∈ files.entries, IsPlain entry.1) ∧ (files.entries.map (·.1)).Nodup)
    ⟨fun ⟨closed, unlinked, plain, nodup⟩ => ⟨closed, unlinked, plain, nodup⟩,
      fun h => ⟨h.closed, h.unlinked, h.plain, h.nodup⟩⟩

theorem isPlain_append_iff {front back : List FileName} :
    IsPlain (front ++ back) ↔ IsPlain front ∧ IsPlain back := List.forall_mem_append

theorem isPlain_singleton {name : FileName} : IsPlain [name] ↔ name ≠ .here ∧ name ≠ .up := by
  simp [IsPlain]

variable {files : FileSystem}

theorem mem_of_get? {location : List FileName} {entry : FileEntry} (hl : location ≠ [])
    (h : files.get? location = some entry) : (location, entry) ∈ files.entries := by
  rw [get?_of_ne hl] at h
  obtain ⟨front, back, hsplit, -⟩ := List.lookup_eq_some_iff.mp h
  rw [hsplit]
  simp

theorem Closed.directory_of_append (h : files.Closed) {front back : List FileName} (hb : back ≠ [])
    (hget : files.get? (front ++ back) ≠ none) : files.get? front = some .directory := by
  induction back generalizing front with
  | nil => exact absurd rfl hb
  | cons name back ih =>
    cases back with
    | nil => exact h front name hget
    | cons next back =>
      have hinner : files.get? (front ++ [name]) = some .directory := by
        apply ih (by simp)
        rwa [List.append_assoc]
      exact h front name (by simp [hinner])

def follow (files : FileSystem) : List FileName → List FileName → Option (List FileName)
  | reached, [] => some reached
  | reached, step :: rest =>
    if step = .here then files.follow reached rest
    else if step = .up then files.follow reached.dropLast rest
    else if files.get? (reached ++ [step]) = some .directory then
      files.follow (reached ++ [step]) rest
    else if rest.isEmpty then some (reached ++ [step])
    else none

theorem follow_name {reached : List FileName} {name : FileName} (hn : IsPlain [name]) :
    files.follow reached [name] = some (reached ++ [name]) := by
  rw [isPlain_singleton] at hn
  simp [follow, hn.1, hn.2]

theorem follow_induction {place : List FileName} {motive : List FileName → List FileName → Prop}
    (here : motive place [])
    (stay : ∀ reached rest, motive reached rest → motive reached (.here :: rest))
    (up : ∀ reached rest, motive reached.dropLast rest → motive reached (.up :: rest))
    (down : ∀ reached step rest, IsPlain [step] → files.get? (reached ++ [step]) = some .directory →
      motive (reached ++ [step]) rest → motive reached (step :: rest))
    (last : ∀ reached step, IsPlain [step] → files.get? (reached ++ [step]) ≠ some .directory →
      reached ++ [step] = place → motive reached [step])
    {reached steps : List FileName} (h : files.follow reached steps = some place) :
    motive reached steps := by
  induction steps generalizing reached with
  | nil =>
    obtain rfl := Option.some.inj h
    exact here
  | cons step rest ih =>
    rw [follow] at h
    by_cases hdot : step = .here
    · rw [if_pos hdot] at h
      exact hdot ▸ stay reached rest (ih h)
    by_cases hup : step = .up
    · rw [if_neg hdot, if_pos hup] at h
      exact hup ▸ up reached rest (ih h)
    rw [if_neg hdot, if_neg hup] at h
    have hplain : IsPlain [step] := isPlain_singleton.mpr ⟨hdot, hup⟩
    by_cases hd : files.get? (reached ++ [step]) = some .directory
    · rw [if_pos hd] at h
      exact down reached step rest hplain hd (ih h)
    · rw [if_neg hd] at h
      cases rest with
      | nil => exact last reached step hplain hd (Option.some.inj h)
      | cons next rest => exact absurd h (by simp)

theorem isPlain_of_follow {reached steps place : List FileName}
    (h : files.follow reached steps = some place) : IsPlain reached → IsPlain place := by
  refine follow_induction (motive := fun reached _ => IsPlain reached → IsPlain place)
    (fun hr => hr) (fun _ _ ih => ih) ?_ ?_ ?_ h
  · intro reached rest ih hr
    exact ih fun name hn => hr name (List.dropLast_subset _ hn)
  · intro reached step rest hs _ ih hr
    exact ih (isPlain_append_iff.mpr ⟨hr, hs⟩)
  · rintro reached step hs _ rfl hr
    exact isPlain_append_iff.mpr ⟨hr, hs⟩

theorem Closed.parent_of_follow (hc : files.Closed) {reached steps place : List FileName}
    (h : files.follow reached steps = some place) :
    files.get? reached = some .directory → files.get? place.dropLast = some .directory := by
  refine follow_induction
    (motive := fun reached _ => files.get? reached = some .directory →
      files.get? place.dropLast = some .directory)
    (fun hr => hc.dropLast (by simp [hr])) (fun _ _ ih => ih) ?_ ?_ ?_ h
  · intro reached rest ih hr
    exact ih (hc.dropLast (by simp [hr]))
  · intro reached step rest _ hd ih _
    exact ih hd
  · rintro reached step _ _ rfl hr
    rwa [List.dropLast_concat]

theorem Closed.getLast?_of_follow (hc : files.Closed) {reached steps place : List FileName}
    (h : files.follow reached steps = some place) (hp : files.get? place ≠ some .directory) :
    files.get? reached = some .directory → steps.getLast? = place.getLast? := by
  -- the root is a directory, so the place has a last name, and a step before it makes no difference
  have hcons : ∀ (step : FileName) (rest : List FileName), rest.getLast? = place.getLast? →
      (step :: rest).getLast? = place.getLast? := by
    intro step rest hrest
    cases hl : place.getLast? with
    | none =>
      rw [List.getLast?_eq_none_iff.mp hl] at hp
      exact absurd rfl hp
    | some last => rw [List.getLast?_cons, hrest, hl, Option.getD_some]
  refine follow_induction
    (motive := fun reached steps => files.get? reached = some .directory →
      steps.getLast? = place.getLast?)
    (fun hr => absurd hr hp) ?_ ?_ ?_ ?_ h
  · intro reached rest ih hr
    exact hcons .here rest (ih hr)
  · intro reached rest ih hr
    exact hcons .up rest (ih (hc.dropLast (by simp [hr])))
  · intro reached step rest _ hd ih _
    exact hcons step rest (ih hd)
  · rintro reached step _ _ rfl _
    simp

theorem follow_append {reached front mid : List FileName} (h : files.follow reached front = some mid)
    (hm : files.get? mid = some .directory) (back : List FileName) :
    files.follow reached (front ++ back) = files.follow mid back := by
  refine follow_induction
    (motive := fun reached front => files.follow reached (front ++ back) = files.follow mid back)
    rfl ?_ ?_ ?_ ?_ h
  · intro reached rest ih
    simpa [follow] using ih
  · intro reached rest ih
    simpa [follow] using ih
  · intro reached step rest hs hd ih
    rw [isPlain_singleton] at hs
    simpa [follow, hs.1, hs.2, hd] using ih
  · rintro reached step _ hd rfl
    exact absurd hm hd

theorem follow_mono {after : FileSystem}
    (hd : ∀ location, files.get? location = some .directory →
      after.get? location = some .directory) {reached steps place : List FileName}
    (h : files.follow reached steps = some place) : after.follow reached steps = some place := by
  refine follow_induction
    (motive := fun reached steps => after.follow reached steps = some place)
    rfl ?_ ?_ ?_ ?_ h
  · intro reached rest ih
    simpa [follow] using ih
  · intro reached rest ih
    simpa [follow] using ih
  · intro reached step rest hs hdir ih
    rw [isPlain_singleton] at hs
    simpa [follow, hs.1, hs.2, hd _ hdir] using ih
  · rintro reached step hs _ rfl
    exact follow_name hs

theorem Closed.follow_plain (hc : files.Closed) {reached steps : List FileName} (hs : IsPlain steps)
    (hget : files.get? (reached ++ steps) ≠ none) :
    files.follow reached steps = some (reached ++ steps) := by
  induction steps generalizing reached with
  | nil => simp [follow]
  | cons step rest ih =>
    have hfirst : IsPlain [step] := fun name hn => hs name (by simp_all)
    cases rest with
    | nil => exact follow_name hfirst
    | cons next rest =>
      have happend : reached ++ [step] ++ (next :: rest) = reached ++ step :: next :: rest := by simp
      have hd : files.get? (reached ++ [step]) = some .directory :=
        hc.directory_of_append (by simp) (happend ▸ hget)
      have hrest : files.follow (reached ++ [step]) (next :: rest) =
          some (reached ++ [step] ++ (next :: rest)) :=
        ih (fun name hn => hs name (by simp [hn])) (happend ▸ hget)
      rw [happend] at hrest
      rw [isPlain_singleton] at hfirst
      rw [follow, if_neg hfirst.1, if_neg hfirst.2, if_pos hd, hrest]

theorem eq_of_follow_plain {reached steps place : List FileName}
    (h : files.follow reached steps = some place) : IsPlain steps → place = reached ++ steps := by
  refine follow_induction (motive := fun reached steps => IsPlain steps → place = reached ++ steps)
    (fun _ => by simp) ?_ ?_ ?_ ?_ h
  · intro reached rest _ hs
    exact absurd rfl (hs .here (by simp)).1
  · intro reached rest _ hs
    exact absurd rfl (hs .up (by simp)).2
  · intro reached step rest _ _ ih hs
    rw [ih fun name hn => hs name (by simp [hn])]
    simp
  · rintro reached step _ _ rfl _
    rfl

namespace IsTree

theorem get?_ne_link (h : files.IsTree) (location : List FileName) (target : List UInt8) :
    files.get? location ≠ some (.link target) := by
  intro hget
  by_cases hl : location = []
  · rw [hl] at hget
    exact absurd hget (by simp [get?])
  · exact absurd (h.unlinked _ (mem_of_get? hl hget)) (by simp [FileEntry.isLink])

theorem isPlain_of_get? (h : files.IsTree) {location : List FileName}
    (hget : files.get? location ≠ none) : IsPlain location := by
  by_cases hl : location = []
  · rw [hl]
    simp [IsPlain]
  · obtain ⟨entry, he⟩ := Option.ne_none_iff_exists'.mp hget
    exact h.plain _ (mem_of_get? hl he)

theorem walk_eq_follow (h : files.IsTree) (through : Bool) {fuel : Nat}
    {reached steps : List FileName} (hf : steps.length < fuel) :
    files.walk through fuel reached steps = files.follow reached steps := by
  induction fuel generalizing reached steps with
  | zero => exact absurd hf (Nat.not_lt_zero _)
  | succ fuel ih =>
    cases steps with
    | nil => rfl
    | cons step rest =>
      have hrest : rest.length < fuel := Nat.lt_of_succ_lt_succ hf
      rw [walk, follow, ih hrest, ih hrest]
      by_cases hdot : step = .here
      · rw [if_pos hdot, if_pos hdot]
      by_cases hup : step = .up
      · rw [if_neg hdot, if_neg hdot, if_pos hup, if_pos hup]
      rw [if_neg hdot, if_neg hdot, if_neg hup, if_neg hup]
      dsimp only
      rw [ih hrest]
      split
      next hd => rw [if_pos hd]
      next target hl => exact absurd hl (h.get?_ne_link _ target)
      next hd _ => rw [if_neg hd]

theorem resolve?_eq (h : files.IsTree) (location : List FileName) :
    files.resolve? location = files.follow [] location :=
  h.walk_eq_follow true (by simp [linkSteps])

theorem resolveOwn?_eq (h : files.IsTree) (location : List FileName) :
    files.resolveOwn? location = files.follow [] location :=
  h.walk_eq_follow false (by simp [linkSteps])

theorem entry?_append (h : files.IsTree) {location place path : List FileName}
    (hr : files.resolve? location = some place) (hd : files.get? place = some .directory)
    (hp : IsPlain path) : FileSystem.entry? files (location ++ path) = files.get? (place ++ path) := by
  rw [ entry?, h.resolve?_eq, follow_append (h.resolve?_eq location ▸ hr) hd]
  cases hget : files.get? (place ++ path) with
  | some entry => rw [h.closed.follow_plain hp (by simp [hget]), Option.bind_some, hget]
  | none =>
    cases hf : files.follow place path with
    | none => rfl
    | some other => rw [eq_of_follow_plain hf hp, Option.bind_some, hget]

theorem entry?_plain (h : files.IsTree) {location : List FileName} (hl : IsPlain location) :
    FileSystem.entry? files location = files.get? location := by
  have hroot : files.resolve? [] = some [] := rfl
  exact h.entry?_append hroot get?_nil hl

theorem put (h : files.IsTree) {place : List FileName} {entry : FileEntry} (hp : IsPlain place)
    (hne : place ≠ []) (hparent : files.get? place.dropLast = some .directory)
    (hlink : entry.isLink = false)
    (hold : files.get? place = some .directory → entry = .directory) :
    (files.put place entry).IsTree := by
  have hmem : ∀ other ∈ (files.put place entry).entries,
      (other ∈ files.entries ∧ other.1 ≠ place) ∨ other = (place, entry) := by
    intro other ho
    simpa [FileSystem.put, FileSystem.erase] using ho
  constructor
  · -- the new entry has a directory above it, and it takes the place of one only if it is one
    intro location name hget
    rw [get?_put hne] at hget ⊢
    by_cases hplace : location ++ [name] = place
    · rw [← hplace, List.dropLast_concat] at hparent
      have hother : location ≠ place := by
        rw [← hplace]
        simp
      rwa [if_neg hother]
    · rw [if_neg hplace] at hget
      have hdirectory := h.closed location name hget
      by_cases hl : location = place
      · rw [if_pos hl, hold (hl ▸ hdirectory)]
      · rwa [if_neg hl]
  · intro other ho
    rcases hmem other ho with ⟨ho, -⟩ | rfl
    · exact h.unlinked other ho
    · exact hlink
  · intro other ho
    rcases hmem other ho with ⟨ho, -⟩ | rfl
    · exact h.plain other ho
    · exact hp
  · have hkept : ((files.erase place).entries.map (·.1)).Nodup :=
      h.nodup.sublist (List.filter_sublist.map _)
    rw [FileSystem.put, List.map_append, List.nodup_append]
    refine ⟨hkept, by simp, ?_⟩
    rintro key hkey other hother rfl
    obtain rfl : key = place := by simpa using hother
    obtain ⟨kept, hk, hname⟩ := List.mem_map.mp hkey
    exact absurd hname (of_decide_eq_true (List.mem_filter.mp hk).2)

theorem erase (h : files.IsTree) {place : List FileName} (hp : files.get? place ≠ some .directory) :
    (files.erase place).IsTree := by
  have hne : place ≠ [] := fun hn => hp (by rw [hn]; rfl)
  have hsub : (files.erase place).entries.Sublist files.entries := List.filter_sublist
  constructor
  · intro location name hget
    rw [get?_erase hne] at hget ⊢
    have hdirectory : files.get? location = some .directory := by
      apply h.closed location name
      intro hnone
      rw [hnone] at hget
      exact hget (by simp)
    have hother : location ≠ place := fun hl => hp (hl ▸ hdirectory)
    rwa [if_neg hother]
  · exact fun entry he => h.unlinked entry (hsub.subset he)
  · exact fun entry he => h.plain entry (hsub.subset he)
  · exact h.nodup.sublist (hsub.map _)

end IsTree

theorem childName?_eq_some {location : List FileName} {entry : List FileName × FileEntry}
    {name : FileName} : childName? location entry = some name ↔ entry.1 = location ++ [name] := by
  rw [childName?]
  constructor
  · intro h
    by_cases hl : entry.1.dropLast = location
    · rw [if_pos hl] at h
      obtain ⟨front, hfront⟩ := List.getLast?_eq_some_iff.mp h
      rw [hfront, List.dropLast_concat] at hl
      rw [hfront, hl]
    · exact absurd h (by simp [hl])
  · intro h
    rw [h, List.dropLast_concat, if_pos rfl, List.getLast?_concat]

theorem mem_children {location : List FileName} {name : FileName} :
    name ∈ files.children location ↔ files.get? (location ++ [name]) ≠ none := by
  rw [children, List.mem_filterMap, ne_eq, get?_eq_none_iff (by simp)]
  simp only [childName?_eq_some, ne_eq, Classical.not_forall, Classical.not_not, exists_prop]

theorem IsTree.children_nodup (h : files.IsTree) (location : List FileName) :
    (files.children location).Nodup := by
  rw [children, List.Nodup, List.pairwise_filterMap]
  have hkeys : files.entries.Pairwise fun a b => a.1 ≠ b.1 := List.pairwise_map.mp h.nodup
  apply hkeys.imp
  intro a b hab name hname other hother heq
  rw [childName?_eq_some] at hname hother
  exact hab (by rw [hname, hother, heq])

end FileSystem
end HookEvents
