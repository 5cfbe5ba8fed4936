import HookEvents.Proofs.Workspace.Update

namespace HookEvents

open FileSystem

theorem FileSystem.Closed.length_le {files : FileSystem} (h : files.Closed)
    {front back : List FileName} (hget : files.get? (front ++ back) ≠ none) :
    back.length ≤ files.entries.length := by
  -- the places on the way down are distinct, and each has an entry
  let places := (List.range back.length).map fun n => front ++ back.take (n + 1)
  have hnodup : places.Nodup := by
    apply List.pairwise_map.mpr
    apply List.nodup_range.imp_of_mem
    intro n m hn hm hne heq
    rw [List.mem_range] at hn hm
    have hlength := congrArg List.length heq
    simp only [List.length_append, List.length_take] at hlength
    omega
  have hsub : places ⊆ files.entries.map (·.1) := by
    intro place hp
    obtain ⟨n, hn, rfl⟩ := List.mem_map.mp hp
    rw [List.mem_range] at hn
    have hsplit : front ++ back = (front ++ back.take (n + 1)) ++ back.drop (n + 1) := by
      rw [List.append_assoc, List.take_append_drop]
    have hthere : files.get? (front ++ back.take (n + 1)) ≠ none := by
      by_cases hend : back.drop (n + 1) = []
      · rwa [hsplit, hend, List.append_nil] at hget
      · rw [hsplit] at hget
        simp [h.directory_of_append hend hget]
    have hne : front ++ back.take (n + 1) ≠ [] := by
      intro hnil
      have hlength := congrArg List.length hnil
      simp only [List.length_append, List.length_take, List.length_nil] at hlength
      omega
    obtain ⟨entry, he⟩ := Option.ne_none_iff_exists'.mp hthere
    exact List.mem_map.mpr ⟨_, mem_of_get? hne he, rfl⟩
  have hle := hnodup.length_le_of_subset hsub
  simpa [places] using hle

namespace Walk

def foundAt (walk : Walk) (levels : List IgnoreLevel) (path : List FileName)
    (inner : List FileName → List FoundFile) (name : FileName) : List FoundFile :=
  let location := walk.root ++ path ++ [name]
  match walk.files.get? location with
  | some .directory => if admits levels location name true then inner (path ++ [name]) else []
  | some (.file content) =>
    if admits levels location name false then [⟨path ++ [name], content.size⟩] else []
  | _ => []

def below (walk : Walk) : Nat → List IgnoreLevel → List FileName → List FoundFile
  | 0, _, _ => []
  | depth + 1, above, path =>
    let levels := IgnoreLevel.ofDirectory walk.files (walk.root ++ path) :: above
    (walk.files.children (walk.root ++ path)).flatMap
      (walk.foundAt levels path (walk.below depth levels))

variable {walk : Walk}

theorem foundAt_congr {levels : List IgnoreLevel} {path : List FileName} {name : FileName}
    {inner inner' : List FileName → List FoundFile}
    (h : walk.files.get? (walk.root ++ path ++ [name]) = some .directory →
      inner (path ++ [name]) = inner' (path ++ [name])) :
    walk.foundAt levels path inner name = walk.foundAt levels path inner' name := by
  unfold foundAt
  dsimp only
  split
  next hd => rw [h hd]
  · rfl
  · rfl

theorem ownEntry?_eq_get? {files : FileSystem} (h : files.IsTree) {location : List FileName}
    (hl : IsPlain location) : files.ownEntry? location = files.get? location := by
  rw [← h.entry?_plain hl, ownEntry?, h.resolveOwn?_eq, entry?, h.resolve?_eq]

theorem entries_succ (h : walk.files.IsTree) {fuel : Nat} {levels : List IgnoreLevel}
    {path names : List FileName} {name : FileName}
    (hget : walk.files.get? (walk.root ++ path ++ [name]) ≠ none) :
    walk.entries (fuel + 1) levels path (name :: names) =
      walk.foundAt levels path (walk.directory fuel levels) name ++
        walk.entries fuel levels path names := by
  have hplain := h.isPlain_of_get? hget
  rw [Walk.entries, inspect, foundAt, ownEntry?_eq_get? h hplain]
  cases hentry : walk.files.get? (walk.root ++ path ++ [name]) with
  | none => exact absurd hentry hget
  | some entry =>
    cases entry with
    | directory => rfl
    | file content => rfl
    | link target => exact absurd hentry (h.get?_ne_link _ target)

theorem directory_succ (h : walk.files.IsTree) {fuel : Nat} {above : List IgnoreLevel}
    {path : List FileName} (hd : walk.files.get? (walk.root ++ path) = some .directory) :
    walk.directory (fuel + 1) above path =
      walk.entries fuel (IgnoreLevel.ofDirectory walk.files (walk.root ++ path) :: above) path
        (walk.files.children (walk.root ++ path)) := by
  have hthere : walk.files.get? (walk.root ++ path) ≠ none := by simp [hd]
  have hresolve : walk.files.resolve? (walk.root ++ path) = some (walk.root ++ path) := by
    rw [h.resolve?_eq]
    exact h.closed.follow_plain (h.isPlain_of_get? hthere) hthere
  rw [directory, hresolve, Option.getD_some]

theorem length_children_le (files : FileSystem) (location : List FileName) :
    (files.children location).length ≤ files.entries.length := by
  exact List.length_filterMap_le _ _

/-- One unit of fuel goes to each name, and what is left has to be enough for the directories. -/
theorem entries_eq_flatMap (h : walk.files.IsTree) {bound fuel : Nat} {levels : List IgnoreLevel}
    {path names : List FileName} {inner : List FileName → List FoundFile}
    (hthere : ∀ name ∈ names, walk.files.get? (walk.root ++ path ++ [name]) ≠ none)
    (hinner : ∀ fuel name, bound ≤ fuel →
      walk.files.get? (walk.root ++ path ++ [name]) = some .directory →
      walk.directory fuel levels (path ++ [name]) = inner (path ++ [name]))
    (hfuel : names.length + bound ≤ fuel) :
    walk.entries fuel levels path names = names.flatMap (walk.foundAt levels path inner) := by
  induction names generalizing fuel with
  | nil =>
    rw [Walk.entries]
    rfl
  | cons name names ih =>
    cases fuel with
    | zero => simp at hfuel
    | succ fuel =>
      rw [List.length_cons] at hfuel
      have hrest : walk.entries fuel levels path names =
          names.flatMap (walk.foundAt levels path inner) :=
        ih (fun other ho => hthere other (by simp [ho])) (by omega)
      rw [entries_succ h (hthere name (by simp)), List.flatMap_cons, hrest]
      congr 1
      exact foundAt_congr (hinner fuel name (by omega))

theorem directory_eq_below (h : walk.files.IsTree) {depth fuel : Nat} {above : List IgnoreLevel}
    {path : List FileName} (hd : walk.files.get? (walk.root ++ path) = some .directory)
    (hdepth : walk.files.entries.length < depth + path.length)
    (hfuel : depth * (walk.files.entries.length + 2) ≤ fuel) :
    walk.directory fuel above path = walk.below depth above path := by
  induction depth generalizing fuel above path with
  | zero =>
    have hthere : walk.files.get? (walk.root ++ path) ≠ none := by simp [hd]
    have hlength := h.closed.length_le hthere
    omega
  | succ depth ih =>
    rw [Nat.succ_mul] at hfuel
    cases fuel with
    | zero => omega
    | succ fuel =>
      have hchildren := length_children_le walk.files (walk.root ++ path)
      rw [directory_succ h hd, below]
      have hbound : (walk.files.children (walk.root ++ path)).length +
          depth * (walk.files.entries.length + 2) ≤ fuel := by omega
      apply entries_eq_flatMap h (fun name => mem_children.mp) _ hbound
      intro left name hleft hdirectory
      rw [List.append_assoc] at hdirectory
      apply ih hdirectory _ hleft
      rw [List.length_append, List.length_singleton]
      omega

-- the way to a directory is no longer than there are entries, so the depth does not count
theorem below_succ (h : walk.files.IsTree) {depth : Nat} {above : List IgnoreLevel}
    {path : List FileName} (hd : walk.files.get? (walk.root ++ path) = some .directory)
    (hdepth : walk.files.entries.length < depth + path.length) :
    walk.below (depth + 1) above path = walk.below depth above path := by
  induction depth generalizing above path with
  | zero =>
    have hthere : walk.files.get? (walk.root ++ path) ≠ none := by simp [hd]
    have hlength := h.closed.length_le hthere
    omega
  | succ depth ih =>
    rw [below, below]
    generalize IgnoreLevel.ofDirectory walk.files (walk.root ++ path) :: above = levels
    rw [List.flatMap_def, List.flatMap_def]
    congr 1
    apply List.map_congr_left
    intro name _
    apply foundAt_congr
    intro hdirectory
    rw [List.append_assoc] at hdirectory
    apply ih hdirectory
    rw [List.length_append, List.length_singleton]
    omega

theorem found_eq_below (h : walk.files.IsTree)
    (hr : walk.files.get? walk.root = some .directory) {depth : Nat}
    (hdepth : walk.files.entries.length < depth) :
    walk.found = walk.below depth (IgnoreLevel.above walk.files walk.root) [] := by
  have hroot : walk.files.get? (walk.root ++ []) = some .directory := by rwa [List.append_nil]
  induction hdepth with
  | refl =>
    apply directory_eq_below h hroot (by simp)
    exact Nat.mul_le_mul_right _ (Nat.le_succ _)
  | step hlt ih => rw [ih, below_succ h hroot hlt]

end Walk
end HookEvents
