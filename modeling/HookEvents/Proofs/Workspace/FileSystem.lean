import HookEvents.Proofs.Workspace.Path
import HookEvents.Workspace.FileSystem

namespace HookEvents.FileSystem

variable {files : FileSystem}

theorem lookup_cons_of_ne {β : Type} {k other : List FileName} (h : k ≠ other) (value : β)
    (entries : List (List FileName × β)) :
    ((other, value) :: entries).lookup k = entries.lookup k := by
  rw [List.lookup_cons, beq_eq_false_iff_ne.mpr h]

theorem lookup_filter_ne {β : Type} (entries : List (List FileName × β)) (erased k : List FileName) :
    (entries.filter fun entry => entry.1 ≠ erased).lookup k =
      if k = erased then none else entries.lookup k := by
  induction entries with
  | nil => simp
  | cons entry entries ih =>
    obtain ⟨other, value⟩ := entry
    by_cases ho : other = erased
    · rw [List.filter_cons_of_neg (by simp [ho]), ih]
      by_cases hk : k = erased
      · rw [if_pos hk, if_pos hk]
      · rw [if_neg hk, if_neg hk, lookup_cons_of_ne (ho ▸ hk)]
    · rw [List.filter_cons_of_pos (by simp [ho])]
      by_cases hk : k = other
      · rw [hk, List.lookup_cons_self, if_neg ho, List.lookup_cons_self]
      · rw [lookup_cons_of_ne hk, lookup_cons_of_ne hk, ih]

theorem get?_nil : files.get? [] = some .directory := rfl

theorem get?_of_ne {location : List FileName} (h : location ≠ []) :
    files.get? location = files.entries.lookup location := by
  simp [get?, h]

theorem get?_erase {erased : List FileName} (he : erased ≠ []) (location : List FileName) :
    (files.erase erased).get? location =
      if location = erased then none else files.get? location := by
  by_cases hl : location = []
  · simp [get?, hl, Ne.symm he]
  · rw [get?_of_ne hl, get?_of_ne hl]
    exact lookup_filter_ne files.entries erased location

theorem get?_put {place : List FileName} (hp : place ≠ []) (entry : FileEntry)
    (location : List FileName) :
    (files.put place entry).get? location =
      if location = place then some entry else files.get? location := by
  by_cases hl : location = []
  · simp [get?, hl, Ne.symm hp]
  · rw [get?_of_ne hl, get?_of_ne hl]
    change ((files.entries.filter fun other => other.1 ≠ place) ++ [(place, entry)]).lookup
      location = _
    rw [List.lookup_append, lookup_filter_ne]
    by_cases he : location = place
    · simp [he]
    · simp [he, lookup_cons_of_ne he]

def Closed (files : FileSystem) : Prop :=
  ∀ location name, files.get? (location ++ [name]) ≠ none → files.get? location = some .directory

theorem get?_eq_none_iff {location : List FileName} (hl : location ≠ []) :
    files.get? location = none ↔ ∀ entry ∈ files.entries, entry.1 ≠ location := by
  rw [get?_of_ne hl, List.lookup_eq_none_iff]
  simp only [bne_iff_ne, ne_eq]
  exact ⟨fun h entry he hn => h entry he hn.symm, fun h entry he hn => h entry he hn.symm⟩

theorem closed_iff : files.Closed ↔
    ∀ entry ∈ files.entries, files.get? entry.1.dropLast = some .directory := by
  constructor
  · intro h entry he
    rcases List.eq_nil_or_concat entry.1 with hn | ⟨front, last, hn⟩
    · rw [hn]
      rfl
    · rw [List.concat_eq_append] at hn
      rw [hn, List.dropLast_concat]
      apply h front last
      intro hnone
      exact (get?_eq_none_iff (by simp)).mp hnone entry he hn
  · intro h location name hget
    have hsome : ∃ entry ∈ files.entries, entry.1 = location ++ [name] := by
      apply Classical.byContradiction
      intro hnot
      exact hget ((get?_eq_none_iff (by simp)).mpr fun entry he hn => hnot ⟨entry, he, hn⟩)
    obtain ⟨entry, he, hn⟩ := hsome
    have hparent := h entry he
    rwa [hn, List.dropLast_concat] at hparent

instance : DecidablePred Closed := fun _ => decidable_of_iff _ closed_iff.symm

theorem Closed.dropLast (h : files.Closed) {location : List FileName}
    (hl : files.get? location ≠ none) : files.get? location.dropLast = some .directory := by
  rcases List.eq_nil_or_concat location with rfl | ⟨front, last, rfl⟩
  · rfl
  · rw [List.concat_eq_append] at hl ⊢
    rw [List.dropLast_concat]
    exact h front last hl

theorem Closed.walk_ne_link (h : files.Closed) {fuel : Nat} {reached steps place : List FileName}
    (hr : files.get? reached = some .directory) (hw : files.walk true fuel reached steps = some place)
    (target : List UInt8) : files.get? place ≠ some (.link target) := by
  induction fuel generalizing reached steps with
  | zero => simp [walk] at hw
  | succ fuel ih =>
    cases steps with
    | nil =>
      obtain rfl := Option.some.inj hw
      simp [hr]
    | cons step rest =>
      rw [walk] at hw
      split at hw
      · exact ih hr hw
      split at hw
      · exact ih (h.dropLast (by simp [hr])) hw
      dsimp only at hw
      split at hw
      next hd => exact ih hd hw
      next other hl =>
        rw [Bool.not_true, Bool.and_false, if_neg (by simp)] at hw
        split at hw
        · exact ih get?_nil hw
        · exact ih hr hw
      next hd hl =>
        split at hw
        · obtain rfl := Option.some.inj hw
          intro he
          exact hl target he
        · exact absurd hw (by simp)

theorem walk_put {follow : Bool} {fuel : Nat} {reached steps place : List FileName}
    (hw : files.walk follow fuel reached steps = some place) (hp : place ≠ [])
    (hd : files.get? place ≠ some .directory)
    (hl : ∀ target, files.get? place ≠ some (.link target)) (content : FileContent) :
    (files.put place (.file content)).walk follow fuel reached steps = some place := by
  induction fuel generalizing reached steps with
  | zero => simp [walk] at hw
  | succ fuel ih =>
    cases steps with
    | nil => exact hw
    | cons step rest =>
      rw [walk] at hw ⊢
      by_cases hdot : step = .here
      · rw [if_pos hdot] at hw ⊢
        exact ih hw
      by_cases hup : step = .up
      · rw [if_neg hdot, if_pos hup] at hw ⊢
        exact ih hw
      rw [if_neg hdot, if_neg hup] at hw ⊢
      dsimp only at hw ⊢
      rw [get?_put hp]
      by_cases he : reached ++ [step] = place
      · rw [if_pos he]
        split at hw
        next hdir => exact absurd (he ▸ hdir) hd
        next target hlink => exact absurd (he ▸ hlink) (hl target)
        · exact hw
      · rw [if_neg he]
        split at hw
        · exact ih hw
        · split at hw
          next hlast => rw [if_pos hlast]; exact hw
          next hlast => rw [if_neg hlast]; exact ih hw
        · split at hw
          · exact absurd (Option.some.inj hw) he
          · exact absurd hw (by simp)

theorem Closed.readText?_write (h : files.Closed) {location : List FileName} {text : String}
    {written : FileSystem} (hw : files.write? location text = some written) :
    written.readText? location = some text := by
  unfold write? at hw
  obtain ⟨place, hplace, hw⟩ := Option.bind_eq_some_iff.mp hw
  have hlink := h.walk_ne_link get?_nil hplace
  split at hw
  · exact absurd hw (by simp)
  next hd =>
    obtain rfl := Option.some.inj hw
    have hne : place ≠ [] := fun he => hd (by rw [he]; rfl)
    have hresolve := walk_put hplace hne hd hlink (.text text)
    have hentry : FileSystem.entry? (files.put place (.file (.text text))) location =
        some (.file (.text text)) := by
      rw [ entry?, resolve?, hresolve, Option.bind_some, get?_put hne, if_pos rfl]
    rw [readText?, read?, hentry]
    rfl

end HookEvents.FileSystem
