import HookEvents.Text.Split

namespace HookEvents.Text

theorem join_eq_intercalate (sep : String) (parts : List String) :
    join sep parts = sep.intercalate parts := by
  rw [← String.toList_inj]
  simp [join]

theorem join_cons (sep part : String) {parts : List String} (h : parts ≠ []) :
    join sep (part :: parts) = part ++ sep ++ join sep parts := by
  simp only [join_eq_intercalate, String.intercalate_cons_of_ne_nil h]

@[simp]
theorem join_singleton (sep part : String) : join sep [part] = part := by
  simp [join_eq_intercalate]

theorem join_append (sep : String) {front back : List String} (hf : front ≠ []) (hb : back ≠ []) :
    join sep (front ++ back) = join sep front ++ sep ++ join sep back := by
  simp only [join_eq_intercalate, String.intercalate_append_of_ne_nil hf hb]

theorem mem_toList_join {sep part : String} {parts : List String} {c : Char} (hp : part ∈ parts)
    (hc : c ∈ part.toList) : c ∈ (join sep parts).toList := by
  induction parts with
  | nil => exact absurd hp (by simp)
  | cons first parts ih =>
    by_cases hnil : parts = []
    · rw [hnil, List.mem_singleton] at hp
      rwa [hnil, join_singleton, ← hp]
    · rw [join_cons sep first hnil, String.toList_append, String.toList_append]
      rcases List.mem_cons.mp hp with rfl | hp
      · simp [hc]
      · simp [ih hp]

theorem forall_mem_join {p : Char → Prop} {sep : String} {parts : List String}
    (hs : ∀ c ∈ sep.toList, p c) (hp : ∀ part ∈ parts, ∀ c ∈ part.toList, p c) :
    ∀ c ∈ (join sep parts).toList, p c := by
  induction parts with
  | nil => simp [join]
  | cons part parts ih =>
    have hpart := hp part List.mem_cons_self
    by_cases hnil : parts = []
    · rwa [hnil, join_singleton]
    · have hrest := ih fun other ho => hp other (List.mem_cons_of_mem _ ho)
      rw [join_cons sep part hnil, String.toList_append, String.toList_append]
      exact List.forall_mem_append.mpr ⟨List.forall_mem_append.mpr ⟨hpart, hs⟩, hrest⟩

theorem splitChars_eq_splitOn (sep : Char) (cs : List Char) :
    splitChars sep cs = cs.splitOn sep := by
  induction cs with
  | nil => rfl
  | cons c cs ih =>
    rw [splitChars, List.splitOn_cons_eq_if_modifyHead, ih]
    have hne := List.splitOn_ne_nil sep cs
    cases hs : cs.splitOn sep with
    | nil => exact absurd hs hne
    | cons piece pieces => simp

theorem split_of_not_mem {sep : Char} {s : String} (h : sep ∉ s.toList) : split sep s = [s] := by
  simp [split, splitChars_eq_splitOn, List.splitOn_eq_singleton h]

theorem split_append {c : Char} {sep : String} (hs : sep.toList = [c]) (s t : String) :
    split c (s ++ sep ++ t) = split c s ++ split c t := by
  simp only [split, splitChars_eq_splitOn, String.toList_append, hs, List.append_assoc,
    List.singleton_append, List.splitOn_append_cons_self, List.map_append]

theorem split_join {c : Char} {sep : String} (hs : sep.toList = [c]) {parts : List String}
    (h : parts ≠ []) : split c (join sep parts) = parts.flatMap (split c) := by
  induction parts with
  | nil => exact absurd rfl h
  | cons part parts ih =>
    by_cases hp : parts = []
    · simp [hp]
    · rw [join_cons sep part hp, split_append hs, ih hp, List.flatMap_cons]

theorem split_join_of_not_mem {c : Char} {sep : String} (hs : sep.toList = [c])
    {parts : List String} (hp : parts ≠ []) (h : ∀ part ∈ parts, c ∉ part.toList) :
    split c (join sep parts) = parts := by
  rw [split_join hs hp, List.flatMap_def,
    List.map_congr_left fun part hpart => split_of_not_mem (h part hpart), ← List.flatMap_def,
    List.flatMap_singleton']

theorem split_ne_nil (sep : Char) (s : String) : split sep s ≠ [] := by
  simp [split, splitChars_eq_splitOn]

theorem join_split {c : Char} {sep : String} (hs : sep.toList = [c]) (s : String) :
    join sep (split c s) = s := by
  rw [← String.toList_inj, join, split, String.toList_ofList, List.map_map]
  have hid : String.toList ∘ String.ofList = id := by
    funext cs
    exact String.toList_ofList
  rw [hid, List.map_id, splitChars_eq_splitOn, hs]
  exact List.intercalate_splitOn c

theorem not_mem_of_mem_split {sep : Char} {s piece : String} (h : piece ∈ split sep s) :
    sep ∉ piece.toList := by
  simp only [split, List.mem_map] at h
  obtain ⟨cs, hcs, rfl⟩ := h
  rw [String.toList_ofList]
  generalize s.toList = text at hcs
  induction text generalizing cs with
  | nil => simp_all [splitChars]
  | cons c text ih =>
    rw [splitChars] at hcs
    split at hcs
    · rcases List.mem_cons.mp hcs with rfl | hcs
      · simp
      · exact ih cs hcs
    next hc =>
      split at hcs
      next hnil => simp_all [splitChars_eq_splitOn]
      next piece pieces hsplit =>
        rcases List.mem_cons.mp hcs with rfl | hcs
        · have hp := ih piece (by simp [hsplit])
          simp [hp, Ne.symm hc]
        · exact ih cs (by simp [hsplit, hcs])

theorem split_lines {c : Char} {sep : String} (hs : sep.toList = [c]) {lines : List String}
    (h : ∀ line ∈ lines, c ∉ line.toList) :
    split c (String.join (lines.map (· ++ sep))) = lines ++ [""] := by
  induction lines with
  | nil => rfl
  | cons line lines ih =>
    rw [List.map_cons, String.join_cons, split_append hs, split_of_not_mem (h line (by simp)),
      ih fun other ho => h other (by simp [ho])]
    rfl

theorem dropStartChars_eq_some {start cs rest : List Char} :
    dropStartChars start cs = some rest ↔ cs = start ++ rest := by
  induction start generalizing cs with
  | nil => simp [dropStartChars]
  | cons s start ih =>
    cases cs with
    | nil => simp [dropStartChars]
    | cons c cs =>
      by_cases hc : s = c
      · simp [dropStartChars, hc, ih]
      · simp [dropStartChars, hc, Ne.symm hc]

theorem dropStart_eq_some {start s rest : String} :
    dropStart start s = some rest ↔ s = start ++ rest := by
  rw [dropStart, Option.map_eq_some_iff]
  constructor
  · rintro ⟨cs, hcs, rfl⟩
    rw [← String.toList_inj, dropStartChars_eq_some.mp hcs]
    simp
  · rintro rfl
    exact ⟨rest.toList, dropStartChars_eq_some.mpr String.toList_append, String.ofList_toList⟩

theorem startsWith_iff {start s : String} : startsWith start s = true ↔ ∃ rest, s = start ++ rest := by
  rw [startsWith, Option.isSome_iff_exists]
  constructor
  · rintro ⟨rest, h⟩
    refine ⟨String.ofList rest, ?_⟩
    rw [← String.toList_inj, dropStartChars_eq_some.mp h]
    simp
  · rintro ⟨rest, rfl⟩
    exact ⟨rest.toList, dropStartChars_eq_some.mpr String.toList_append⟩

theorem endsWith_iff {ending s : String} : endsWith ending s = true ↔ ∃ front, s = front ++ ending := by
  rw [endsWith, Option.isSome_iff_exists]
  constructor
  · rintro ⟨front, h⟩
    refine ⟨String.ofList front.reverse, ?_⟩
    have hs := congrArg List.reverse (dropStartChars_eq_some.mp h)
    rw [List.reverse_reverse, List.reverse_append, List.reverse_reverse] at hs
    rw [← String.toList_inj, hs]
    simp
  · rintro ⟨front, rfl⟩
    refine ⟨front.toList.reverse, dropStartChars_eq_some.mpr ?_⟩
    rw [String.toList_append, List.reverse_append]

theorem splitFirstChars_eq_some {sep : Char} {cs before after : List Char}
    (h : splitFirstChars sep cs = some (before, after)) : cs = before ++ sep :: after := by
  induction cs generalizing before with
  | nil => exact absurd h (by simp [splitFirstChars])
  | cons c cs ih =>
    rw [splitFirstChars] at h
    split at h
    next hc =>
      obtain ⟨rfl, rfl⟩ := Prod.mk.inj (Option.some.inj h)
      rw [hc, List.nil_append]
    · obtain ⟨⟨front, back⟩, hcut, h⟩ := Option.map_eq_some_iff.mp h
      obtain ⟨rfl, rfl⟩ := Prod.mk.inj h
      rw [ih hcut, List.cons_append]

theorem splitFirst_eq_some {c : Char} {sep : String} (hs : sep.toList = [c])
    {s before after : String} (h : splitFirst c s = some (before, after)) :
    s = before ++ (sep ++ after) := by
  obtain ⟨⟨front, back⟩, hcut, h⟩ := Option.map_eq_some_iff.mp h
  obtain ⟨rfl, rfl⟩ := Prod.mk.inj h
  rw [← String.toList_inj, splitFirstChars_eq_some hcut]
  simp [hs]

theorem splitFirst_of_not_mem {c : Char} {s : String} (h : c ∉ s.toList) :
    splitFirst c s = none := by
  rw [splitFirst, Option.map_eq_none_iff]
  cases hcut : splitFirstChars c s.toList with
  | none => rfl
  | some cut => exact absurd (by simp [splitFirstChars_eq_some hcut]) h

theorem splitFirst_append {c : Char} {sep : String} (hs : sep.toList = [c]) {before : String}
    (h : c ∉ before.toList) (after : String) :
    splitFirst c (before ++ sep ++ after) = some (before, after) := by
  have hchars (front back : List Char) (hf : c ∉ front) :
      splitFirstChars c (front ++ c :: back) = some (front, back) := by
    induction front with
    | nil => simp [splitFirstChars]
    | cons d front ih =>
      have hd : d ≠ c := fun he => hf (by simp [he])
      simp [splitFirstChars, hd, ih fun hc => hf (List.mem_cons_of_mem d hc)]
  rw [splitFirst, String.toList_append, String.toList_append, hs, List.append_assoc,
    List.singleton_append, hchars _ _ h]
  simp

section

variable {α : Type} [DecidableEq α] {sep : α}

theorem cutLast_eq_none {as : List α} (h : sep ∉ as) : cutLast sep as = none := by
  induction as with
  | nil => rfl
  | cons a as ih =>
    rw [List.mem_cons, not_or] at h
    simp [cutLast, ih h.2, Ne.symm h.1]

theorem not_mem_of_cutLast {as : List α} (h : cutLast sep as = none) : sep ∉ as := by
  induction as with
  | nil => exact List.not_mem_nil
  | cons a as ih =>
    rw [cutLast] at h
    split at h
    · exact absurd h (by simp)
    next hnone =>
      split at h
      · exact absurd h (by simp)
      next ha =>
        rw [List.mem_cons, not_or]
        exact ⟨Ne.symm ha, ih hnone⟩

theorem cutLast_eq_some {as before after : List α} (h : cutLast sep as = some (before, after)) :
    as = before ++ sep :: after ∧ sep ∉ after := by
  induction as generalizing before with
  | nil => exact absurd h (by simp [cutLast])
  | cons a as ih =>
    rw [cutLast] at h
    split at h
    next front back hcut =>
      obtain ⟨rfl, rfl⟩ := Prod.mk.inj (Option.some.inj h)
      obtain ⟨has, hnot⟩ := ih hcut
      exact ⟨by rw [has, List.cons_append], hnot⟩
    next hnone =>
      split at h
      next ha =>
        obtain ⟨rfl, rfl⟩ := Prod.mk.inj (Option.some.inj h)
        exact ⟨by rw [ha, List.nil_append], not_mem_of_cutLast hnone⟩
      · exact absurd h (by simp)

theorem cutLast_append {after : List α} (h : sep ∉ after) (before : List α) :
    cutLast sep (before ++ sep :: after) = some (before, after) := by
  induction before with
  | nil => simp [cutLast, cutLast_eq_none h]
  | cons a before ih => simp [cutLast, ih]

end

theorem splitLast_eq_some {c : Char} {sep : String} (hs : sep.toList = [c])
    {s before after : String} (h : splitLast c s = some (before, after)) :
    s = before ++ sep ++ after ∧ c ∉ after.toList := by
  obtain ⟨⟨front, back⟩, hcut, h⟩ := Option.map_eq_some_iff.mp h
  obtain ⟨rfl, rfl⟩ := Prod.mk.inj h
  obtain ⟨htext, hnot⟩ := cutLast_eq_some hcut
  refine ⟨?_, by rwa [String.toList_ofList]⟩
  rw [← String.toList_inj, htext]
  simp [hs]

theorem splitLast_of_split {c : Char} {sep : String} (hs : sep.toList = [c]) {s last : String}
    {pieces : List String} (h : split c s = pieces ++ [last]) (hp : pieces ≠ []) :
    splitLast c s = some (join sep pieces, last) := by
  have htext : s.toList = (join sep pieces).toList ++ c :: last.toList := by
    have hjoin := join_split hs s
    rw [h, join_append sep hp (List.cons_ne_nil last []), join_singleton] at hjoin
    simp [← hjoin, hs]
  have hmem : last ∈ split c s := by simp [h]
  have hlast := not_mem_of_mem_split hmem
  rw [splitLast, htext, cutLast_append hlast]
  simp

end HookEvents.Text
