import HookEvents.Text.Blank

namespace HookEvents.Text

section Runs

variable {p : Char → Bool} {taken rest : List Char}

theorem takeWhile_exact (ht : ∀ c ∈ taken, p c = true) (hr : ∀ c ∈ rest.head?, p c = false) :
    (taken ++ rest).takeWhile p = taken := by
  rw [List.takeWhile_append_of_pos ht]
  cases rest with
  | nil => simp
  | cons c rest => simp [hr c rfl]

theorem dropWhile_exact (ht : ∀ c ∈ taken, p c = true) (hr : ∀ c ∈ rest.head?, p c = false) :
    (taken ++ rest).dropWhile p = rest := by
  rw [List.dropWhile_append_of_pos ht]
  cases rest with
  | nil => rfl
  | cons c rest => simp [hr c rfl]

end Runs

theorem trimChars_sublist (cs : List Char) : (trimChars cs).Sublist cs := by
  have hend (ds : List Char) : (trimEndChars ds).Sublist ds := by
    have hs : (ds.reverse.dropWhile isBlank).Sublist ds.reverse := List.dropWhile_sublist isBlank
    simpa [trimEndChars] using hs.reverse
  exact (hend _).trans (List.dropWhile_sublist isBlank)

theorem not_mem_trim {c : Char} {s : String} (h : c ∉ s.toList) : c ∉ (trim s).toList := by
  rw [trim, String.toList_ofList]
  exact fun hc => h ((trimChars_sublist _).subset hc)

theorem dot_not_blank : ∀ c ∈ ".".toList, isBlank c = false := by
  have hdot : isBlank '.' = false := by decide
  simpa using hdot

theorem exists_trimChars (cs : List Char) :
    ∃ front back, (∀ c ∈ front, isBlank c = true) ∧ (∀ c ∈ back, isBlank c = true) ∧
      cs = front ++ (trimChars cs ++ back) := by
  have hend (ds : List Char) :
      ∃ back, (∀ c ∈ back, isBlank c = true) ∧ ds = trimEndChars ds ++ back := by
    refine ⟨(ds.reverse.takeWhile isBlank).reverse, ?_, ?_⟩
    · intro c hc
      exact List.all_eq_true.mp List.all_takeWhile c (List.mem_reverse.mp hc)
    · rw [trimEndChars, ← List.reverse_append, List.takeWhile_append_dropWhile,
        List.reverse_reverse]
  obtain ⟨back, hback, hsplit⟩ := hend (trimStartChars cs)
  refine ⟨cs.takeWhile isBlank, back, List.all_eq_true.mp List.all_takeWhile, hback, ?_⟩
  rw [trimChars, ← hsplit]
  exact List.takeWhile_append_dropWhile.symm

theorem mem_trim {c : Char} {s : String} (h : c ∈ s.toList) (hc : isBlank c = false) :
    c ∈ (trim s).toList := by
  obtain ⟨front, back, hfront, hback, hsplit⟩ := exists_trimChars s.toList
  rw [trim, String.toList_ofList]
  rw [hsplit, List.mem_append, List.mem_append] at h
  rcases h with h | h | h
  · exact absurd (hfront c h) (by simp [hc])
  · exact h
  · exact absurd (hback c h) (by simp [hc])

theorem trimChars_eq {front cs back : List Char} (hf : ∀ c ∈ front, isBlank c = true)
    (hb : ∀ c ∈ back, isBlank c = true) (hh : ∀ c ∈ cs.head?, isBlank c = false)
    (hl : ∀ c ∈ cs.getLast?, isBlank c = false) : trimChars (front ++ (cs ++ back)) = cs := by
  cases cs with
  | nil =>
    have hall : ∀ c ∈ front ++ back, isBlank c = true := List.forall_mem_append.mpr ⟨hf, hb⟩
    have hnone : ((front ++ back) ++ []).dropWhile isBlank = [] :=
      dropWhile_exact hall (by simp)
    rw [List.append_nil] at hnone
    simp [trimChars, trimEndChars, trimStartChars, hnone]
  | cons c cs =>
    have hstart : trimStartChars (front ++ (c :: cs ++ back)) = c :: cs ++ back :=
      dropWhile_exact hf hh
    rw [trimChars, hstart, trimEndChars, List.reverse_append,
      dropWhile_exact (fun c hc => hb c (List.mem_reverse.mp hc)) (by rwa [List.head?_reverse]),
      List.reverse_reverse]

theorem trim_eq {front back : List Char} {s : String} (hf : ∀ c ∈ front, isBlank c = true)
    (hb : ∀ c ∈ back, isBlank c = true) (hh : ∀ c ∈ s.toList.head?, isBlank c = false)
    (hl : ∀ c ∈ s.toList.getLast?, isBlank c = false) :
    trim (String.ofList (front ++ (s.toList ++ back))) = s := by
  rw [trim, String.toList_ofList, trimChars_eq hf hb hh hl, String.ofList_toList]

theorem trim_eq_self {s : String} (hh : ∀ c ∈ s.toList.head?, isBlank c = false)
    (hl : ∀ c ∈ s.toList.getLast?, isBlank c = false) : trim s = s := by
  have htrim : trim (String.ofList ([] ++ (s.toList ++ []))) = s := trim_eq (by simp) (by simp) hh hl
  simpa using htrim

theorem trim_of_not_blank {s : String} (h : ∀ c ∈ s.toList, isBlank c = false) : trim s = s :=
  trim_eq_self (fun c hc => h c (List.mem_of_head? hc)) fun c hc => h c (List.mem_of_getLast? hc)

theorem head_dropWhile_isBlank (cs : List Char) :
    ∀ c ∈ (cs.dropWhile isBlank).head?, isBlank c = false := by
  intro c hc
  have hnot := List.head?_dropWhile_not isBlank cs
  rw [hc] at hnot
  exact hnot

theorem getLast_trimChars (cs : List Char) : ∀ c ∈ (trimChars cs).getLast?, isBlank c = false := by
  rw [trimChars, trimEndChars, List.getLast?_reverse]
  exact head_dropWhile_isBlank _

theorem head_trimChars (cs : List Char) : ∀ c ∈ (trimChars cs).head?, isBlank c = false := by
  -- trimming the end leaves a beginning of what is trimmed at its start
  obtain ⟨back, hback⟩ := List.dropWhile_suffix isBlank (l := (trimStartChars cs).reverse)
  have hstart : trimStartChars cs = trimChars cs ++ back.reverse := by
    rw [trimChars, trimEndChars, ← List.reverse_append, hback, List.reverse_reverse]
  intro c hc
  apply head_dropWhile_isBlank cs
  change c ∈ (trimStartChars cs).head?
  rw [hstart, List.head?_append, hc]
  rfl

@[simp]
theorem trim_trim (s : String) : trim (trim s) = trim s := by
  apply trim_eq_self
  · rw [trim, String.toList_ofList]
    exact head_trimChars _
  · rw [trim, String.toList_ofList]
    exact getLast_trimChars _

theorem trim_ne_empty_iff {s : String} : trim s ≠ "" ↔ ∃ c ∈ s.toList, isBlank c = false := by
  rw [trim, ne_eq, String.ofList_eq_empty_iff]
  constructor
  · intro hne
    obtain ⟨c, hc⟩ := Option.isSome_iff_exists.mp (List.isSome_head?.mpr hne)
    exact ⟨c, (trimChars_sublist _).subset (List.mem_of_head? hc), head_trimChars _ c hc⟩
  · rintro ⟨c, hc, hb⟩ hnil
    have hmem := mem_trim hc hb
    rw [trim, String.toList_ofList, hnil] at hmem
    exact List.not_mem_nil hmem

theorem trim_surrounded {front back : String} (hf : ∀ c ∈ front.toList, isBlank c = true)
    (hb : ∀ c ∈ back.toList, isBlank c = true) (s : String) :
    trim (front ++ s ++ back) = trim s := by
  obtain ⟨before, after, hbefore, hafter, hs⟩ := exists_trimChars s.toList
  have hstart : ∀ c ∈ front.toList ++ before, isBlank c = true :=
    List.forall_mem_append.mpr ⟨hf, hbefore⟩
  have hend : ∀ c ∈ after ++ back.toList, isBlank c = true :=
    List.forall_mem_append.mpr ⟨hafter, hb⟩
  have htext : (front ++ s ++ back).toList =
      (front.toList ++ before) ++ (trimChars s.toList ++ (after ++ back.toList)) := by
    have hpadded := congrArg (fun cs => front.toList ++ (cs ++ back.toList)) hs
    simpa only [String.toList_append, List.append_assoc] using hpadded
  rw [trim, htext, trimChars_eq hstart hend (head_trimChars _) (getLast_trimChars _), trim]

theorem wordsFrom_append {c : Char} (hc : isBlank c = true) (run front back : List Char) :
    wordsFrom run (front ++ c :: back) = wordsFrom run front ++ words back := by
  induction front generalizing run with
  | nil => by_cases hr : run = [] <;> simp [wordsFrom, words, hc, hr]
  | cons d front ih =>
    rw [List.cons_append, wordsFrom, wordsFrom]
    by_cases hd : isBlank d = true
    · by_cases hr : run = [] <;> simp [hd, hr, ih]
    · simp [hd, ih]

theorem wordsFrom_of_not_blank {cs : List Char} (h : ∀ c ∈ cs, isBlank c = false)
    (run : List Char) : wordsFrom run cs = wordsFrom (cs.reverse ++ run) [] := by
  induction cs generalizing run with
  | nil => rfl
  | cons c cs ih =>
    have hrest := ih (fun d hd => h d (List.mem_cons_of_mem _ hd)) (c :: run)
    simp [wordsFrom, h c List.mem_cons_self, hrest]

theorem wordsFrom_ne_nil {run cs : List Char} (h : run ≠ [] ∨ ∃ c ∈ cs, isBlank c = false) :
    wordsFrom run cs ≠ [] := by
  induction cs generalizing run with
  | nil =>
    have hr : run ≠ [] := h.resolve_right (by simp)
    simp [wordsFrom, hr]
  | cons c cs ih =>
    rw [wordsFrom]
    by_cases hc : isBlank c = true
    · by_cases hr : run = []
      · obtain ⟨d, hd, hb⟩ := h.resolve_left (by simp [hr])
        rcases List.mem_cons.mp hd with rfl | hd
        · exact absurd hc (by simp [hb])
        · simpa [hc, hr] using ih (Or.inr ⟨d, hd, hb⟩)
      · simp [hc, hr]
    · rw [if_neg hc]
      exact ih (Or.inl (by simp))

theorem collapse_of_not_blank {s : String} (h : ∀ c ∈ s.toList, isBlank c = false) :
    collapse s = s := by
  have hwords := wordsFrom_of_not_blank h []
  rw [← String.toList_inj, collapse, String.toList_ofList, words, hwords, List.append_nil, wordsFrom]
  by_cases hs : s.toList = [] <;> simp [hs]

theorem space_mem_collapse {s : String} (hh : ∀ c ∈ s.toList.head?, isBlank c = false)
    (hl : ∀ c ∈ s.toList.getLast?, isBlank c = false) {c : Char} (hc : c ∈ s.toList)
    (hb : isBlank c = true) : ' ' ∈ (collapse s).toList := by
  -- a word ends at the blank, and another one begins behind it
  obtain ⟨front, back, hs⟩ := List.append_of_mem hc
  rw [hs] at hh hl
  have hfront : ∃ d ∈ front, isBlank d = false := by
    cases front with
    | nil => exact absurd hb (by simp [hh c rfl])
    | cons d front => exact ⟨d, List.mem_cons_self, hh d rfl⟩
  have hback : ∃ d ∈ back, isBlank d = false := by
    cases hlast : back.getLast? with
    | none => exact absurd hb (by simp [hl c (by simp [List.getLast?_eq_none_iff.mp hlast])])
    | some d => exact ⟨d, List.mem_of_getLast? hlast, hl d (by simp [List.getLast?_cons, hlast])⟩
  rw [collapse, String.toList_ofList, hs, words, wordsFrom_append hb]
  have hmore : words back ≠ [] := wordsFrom_ne_nil (Or.inr hback)
  cases hwords : wordsFrom [] front with
  | nil => exact absurd hwords (wordsFrom_ne_nil (Or.inr hfront))
  | cons word more =>
    rw [List.cons_append, List.intercalate_cons_of_ne_nil (by simp [hmore])]
    simp

theorem mem_wordsFrom {run cs word : List Char} (hr : ∀ c ∈ run, isBlank c = false)
    (h : word ∈ wordsFrom run cs) : word ≠ [] ∧ ∀ c ∈ word, isBlank c = false := by
  induction cs generalizing run with
  | nil =>
    rw [wordsFrom] at h
    split at h
    · exact absurd h List.not_mem_nil
    next hne =>
      rw [List.mem_singleton.mp h]
      exact ⟨by simpa using hne, fun c hc => hr c (List.mem_reverse.mp hc)⟩
  | cons c cs ih =>
    rw [wordsFrom] at h
    split at h
    · split at h
      · exact ih (by simp) h
      next hne =>
        rcases List.mem_cons.mp h with rfl | h
        · exact ⟨by simpa using hne, fun c hc => hr c (List.mem_reverse.mp hc)⟩
        · exact ih (by simp) h
    next hc =>
      exact ih (List.forall_mem_cons.mpr ⟨by simpa using hc, hr⟩) h

theorem words_intercalate {ws : List (List Char)}
    (h : ∀ word ∈ ws, word ≠ [] ∧ ∀ c ∈ word, isBlank c = false) :
    words (List.intercalate [' '] ws) = ws := by
  have hone : ∀ word : List Char, word ≠ [] → (∀ c ∈ word, isBlank c = false) →
      words word = [word] := by
    intro word hne hw
    rw [words, wordsFrom_of_not_blank hw, List.append_nil, wordsFrom]
    simp [hne]
  induction ws with
  | nil => rfl
  | cons word ws ih =>
    obtain ⟨hne, hw⟩ := h word List.mem_cons_self
    have hrest := ih fun other ho => h other (List.mem_cons_of_mem _ ho)
    cases ws with
    | nil => simpa using hone word hne hw
    | cons next ws =>
      have hblank : isBlank ' ' = true := by decide
      rw [List.intercalate_cons_of_ne_nil (List.cons_ne_nil _ _), List.append_assoc,
        List.singleton_append, words, wordsFrom_append hblank, hrest]
      exact congrArg (· ++ _) (hone word hne hw)

theorem words_collapse (s : String) : words (collapse s).toList = words s.toList := by
  rw [collapse, String.toList_ofList]
  exact words_intercalate fun word hw => mem_wordsFrom (by simp) hw

end HookEvents.Text
