import HookEvents.Text.Lowercase

namespace HookEvents.Text

/-- All characters that are not their own lower case. That of `İ` alone has two characters. -/
def changedRuns : List CaseRun := ⟨0x130, 0x130, 1, 0⟩ :: lowercaseRuns

namespace CaseRun

def target (run : CaseRun) (n : Nat) : Nat := (n + run.offset).toNat

def meets (run : CaseRun) (low high : Nat) : Bool := Nat.ble run.first high && Nat.ble low run.last

def points (run : CaseRun) : List Nat :=
  (List.range (run.last + 1 - run.first)).map (run.first + ·)

/-- Whether every lower case that the run gives is its own. Only the runs that meet the range of
these lower cases are searched. -/
def isClear (run : CaseRun) : Bool :=
  (changedRuns.filter (·.meets (run.target run.first) (run.target run.last))).all fun other =>
    run.points.all fun n => !run.covers n || !other.covers (run.target n)

theorem covers_iff {run : CaseRun} {n : Nat} :
    run.covers n = true ↔ run.first ≤ n ∧ n ≤ run.last ∧ (n - run.first) % run.step = 0 := by
  simp [covers, and_assoc]

theorem mem_points {run : CaseRun} {n : Nat} (h : run.covers n = true) : n ∈ run.points := by
  obtain ⟨hfirst, hlast, -⟩ := covers_iff.mp h
  refine List.mem_map.mpr ⟨n - run.first, List.mem_range.mpr ?_, ?_⟩ <;> omega

theorem isClear_of_mem {run : CaseRun} (h : run ∈ lowercaseRuns) : run.isClear = true := by
  have hall : lowercaseRuns.all isClear = true := by decide +kernel
  exact List.all_eq_true.mp hall run h

theorem not_covers_target {run other : CaseRun} (hr : run ∈ lowercaseRuns)
    (ho : other ∈ changedRuns) {n : Nat} (hn : run.covers n = true) :
    other.covers (run.target n) = false := by
  rw [Bool.eq_false_iff]
  intro hcovers
  obtain ⟨hfirst, hlast, -⟩ := covers_iff.mp hn
  obtain ⟨hfirst', hlast', -⟩ := covers_iff.mp hcovers
  have hlow : run.target run.first ≤ run.target n := by
    simp only [target]
    omega
  have hhigh : run.target n ≤ run.target run.last := by
    simp only [target]
    omega
  have hmeets : other.meets (run.target run.first) (run.target run.last) = true := by
    rw [meets, Bool.and_eq_true, Nat.ble_eq, Nat.ble_eq]
    omega
  have hclear := List.all_eq_true.mp (isClear_of_mem hr) other
    (List.mem_filter.mpr ⟨ho, hmeets⟩)
  have hpoint := List.all_eq_true.mp hclear n (mem_points hn)
  rw [hn, hcovers] at hpoint
  exact absurd hpoint (by decide)

end CaseRun

theorem lowerChar_of_not_covers {c : Char}
    (h : ∀ run ∈ changedRuns, run.covers c.toNat = false) : lowerChar c = [c] := by
  have hne : c.toNat ≠ 0x130 := by
    intro heq
    have hrun := h _ List.mem_cons_self
    rw [heq] at hrun
    exact absurd hrun (by decide)
  have hnone : lowercaseRuns.find? (·.covers c.toNat) = none := by
    apply List.find?_eq_none.mpr
    intro run hm
    rw [h run (List.mem_cons_of_mem _ hm)]
    exact Bool.false_ne_true
  rw [lowerChar, if_neg hne, hnone]

theorem lowerChar_of_mem_lowerChar {c d : Char} (h : d ∈ lowerChar c) : lowerChar d = [d] := by
  rw [lowerChar] at h
  split at h
  · rw [List.mem_cons, List.mem_singleton] at h
    rcases h with rfl | rfl <;> decide +kernel
  next hne =>
    split at h
    next run hrun =>
      obtain rfl := List.mem_singleton.mp h
      have hmem := List.mem_of_find?_eq_some hrun
      have hcovers := List.find?_some hrun
      -- A number that is no code point would stand for the character zero.
      by_cases hvalid : (run.target c.toNat).isValidChar
      · have hnat : (Char.ofNat (run.target c.toNat)).toNat = run.target c.toNat :=
          congrArg Char.toNat (dif_pos hvalid)
        apply lowerChar_of_not_covers
        intro other ho
        change other.covers (Char.ofNat (run.target c.toNat)).toNat = false
        rw [hnat]
        exact CaseRun.not_covers_target hmem ho hcovers
      · have hzero : Char.ofNat (run.target c.toNat) = Char.ofNat 0 := dif_neg hvalid
        change lowerChar (Char.ofNat (run.target c.toNat)) = [Char.ofNat (run.target c.toNat)]
        rw [hzero]
        decide +kernel
    next hnone =>
      obtain rfl := List.mem_singleton.mp h
      rw [lowerChar, if_neg hne, hnone]

theorem toLower_of_not_upper {c : Char} (h : c.toNat < 65 ∨ 90 < c.toNat) : c.toLower = c := by
  apply dif_neg
  rintro ⟨hlow, hhigh⟩
  have hlow' : 65 ≤ c.toNat := hlow
  have hhigh' : c.toNat ≤ 90 := hhigh
  omega

theorem lowerChar_ascii {c : Char} (h : c.toNat < 128) : lowerChar c = [c.toLower] := by
  by_cases hupper : 65 ≤ c.toNat ∧ c.toNat ≤ 90
  · have hall : ((List.range' 65 26).all fun n =>
        lowerChar (Char.ofNat n) = [(Char.ofNat n).toLower]) = true := by decide +kernel
    have hc := List.all_eq_true.mp hall c.toNat (List.mem_range'_1.mpr (by omega))
    rw [Char.ofNat_toNat] at hc
    exact of_decide_eq_true hc
  · have hfirst : (changedRuns.all fun run =>
        128 ≤ run.first || (run.first = 65 && run.last = 90)) = true := by decide +kernel
    rw [toLower_of_not_upper (by omega)]
    apply lowerChar_of_not_covers
    intro run hm
    rw [Bool.eq_false_iff]
    intro hcovers
    obtain ⟨hlow, hhigh, -⟩ := CaseRun.covers_iff.mp hcovers
    have hrun := List.all_eq_true.mp hfirst run hm
    simp only [Bool.or_eq_true, Bool.and_eq_true, decide_eq_true_eq] at hrun
    omega

theorem toNat_toLower_lt {c : Char} (h : c.toNat < 128) : c.toLower.toNat < 128 := by
  have hall : ((List.range 128).all fun n => (Char.ofNat n).toLower.toNat < 128) = true := by
    decide +kernel
  have hc := List.all_eq_true.mp hall c.toNat (List.mem_range.mpr h)
  rw [Char.ofNat_toNat] at hc
  exact of_decide_eq_true hc

theorem eq_of_toLower_eq {c d : Char} (h : c.toLower = d) (hd : 128 ≤ d.toNat) : c = d := by
  by_cases hc : c.toNat < 128
  · have hlt := toNat_toLower_lt hc
    rw [h] at hlt
    omega
  · rw [← h, toLower_of_not_upper (by omega)]

theorem toLower_toLower (c : Char) : c.toLower.toLower = c.toLower := by
  by_cases hc : c.toNat < 128
  · have hmem : c.toLower ∈ lowerChar c := by simp [lowerChar_ascii hc]
    have hlower := lowerChar_of_mem_lowerChar hmem
    rw [lowerChar_ascii (toNat_toLower_lt hc)] at hlower
    exact (List.cons.inj hlower).1
  · rw [toLower_of_not_upper (c := c) (by omega), toLower_of_not_upper (by omega)]

theorem lowerAscii_lowerAscii (s : String) : lowerAscii (lowerAscii s) = lowerAscii s := by
  rw [lowerAscii, lowerAscii, String.toList_ofList, List.map_map]
  congr 1
  exact List.map_congr_left fun c _ => toLower_toLower c

theorem lowerChar_of_mem_lowerFrom {before cs : List Char} {d : Char}
    (h : d ∈ lowerFrom before cs) : lowerChar d = [d] := by
  induction cs generalizing before with
  | nil => exact absurd h List.not_mem_nil
  | cons c cs ih =>
    rw [lowerFrom, List.mem_append] at h
    rcases h with h | h
    · split at h
      · split at h
        all_goals
          obtain rfl := List.mem_singleton.mp h
          decide +kernel
      · exact lowerChar_of_mem_lowerChar h
    · exact ih h

theorem lowerFrom_eq_map_toLower {cs : List Char}
    (h : ∀ c ∈ cs, c.toNat < 128 ∨ lowerChar c = [c]) (before : List Char) :
    lowerFrom before cs = cs.map Char.toLower := by
  induction cs generalizing before with
  | nil => rfl
  | cons c cs ih =>
    rw [List.forall_mem_cons] at h
    have hlower : lowerChar c = [c.toLower] := by
      by_cases hc : c.toNat < 128
      · exact lowerChar_ascii hc
      · rw [toLower_of_not_upper (by omega)]
        exact h.1.resolve_left hc
    have hsigma : c.toNat ≠ 0x3A3 := by
      intro heq
      have hc : c = Char.ofNat 0x3A3 := by rw [← heq, Char.ofNat_toNat]
      rw [hc] at hlower
      exact absurd hlower (by decide +kernel)
    rw [lowerFrom, if_neg hsigma, hlower, ih h.2]
    rfl

theorem lowercase_eq_lowerAscii {s : String}
    (h : ∀ c ∈ s.toList, c.toNat < 128 ∨ lowerChar c = [c]) : lowercase s = lowerAscii s := by
  rw [lowercase, lowerFrom_eq_map_toLower h, lowerAscii]

theorem lowerChar_of_lowerAscii_eq {s t : String} (h : lowerAscii (lowercase s) = lowerAscii t)
    {c : Char} (hc : c ∈ t.toList) : c.toNat < 128 ∨ lowerChar c = [c] := by
  by_cases hascii : c.toNat < 128
  · exact .inl hascii
  · right
    have hself : c.toLower = c := toLower_of_not_upper (by omega)
    have hmem : c ∈ (lowerAscii (lowercase s)).toList := by
      rw [h, lowerAscii, String.toList_ofList]
      exact List.mem_map.mpr ⟨c, hc, hself⟩
    rw [lowerAscii, String.toList_ofList] at hmem
    obtain ⟨d, hd, hdc⟩ := List.mem_map.mp hmem
    obtain rfl := eq_of_toLower_eq hdc (by omega)
    rw [lowercase, String.toList_ofList] at hd
    exact lowerChar_of_mem_lowerFrom hd

end HookEvents.Text
