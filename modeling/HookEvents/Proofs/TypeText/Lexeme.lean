import HookEvents.Proofs.TypeText.Grammar

namespace HookEvents.TypeText

open Text

def apart (front back : List (Nat × Nat)) : Bool :=
  front.all fun a => back.all fun b => Nat.blt a.2 b.1 || Nat.blt b.2 a.1

theorem not_inRanges_of_apart {front back : List (Nat × Nat)} (h : apart front back = true)
    {c : Char} (hc : inRanges front c = true) : inRanges back c = false := by
  obtain ⟨a, ha, hale, hage⟩ := inRanges_iff.mp hc
  refine Bool.eq_false_iff.mpr fun hin => ?_
  obtain ⟨b, hb, hble, hbge⟩ := inRanges_iff.mp hin
  have hab := List.all_eq_true.mp (List.all_eq_true.mp h a ha) b hb
  simp only [Bool.or_eq_true, Nat.blt_eq] at hab
  omega

def nameRanges : List (Nat × Nat) :=
  (0x30, 0x39) :: (0x40, 0x5A) :: (0x5F, 0x5F) :: (0x61, 0x7A) :: (alphabeticRanges ++ numberRanges)

theorem inRanges_nameRanges {c : Char} (h : isNameStart c = true ∨ isNamePart c = true) :
    inRanges nameRanges c = true := by
  have hunder : c = '_' → c.toNat = 0x5F := by rintro rfl; rfl
  have hat : c = '@' → c.toNat = 0x40 := by rintro rfl; rfl
  have halpha : c.isAlpha = (c.isUpper || c.isLower) := rfl
  have hupper : c.isUpper = true → 0x41 ≤ c.toNat ∧ c.toNat ≤ 0x5A := by
    intro hc
    change decide (c.val ≥ 'A'.val ∧ c.val ≤ 'Z'.val) = true at hc
    simpa [UInt32.le_iff_toNat_le] using hc
  have hlower : c.isLower = true → 0x61 ≤ c.toNat ∧ c.toNat ≤ 0x7A := by
    intro hc
    change (decide (c.val ≥ 'a'.val) && decide (c.val ≤ 'z'.val)) = true at hc
    simpa [UInt32.le_iff_toNat_le] using hc
  have hdigit : c.isDigit = true → 0x30 ≤ c.toNat ∧ c.toNat ≤ 0x39 := by
    simp [Char.isDigit, UInt32.le_iff_toNat_le]
  have hsplit : inRanges nameRanges c = true ↔ (0x30 ≤ c.toNat ∧ c.toNat ≤ 0x39) ∨
      (0x40 ≤ c.toNat ∧ c.toNat ≤ 0x5A) ∨ c.toNat = 0x5F ∨ (0x61 ≤ c.toNat ∧ c.toNat ≤ 0x7A) ∨
      inRanges alphabeticRanges c = true ∨ inRanges numberRanges c = true := by
    simp only [nameRanges, inRanges, List.any_cons, List.any_append, Bool.or_eq_true,
      Bool.and_eq_true, decide_eq_true_eq, Nat.le_antisymm_iff, and_comm]
  simp only [isNameStart, isNamePart, isAlphanumeric, isAlphabetic, isNumber, halpha,
    Bool.or_eq_true, decide_eq_true_eq] at h
  rw [hsplit]
  grind

theorem not_name_of_apart {ranges : List (Nat × Nat)} (h : apart ranges nameRanges = true)
    {c : Char} (hc : inRanges ranges c = true) : isNameStart c = false ∧ isNamePart c = false := by
  have hnot := Bool.eq_false_iff.mp (not_inRanges_of_apart h hc)
  exact ⟨Bool.eq_false_iff.mpr fun hs => hnot (inRanges_nameRanges (.inl hs)),
    Bool.eq_false_iff.mpr fun hp => hnot (inRanges_nameRanges (.inr hp))⟩

theorem not_name_of_isBlank {c : Char} (h : isBlank c = true) :
    isNameStart c = false ∧ isNamePart c = false := not_name_of_apart (by decide +kernel) h

def marks : List Char := ['(', ')', '<', '>', '[', ']', '.', ',', ':', '?', '*']

theorem not_blank_of_mem_marks {c : Char} (h : c ∈ marks) : isBlank c = false := by
  have hmarks : (marks.all fun c => !isBlank c) = true := by decide +kernel
  simpa using List.all_eq_true.mp hmarks c h

theorem not_name_of_mem_marks {c : Char} (h : c ∈ marks) :
    isNameStart c = false ∧ isNamePart c = false := by
  have hranges : inRanges (marks.map fun mark => (mark.toNat, mark.toNat)) c = true :=
    inRanges_iff.mpr
      ⟨(c.toNat, c.toNat), List.mem_map.mpr ⟨c, h, rfl⟩, Nat.le_refl _, Nat.le_refl _⟩
  exact not_name_of_apart (by decide +kernel) hranges

theorem IsIdentifier.not_mem_of_mem_marks {name : String} (h : IsIdentifier name) {c : Char}
    (hc : c ∈ marks) : c ∉ name.toList := by
  obtain ⟨first, rest, hname, hfirst, hrest⟩ := h
  obtain ⟨hstart, hpart⟩ := not_name_of_mem_marks hc
  rw [hname, List.mem_cons]
  rintro (rfl | hin)
  · exact absurd hfirst (by simp [hstart])
  · exact absurd (hrest c hin) (by simp [hpart])

theorem not_blank_of_isNameStart {c : Char} (h : isNameStart c = true) : isBlank c = false := by
  cases hb : isBlank c with
  | false => rfl
  | true => simp [(not_name_of_isBlank hb).1] at h

theorem trimStartChars_append {blanks : List Char} (hb : Blanks blanks) (cs : List Char) :
    trimStartChars (blanks ++ cs) = trimStartChars cs := List.dropWhile_append_of_pos hb

theorem trimStartChars_cons {c : Char} (h : isBlank c = false) (cs : List Char) :
    trimStartChars (c :: cs) = c :: cs := List.dropWhile_cons_of_neg (by simp [h])

theorem trimStartChars_blank {c : Char} (h : isBlank c = true) (cs : List Char) :
    trimStartChars (c :: cs) = trimStartChars cs := List.dropWhile_cons_of_pos h

theorem exists_blanks (cs : List Char) :
    ∃ blanks, Blanks blanks ∧ cs = blanks ++ trimStartChars cs :=
  ⟨cs.takeWhile isBlank, List.all_eq_true.mp List.all_takeWhile,
    List.takeWhile_append_dropWhile.symm⟩

def next (cs : List Char) : Option Char := (trimStartChars cs).head?

theorem next_append {blanks : List Char} (hb : Blanks blanks) (cs : List Char) :
    next (blanks ++ cs) = next cs := by
  rw [next, trimStartChars_append hb, next]

theorem next_cons {c : Char} (h : isBlank c = false) (cs : List Char) :
    next (c :: cs) = some c := by
  rw [next, trimStartChars_cons h, List.head?_cons]

theorem eat_eq_some_iff {c : Char} (hc : c ∈ marks) {cs rest : List Char} :
    eat c cs = some rest ↔ ∃ blanks, Blanks blanks ∧ cs = blanks ++ c :: rest := by
  constructor
  · intro h
    obtain ⟨blanks, hb, hcs⟩ := exists_blanks cs
    rw [eat] at h
    split at h
    next d tail ht =>
      split at h
      next hd =>
        obtain rfl := Option.some.inj h
        rw [ht, hd] at hcs
        exact ⟨blanks, hb, hcs⟩
      · exact absurd h (by simp)
    · exact absurd h (by simp)
  · rintro ⟨blanks, hb, rfl⟩
    simp [eat, trimStartChars_append hb, trimStartChars_cons (not_blank_of_mem_marks hc)]

theorem eat_eq_none {c : Char} {cs : List Char} (h : next cs ≠ some c) : eat c cs = none := by
  rw [eat]
  split
  next d tail ht =>
    have hd : d ≠ c := by
      rintro rfl
      exact h (by rw [next, ht, List.head?_cons])
    simp [hd]
  · rfl

theorem eatColons_eq_some_iff {cs rest : List Char} :
    eatColons cs = some rest ↔ ∃ blanks, Blanks blanks ∧ cs = blanks ++ ':' :: ':' :: rest := by
  constructor
  · intro h
    obtain ⟨blanks, hb, hcs⟩ := exists_blanks cs
    rw [eatColons] at h
    split at h
    next tail ht =>
      obtain rfl := Option.some.inj h
      exact ⟨blanks, hb, by rwa [ht] at hcs⟩
    · exact absurd h (by simp)
  · rintro ⟨blanks, hb, rfl⟩
    have hcolon : isBlank ':' = false := not_blank_of_mem_marks (by decide)
    simp [eatColons, trimStartChars_append hb, trimStartChars_cons hcolon]

theorem eatColons_eq_none {cs : List Char} (h : next cs ≠ some ':') : eatColons cs = none := by
  rw [eatColons]
  split
  next tail ht => exact absurd (by rw [next, ht, List.head?_cons]) h
  · rfl

theorem readName_eq_some {cs rest : List Char} {name : String}
    (h : readName cs = some (name, rest)) :
    IsIdentifier name ∧ Spelled Token.EndsAt [.name name] cs rest := by
  obtain ⟨blanks, hb, hcs⟩ := exists_blanks cs
  rw [readName] at h
  split at h
  next c tail ht =>
    split at h
    next hc =>
      obtain ⟨rfl, rfl⟩ := Prod.mk.inj (Option.some.inj h)
      refine ⟨⟨c, tail.takeWhile isNamePart, String.toList_ofList, hc, ?_⟩,
        blanks, tail.dropWhile isNamePart, hb, ?_, ?_, rfl⟩
      · exact List.all_eq_true.mp List.all_takeWhile
      · rw [ht] at hcs
        simpa [Token.chars, List.takeWhile_append_dropWhile] using hcs
      · intro d hd
        have hnot := List.head?_dropWhile_not isNamePart tail
        rw [Option.mem_def.mp hd] at hnot
        exact hnot
    · exact absurd h (by simp)
  · exact absurd h (by simp)

theorem readName_append {name : String} (hn : IsIdentifier name) {blanks : List Char}
    (hb : Blanks blanks) (tail : List Char) :
    ∃ longer,
      readName (blanks ++ (name.toList ++ tail)) = some (longer, tail.dropWhile isNamePart) := by
  obtain ⟨c, cs, hname, hc, hcs⟩ := hn
  rw [readName, trimStartChars_append hb, hname, List.cons_append,
    trimStartChars_cons (not_blank_of_isNameStart hc)]
  simp [hc, List.dropWhile_append_of_pos hcs]

theorem readName_eq_none {cs : List Char} (h : ∀ c ∈ next cs, isNameStart c = false) :
    readName cs = none := by
  rw [readName]
  split
  next c tail ht =>
    have hc := h c (by rw [next, ht, List.head?_cons]; rfl)
    simp [hc]
  · rfl

theorem readSuffixes_blanks {blanks : List Char} (hb : Blanks blanks) (type : TypeText)
    (cs : List Char) : readSuffixes type (blanks ++ cs) = readSuffixes type cs := by
  induction blanks with
  | nil => rfl
  | cons c blanks ih =>
    rw [List.cons_append, readSuffixes, if_pos (hb c (by simp)), ih fun d hd => hb d (by simp [hd])]

theorem readRank_blanks {blanks : List Char} (hb : Blanks blanks) (type : TypeText) (commas : Nat)
    (cs : List Char) : readRank type commas (blanks ++ cs) = readRank type commas cs := by
  induction blanks with
  | nil => rfl
  | cons c blanks ih =>
    rw [List.cons_append, readRank, if_pos (hb c (by simp)), ih fun d hd => hb d (by simp [hd])]

theorem readSuffixes_stop {cs : List Char} (h : ∀ c ∈ next cs, c ∉ ['?', '*', '['])
    (type : TypeText) : readSuffixes type cs = some (type, trimStartChars cs) := by
  induction cs with
  | nil => rfl
  | cons c cs ih =>
    rw [readSuffixes]
    cases hc : isBlank c with
    | true =>
      rw [if_pos rfl, trimStartChars_blank hc]
      exact ih fun d hd => h d (by rwa [next, trimStartChars_blank hc])
    | false =>
      have hmark := h c (by rw [next_cons hc]; rfl)
      simp only [List.mem_cons, List.not_mem_nil, or_false, not_or] at hmark
      simp [hmark, trimStartChars_cons hc]

def Consumes (tokens : List Token) (cs rest : List Char) : Prop :=
  ∃ tail, Spelled Token.EndsAt tokens cs tail ∧ rest = trimStartChars tail

theorem Consumes.blank {tokens : List Token} {cs rest : List Char} (h : Consumes tokens cs rest)
    {c : Char} (hc : isBlank c = true) : Consumes tokens (c :: cs) rest := by
  obtain ⟨tail, hs, hr⟩ := h
  cases tokens with
  | nil =>
    cases hs
    exact ⟨c :: cs, rfl, by rw [trimStartChars_blank hc, hr]⟩
  | cons token tokens =>
    have hb : Blanks [c] := by simpa [Blanks] using hc
    exact ⟨tail, hs.blanks_append hb (by simp), hr⟩

theorem Consumes.mark {tokens : List Token} {cs rest : List Char} (h : Consumes tokens cs rest)
    (c : Char) : Consumes (.mark c :: tokens) (c :: cs) rest := by
  obtain ⟨tail, hs, hr⟩ := h
  exact ⟨tail, ⟨[], cs, by simp [Blanks], rfl, trivial, hs⟩, hr⟩

theorem Consumes.append {tokens more : List Token} {cs mid rest : List Char}
    (h : Consumes tokens cs mid) (hm : Spelled Token.EndsAt more mid rest) (hne : more ≠ []) :
    Spelled Token.EndsAt (tokens ++ more) cs rest := by
  obtain ⟨tail, hs, rfl⟩ := h
  obtain ⟨blanks, hb, ht⟩ := exists_blanks tail
  refine Spelled.append_iff.mpr ⟨tail, hs, ?_⟩
  rw [ht]
  exact hm.blanks_append hb hne

theorem readSuffixes_sound (cs : List Char) :
    (∀ type result rest, readSuffixes type cs = some (result, rest) →
      ∃ suffixes, Derives .suffixes suffixes ∧ result.tokens = type.tokens ++ suffixes ∧
        Consumes suffixes cs rest) ∧
    ∀ type commas result rest, readRank type commas cs = some (result, rest) →
      ∃ more suffixes, Derives .suffixes suffixes ∧
        result.tokens = type.tokens ++ (suffixTokens (.array (commas + more)) ++ suffixes) ∧
        Consumes (List.replicate more (.mark ',') ++ .mark ']' :: suffixes) cs rest := by
  induction cs with
  | nil =>
    refine ⟨fun type result rest h => ?_, fun type commas result rest h => ?_⟩
    · obtain ⟨rfl, rfl⟩ := Prod.mk.inj (Option.some.inj h)
      exact ⟨[], .noSuffix, by simp, [], rfl, rfl⟩
    · exact absurd h (by simp [readRank])
  | cons c cs ih =>
    refine ⟨fun type result rest h => ?_, fun type commas result rest h => ?_⟩
    · rw [readSuffixes] at h
      split at h
      next hc =>
        obtain ⟨suffixes, hd, ht, hs⟩ := ih.1 type result rest h
        exact ⟨suffixes, hd, ht, hs.blank hc⟩
      next hc =>
        split at h
        next hmark =>
          obtain ⟨suffixes, hd, ht, hs⟩ := ih.1 _ result rest h
          refine ⟨_, hd.suffix .nullable, by simp [ht, tokens], ?_⟩
          exact hmark ▸ hs.mark c
        split at h
        next hmark =>
          obtain ⟨suffixes, hd, ht, hs⟩ := ih.1 _ result rest h
          refine ⟨_, hd.suffix .pointer, by simp [ht, tokens], ?_⟩
          exact hmark ▸ hs.mark c
        split at h
        next hmark =>
          obtain ⟨more, suffixes, hd, ht, hs⟩ := ih.2 type 0 result rest h
          refine ⟨_, hd.suffix (.array more), by simpa using ht, ?_⟩
          have hmarks := hs.mark c
          rw [hmark] at hmarks ⊢
          simpa [suffixTokens] using hmarks
        · obtain ⟨rfl, rfl⟩ := Prod.mk.inj (Option.some.inj h)
          refine ⟨[], .noSuffix, by simp, c :: cs, rfl, ?_⟩
          rw [trimStartChars_cons (Bool.eq_false_iff.mpr hc)]
    · rw [readRank] at h
      split at h
      next hc =>
        obtain ⟨more, suffixes, hd, ht, hs⟩ := ih.2 type commas result rest h
        exact ⟨more, suffixes, hd, ht, hs.blank hc⟩
      split at h
      next hmark =>
        obtain ⟨more, suffixes, hd, ht, hs⟩ := ih.2 type (commas + 1) result rest h
        refine ⟨more + 1, suffixes, hd, by rw [ht, Nat.add_right_comm, Nat.add_assoc], ?_⟩
        exact hmark ▸ hs.mark c
      split at h
      next hmark =>
        obtain ⟨suffixes, hd, ht, hs⟩ := ih.1 _ result rest h
        refine ⟨0, suffixes, hd, by simp [ht, tokens], ?_⟩
        exact hmark ▸ hs.mark c
      · exact absurd h (by simp)

section Complete

variable {joint : Token → List Char → Prop} {cs rest : List Char}

theorem readRank_commas {more : Nat} (type : TypeText) (commas : Nat)
    (h : Spelled joint (List.replicate more (.mark ',') ++ [.mark ']']) cs rest) :
    readRank type commas cs = readSuffixes (.suffixed type (.array (commas + more))) rest := by
  induction more generalizing cs commas with
  | zero =>
    obtain ⟨blanks, tail, hb, rfl, -, rfl⟩ := h
    have hblank : isBlank ']' = false := not_blank_of_mem_marks (by decide)
    simp [Token.chars, readRank_blanks hb, readRank, hblank]
  | succ more ih =>
    obtain ⟨blanks, tail, hb, rfl, -, hs⟩ := h
    have hblank : isBlank ',' = false := not_blank_of_mem_marks (by decide)
    have hmore : commas + 1 + more = commas + (more + 1) := by omega
    simp [Token.chars, readRank_blanks hb, readRank, hblank, ih (commas + 1) hs, hmore]

theorem readSuffixes_suffix (suffix : TypeSuffix) (type : TypeText)
    (h : Spelled joint (suffixTokens suffix) cs rest) :
    readSuffixes type cs = readSuffixes (.suffixed type suffix) rest := by
  cases suffix with
  | nullable =>
    obtain ⟨blanks, tail, hb, rfl, -, rfl⟩ := h
    have hblank : isBlank '?' = false := not_blank_of_mem_marks (by decide)
    simp [Token.chars, readSuffixes_blanks hb, readSuffixes, hblank]
  | pointer =>
    obtain ⟨blanks, tail, hb, rfl, -, rfl⟩ := h
    have hblank : isBlank '*' = false := not_blank_of_mem_marks (by decide)
    simp [Token.chars, readSuffixes_blanks hb, readSuffixes, hblank]
  | array commas =>
    obtain ⟨blanks, tail, hb, rfl, -, hs⟩ := h
    have hblank : isBlank '[' = false := not_blank_of_mem_marks (by decide)
    have hrank := readRank_commas type 0 hs
    rw [Nat.zero_add] at hrank
    simp [Token.chars, readSuffixes_blanks hb, readSuffixes, hblank, hrank]

end Complete

end HookEvents.TypeText
