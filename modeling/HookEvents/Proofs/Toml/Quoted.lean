import HookEvents.Toml.Literal
import HookEvents.Toml.Printer

namespace HookEvents.Toml

variable {fuel quotes : Nat} {lines : Bool} {quote c : Char} {taken tail cs rest : List Char}

section Escapes

/-- What stands after the backslash of an escape. It must not look like the end of a line. -/
structure IsEscape (tail : List Char) (c : Char) : Prop where
  decoded : ∀ rest, escape? (tail ++ rest) = some (c, rest)
  noBreak : ∀ rest, dropNewline ((tail ++ rest).dropWhile isBlank) = none

theorem number?_hexDigit {n : Nat} (h : n < 128) :
    number? 16 [hexDigit (n / 4096 % 16), hexDigit (n / 256 % 16), hexDigit (n / 16 % 16),
      hexDigit (n % 16)] = some n := by
  have hall : ∀ n < 128, number? 16 [hexDigit (n / 4096 % 16), hexDigit (n / 256 % 16),
      hexDigit (n / 16 % 16), hexDigit (n % 16)] = some n := by
    decide +kernel
  exact hall n h

theorem codePoint?_digits {digits : List Char} {n : Nat} (hn : number? 16 digits = some n)
    (h : n < 0xD800) (rest : List Char) :
    codePoint? digits.length (digits ++ rest) = some (Char.ofNat n, rest) := by
  have hlength : (guard (digits.length = digits.length) : Option Unit) = some () := if_pos rfl
  have hrange : (guard ((n < 0xD800 || (0xDFFF < n && n < 0x110000)) = true) : Option Unit) =
      some () := if_pos (by simp [h])
  unfold codePoint?
  rw [List.take_left, List.drop_left]
  dsimp only
  rw [hlength, hn, Option.bind_eq_bind, Option.bind_some, Option.bind_eq_bind, Option.bind_some,
    hrange]
  rfl

theorem isEscape_unicode (h : c.toNat < 128) : IsEscape (unicodeEscape c).tail c where
  decoded rest := by
    have hread := codePoint?_digits (number?_hexDigit h) (by omega) rest
    rwa [Char.ofNat_toNat] at hread
  noBreak rest := rfl

theorem needsEscape_lt (h : needsEscape c = true) : c.toNat < 128 := by
  simp only [needsEscape, Bool.or_eq_true, Bool.and_eq_true, decide_eq_true_eq] at h
  omega

theorem isPlain_of_not_needsEscape (h : needsEscape c = false) (hn : c ≠ '\n') :
    isPlain c = true := by
  by_cases ht : c = '\t'
  · rw [ht]
    rfl
  · simp [needsEscape, ht, hn] at h
    simp [isPlain, ht]
    omega

theorem escapeChar_cases (lines : Bool) (quotes : Nat) (c : Char) :
    (escapeChar lines quotes c = [c] ∧ c = '"' ∧ lines = true ∧ quotes < 2) ∨
    (escapeChar lines quotes c = [c] ∧ c ≠ '"' ∧ c ≠ '\\' ∧
      (isPlain c = true ∨ c = '\n' ∧ lines = true)) ∨
    ∃ tail, escapeChar lines quotes c = '\\' :: tail ∧ IsEscape tail c := by
  unfold escapeChar
  by_cases hquote : c = '"'
  · subst hquote
    by_cases hraw : lines && decide (quotes < 2)
    · simp at hraw
      simp [hraw]
    · simp only [hraw]
      exact Or.inr (Or.inr ⟨['"'], rfl, fun _ => rfl, fun _ => rfl⟩)
  by_cases hback : c = '\\'
  · subst hback
    exact Or.inr (Or.inr ⟨['\\'], rfl, fun _ => rfl, fun _ => rfl⟩)
  by_cases hline : c = '\n'
  · subst hline
    cases lines with
    | true => exact Or.inr (Or.inl ⟨rfl, by decide, by decide, Or.inr ⟨rfl, rfl⟩⟩)
    | false => exact Or.inr (Or.inr ⟨['n'], rfl, fun _ => rfl, fun _ => rfl⟩)
  by_cases htab : c = '\t'
  · subst htab
    exact Or.inr (Or.inr ⟨['t'], rfl, fun _ => rfl, fun _ => rfl⟩)
  by_cases hreturn : c = '\r'
  · subst hreturn
    exact Or.inr (Or.inr ⟨['r'], rfl, fun _ => rfl, fun _ => rfl⟩)
  by_cases hbell : c.toNat = 0x08
  · obtain rfl : c = Char.ofNat 8 := by rw [← hbell, Char.ofNat_toNat]
    exact Or.inr (Or.inr ⟨['b'], rfl, fun _ => rfl, fun _ => rfl⟩)
  by_cases hfeed : c.toNat = 0x0C
  · obtain rfl : c = Char.ofNat 12 := by rw [← hfeed, Char.ofNat_toNat]
    exact Or.inr (Or.inr ⟨['f'], rfl, fun _ => rfl, fun _ => rfl⟩)
  simp only [hquote, hback, hline, htab, hreturn, hbell, hfeed, ↓reduceIte]
  cases hescape : needsEscape c with
  | true => exact Or.inr (Or.inr ⟨_, rfl, isEscape_unicode (needsEscape_lt hescape)⟩)
  | false =>
    right
    left
    exact ⟨rfl, hquote, hback, Or.inl (isPlain_of_not_needsEscape hescape hline)⟩

end Escapes

section Line

theorem readBasic_plain (hq : c ≠ '"') (hb : c ≠ '\\') (hp : isPlain c = true) :
    readBasic (fuel + 1) taken (c :: cs) = readBasic fuel (c :: taken) cs := by
  simp [readBasic, hq, hb, hp]

theorem readBasic_escape (h : IsEscape tail c) :
    readBasic (fuel + 1) taken ('\\' :: (tail ++ cs)) = readBasic fuel (c :: taken) cs := by
  simp [readBasic, h.decoded]

theorem readBasic_escapeChars (hf : (escapeChars false quotes cs ++ '"' :: rest).length < fuel) :
    readBasic fuel taken (escapeChars false quotes cs ++ '"' :: rest) =
      some (String.ofList (taken.reverse ++ cs), rest) := by
  induction cs generalizing fuel taken quotes with
  | nil =>
    obtain ⟨fuel, rfl⟩ := Nat.exists_eq_add_one_of_ne_zero (Nat.ne_zero_of_lt hf)
    simp [escapeChars, readBasic]
  | cons c cs ih =>
    obtain ⟨fuel, rfl⟩ := Nat.exists_eq_add_one_of_ne_zero (Nat.ne_zero_of_lt hf)
    simp only [escapeChars, List.append_assoc, List.length_append] at hf ⊢
    rcases escapeChar_cases false quotes c with ⟨-, -, hlines, -⟩ | ⟨hraw, hq, hb, hplain⟩ |
      ⟨tail, hescape, hc⟩
    · exact absurd hlines (by simp)
    · rw [hraw] at hf ⊢
      have hp : isPlain c = true := by simpa using hplain
      rw [List.singleton_append, readBasic_plain hq hb hp, ih]
      · simp
      · simp only [List.length_append, List.length_cons] at hf ⊢
        omega
    · rw [hescape] at hf ⊢
      rw [List.cons_append, readBasic_escape hc, ih]
      · simp
      · simp only [List.length_append, List.length_cons] at hf ⊢
        omega

theorem readLiteral_plain (h : ∀ c ∈ cs, c ≠ '\'' ∧ isPlain c = true) :
    readLiteral taken (cs ++ '\'' :: rest) = some (String.ofList (taken.reverse ++ cs), rest) := by
  induction cs generalizing taken with
  | nil => simp [readLiteral]
  | cons c cs ih =>
    obtain ⟨hq, hp⟩ := h c (by simp)
    rw [List.cons_append, readLiteral, if_neg hq, if_pos hp, ih fun d hd => h d (by simp [hd])]
    simp

end Line

section Lines

/-- The inside of a text over several lines, after some quotes in a row: how a text is written
there. -/
inductive LinesBody (quote : Char) : Nat → List Char → List Char → Prop
  | nil {quotes : Nat} (h : quotes ≤ 2) : LinesBody quote quotes [] []
  | quote {quotes : Nat} {body cs : List Char} (h : LinesBody quote (quotes + 1) body cs) :
      LinesBody quote quotes (quote :: body) (quote :: cs)
  | plain {quotes : Nat} {c : Char} {body cs : List Char} (hquotes : quotes ≤ 2) (hq : c ≠ quote)
      (hb : c ≠ '\\' ∨ quote ≠ '"') (hc : c = '\n' ∨ isPlain c = true)
      (h : LinesBody quote 0 body cs) : LinesBody quote quotes (c :: body) (c :: cs)
  | escape {quotes : Nat} {c : Char} {tail body cs : List Char} (hquotes : quotes ≤ 2)
      (hq : quote = '"') (hc : IsEscape tail c) (h : LinesBody quote 0 body cs) :
      LinesBody quote quotes ('\\' :: (tail ++ body)) (c :: cs)

theorem quotesAt_replicate (n : Nat) (h : cs.head? ≠ some quote) :
    quotesAt quote (List.replicate n quote ++ cs) = n := by
  have hcs : cs.takeWhile (· = quote) = [] := by
    cases cs with
    | nil => rfl
    | cons c cs => exact List.takeWhile_cons_of_neg (by simpa using h)
  rw [quotesAt, List.takeWhile_append_of_pos (by simp), hcs, List.append_nil, List.length_replicate]

theorem readLines_quotes (taken : List Char) (hq : quotes ≤ 2) (h : cs.head? ≠ some quote)
    (hf : (List.replicate quotes quote ++ cs).length < fuel) :
    ∃ left, cs.length < left ∧
      readLines quote fuel taken (List.replicate quotes quote ++ cs) =
        readLines quote left (List.replicate quotes quote ++ taken) cs := by
  cases quotes with
  | zero => exact ⟨fuel, by simpa using hf, rfl⟩
  | succ n =>
    obtain ⟨fuel, rfl⟩ := Nat.exists_eq_add_one_of_ne_zero (Nat.ne_zero_of_lt hf)
    have hcount := quotesAt_replicate (n + 1) h
    refine ⟨fuel, by simp at hf; omega, ?_⟩
    rw [List.replicate_succ, List.cons_append] at hcount ⊢
    rw [readLines, if_pos rfl]
    dsimp only
    rw [hcount, if_pos (by omega)]
    congr 1
    rw [← List.cons_append, ← List.replicate_succ, List.drop_left' (by simp)]

theorem readLines_end (hq : quotes ≤ 2) (h : rest.head? ≠ some quote) :
    readLines quote (fuel + 1) taken
        (List.replicate quotes quote ++ quote :: quote :: quote :: rest) =
      some (String.ofList (taken.reverse ++ List.replicate quotes quote), rest) := by
  have hrun : List.replicate quotes quote ++ quote :: quote :: quote :: rest =
      List.replicate (quotes + 3) quote ++ rest := by
    rw [← List.replicate_append_replicate, List.append_assoc]
    rfl
  have hcount := quotesAt_replicate (quotes + 3) h
  have hdrop : (List.replicate (quotes + 3) quote ++ rest).drop (quotes + 3) = rest :=
    List.drop_left' (by simp)
  rw [hrun]
  rw [List.replicate_succ, List.cons_append] at hcount hdrop ⊢
  rw [readLines, if_pos rfl]
  dsimp only
  rw [hcount, hdrop, if_neg (by omega), if_pos (by omega), Nat.add_sub_cancel]
  simp

theorem readLines_plain (hq : c ≠ quote) (hb : c ≠ '\\' ∨ quote ≠ '"')
    (hc : c = '\n' ∨ isPlain c = true) :
    readLines quote (fuel + 1) taken (c :: cs) = readLines quote fuel (c :: taken) cs := by
  have hescape : (decide (c = '\\') && decide (quote = '"')) = false := by
    rcases hb with hb | hb <;> simp [hb]
  have hreturn : c ≠ '\r' := by
    rintro rfl
    exact absurd hc (by decide)
  have hkept : (decide (c = '\n') || isPlain c) = true := by simpa using hc
  rw [readLines, if_neg hq, hescape, if_neg (by simp), if_neg hreturn, if_pos hkept]

theorem readLines_escape (h : IsEscape tail c) :
    readLines '"' (fuel + 1) taken ('\\' :: (tail ++ cs)) = readLines '"' fuel (c :: taken) cs := by
  rw [readLines, if_neg (by decide), if_pos (by decide), h.noBreak, h.decoded]

theorem readLines_after {body : List Char} (hq : quotes ≤ 2) (h : body.head? ≠ some quote)
    (hf : (List.replicate quotes quote ++ body).length < fuel)
    (hr : ∀ left taken, body.length ≤ left → readLines quote (left + 1) taken body =
      some (String.ofList (taken.reverse ++ cs), rest)) :
    readLines quote fuel taken (List.replicate quotes quote ++ body) =
      some (String.ofList (taken.reverse ++ List.replicate quotes quote ++ cs), rest) := by
  obtain ⟨left, hleft, hread⟩ := readLines_quotes taken hq h hf
  obtain ⟨left, rfl⟩ := Nat.exists_eq_add_one_of_ne_zero (Nat.ne_zero_of_lt hleft)
  rw [hread, hr left _ (by omega)]
  simp

theorem readLines_body {body : List Char} (h : LinesBody quote quotes body cs)
    (hrest : rest.head? ≠ some quote)
    (hf : (List.replicate quotes quote ++ (body ++ quote :: quote :: quote :: rest)).length <
      fuel) :
    readLines quote fuel taken
        (List.replicate quotes quote ++ (body ++ quote :: quote :: quote :: rest)) =
      some (String.ofList (taken.reverse ++ List.replicate quotes quote ++ cs), rest) := by
  -- the quotes in a row are read only where the row ends
  induction h generalizing fuel taken with
  | nil hquotes =>
    obtain ⟨fuel, rfl⟩ := Nat.exists_eq_add_one_of_ne_zero (Nat.ne_zero_of_lt hf)
    rw [List.nil_append, readLines_end hquotes hrest, List.append_nil]
  | @quote quotes body cs _ ih =>
    have hrow : ∀ more, List.replicate quotes quote ++ (quote :: more) =
        List.replicate (quotes + 1) quote ++ more := by
      intro more
      rw [List.replicate_succ', List.append_assoc, List.singleton_append]
    rw [List.cons_append, hrow] at hf ⊢
    rw [ih hf, List.append_assoc, ← hrow, ← List.append_assoc]
  | @plain quotes c body cs hquotes hq hb hc _ ih =>
    rw [List.cons_append] at hf ⊢
    apply readLines_after hquotes (by simpa using hq) hf
    intro left taken hleft
    have hrest : (List.replicate 0 quote ++ (body ++ quote :: quote :: quote :: rest)).length <
        left := by
      simpa using Nat.lt_of_succ_le hleft
    rw [readLines_plain hq hb hc]
    exact (ih hrest).trans (by simp)
  | @escape quotes c tail body cs hquotes hq hc _ ih =>
    subst hq
    rw [List.cons_append, List.append_assoc] at hf ⊢
    apply readLines_after hquotes (by simp) hf
    intro left taken hleft
    have hrest : (List.replicate 0 '"' ++ (body ++ '"' :: '"' :: '"' :: rest)).length < left := by
      simp only [List.length_cons, List.length_append, List.length_replicate] at hleft ⊢
      omega
    rw [readLines_escape hc]
    exact (ih hrest).trans (by simp)

theorem linesBody_escapeChars (cs : List Char) (hq : quotes ≤ 2) :
    LinesBody '"' quotes (escapeChars true quotes cs) cs := by
  induction cs generalizing quotes with
  | nil => exact .nil hq
  | cons c cs ih =>
    simp only [escapeChars, Bool.true_and, decide_eq_true_eq]
    rcases escapeChar_cases true quotes c with ⟨hraw, rfl, -, hlt⟩ | ⟨hraw, hquote, hb, hc⟩ |
      ⟨tail, hescape, hc⟩
    · rw [hraw, if_pos rfl, if_pos hlt]
      exact .quote (ih hlt)
    · rw [hraw, if_neg hquote]
      exact .plain hq hquote (Or.inl hb) (by simpa [or_comm] using hc) (ih (Nat.zero_le 2))
    · have hrun : (if c = '"' then if quotes < 2 then quotes + 1 else 0 else 0) = 0 := by
        split
        next hquote =>
          split
          next hlt =>
            rw [hquote] at hescape
            simp [escapeChar, hlt] at hescape
          · rfl
        · rfl
      rw [hrun, hescape]
      exact .escape hq rfl hc (ih (Nat.zero_le 2))

theorem le_longestRun (quote : Char) (run best : Nat) (cs : List Char) :
    best ≤ longestRun quote run best cs := by
  induction cs generalizing run best with
  | nil => exact Nat.le_refl best
  | cons c cs ih =>
    rw [longestRun]
    split
    · exact Nat.le_trans (Nat.le_max_left best (run + 1)) (ih _ _)
    · exact ih _ _

theorem run_le_longestRun (quote : Char) (run best : Nat) (cs : List Char) :
    run + 1 ≤ longestRun quote run best (quote :: cs) := by
  rw [longestRun, if_pos rfl]
  exact Nat.le_trans (Nat.le_max_right best (run + 1)) (le_longestRun _ _ _ _)

theorem not_mem_of_longestRun {run best : Nat} (h : longestRun quote run best cs = 0) :
    quote ∉ cs := by
  induction cs generalizing run best with
  | nil => exact List.not_mem_nil
  | cons c cs ih =>
    by_cases hc : c = quote
    · have hle := run_le_longestRun c run best cs
      rw [hc] at hle h
      omega
    · rw [longestRun, if_neg hc] at h
      simp [Ne.symm hc, ih h]

theorem linesBody_raw {best : Nat} (hq : quotes ≤ 2) (hrun : longestRun '\'' quotes best cs ≤ 2)
    (hc : ∀ c ∈ cs, needsEscape c = false) : LinesBody '\'' quotes cs cs := by
  induction cs generalizing quotes best with
  | nil => exact .nil hq
  | cons c cs ih =>
    have hcs : ∀ d ∈ cs, needsEscape d = false := fun d hd => hc d (by simp [hd])
    by_cases hquote : c = '\''
    · subst hquote
      have hle := Nat.le_trans (run_le_longestRun '\'' quotes best cs) hrun
      rw [longestRun, if_pos rfl] at hrun
      exact .quote (ih hle hrun hcs)
    · rw [longestRun, if_neg hquote] at hrun
      apply LinesBody.plain hq hquote (Or.inr (by decide)) _ (ih (Nat.zero_le 2) hrun hcs)
      by_cases hn : c = '\n'
      · exact Or.inl hn
      · exact Or.inr (isPlain_of_not_needsEscape (hc c (by simp)) hn)

end Lines

section Forms

theorem of_textForm_literal (h : textForm cs = .literal) :
    (∀ c ∈ cs, needsEscape c = false) ∧ '\'' ∉ cs ∧ '\n' ∉ cs := by
  unfold textForm at h
  dsimp only at h
  split at h
  · exact absurd h (by decide)
  split at h
  next hform =>
    simp only [Bool.and_eq_true, Bool.not_eq_true', decide_eq_true_eq, List.any_eq_false,
      Bool.not_eq_true, List.contains_eq_mem, decide_eq_false_iff_not] at hform
    exact ⟨hform.1.1, not_mem_of_longestRun hform.1.2, hform.2⟩
  split at h
  · exact absurd h (by decide)
  split at h
  · exact absurd h (by decide)
  split at h
  · exact absurd h (by decide)
  · exact absurd h (by decide)

theorem of_textForm_literalLines (h : textForm cs = .literalLines) :
    (∀ c ∈ cs, needsEscape c = false) ∧ longestRun '\'' 0 0 cs ≤ 2 := by
  unfold textForm at h
  dsimp only at h
  split at h
  · exact absurd h (by decide)
  split at h
  · exact absurd h (by decide)
  split at h
  · exact absurd h (by decide)
  split at h
  next hform =>
    simp only [Bool.and_eq_true, Bool.not_eq_true', decide_eq_true_eq, List.any_eq_false,
      Bool.not_eq_true] at hform
    exact hform
  split at h
  · exact absurd h (by decide)
  · exact absurd h (by decide)

theorem dropNewline_eq_none (h : ∀ c ∈ cs.head?, c ≠ '\n' ∧ c ≠ '\r') : dropNewline cs = none := by
  unfold dropNewline
  split
  · exact absurd rfl (h '\n' rfl).1
  · exact absurd rfl (h '\r' rfl).2
  · rfl

theorem LinesBody.head {body : List Char} (h : LinesBody quote quotes body cs)
    (hq : quote ≠ '\n' ∧ quote ≠ '\r') (hn : '\n' ∉ cs) :
    ∀ c ∈ (body ++ quote :: rest).head?, c ≠ '\n' ∧ c ≠ '\r' := by
  intro c hc
  cases h with
  | nil => exact Option.some.inj hc ▸ hq
  | quote => exact Option.some.inj hc ▸ hq
  | plain _ _ _ hplain =>
    obtain rfl := Option.some.inj hc
    refine ⟨fun hline => hn (by simp [hline]), ?_⟩
    rintro rfl
    exact absurd hplain (by decide)
  | escape =>
    obtain rfl := Option.some.inj hc
    exact ⟨by decide, by decide⟩

theorem readText?_lines {body : List Char} (hq : quote = '"' ∨ quote = '\'')
    (h : LinesBody quote 0 body cs) (hrest : rest.head? ≠ some quote) :
    readText? (quote :: quote :: quote :: ((if '\n' ∈ cs then ['\n'] else []) ++
      (body ++ quote :: quote :: quote :: rest))) = some (String.ofList cs, rest) := by
  generalize hinner : (if '\n' ∈ cs then ['\n'] else []) ++
    (body ++ quote :: quote :: quote :: rest) = inner
  -- a line break after the opening quotes is there exactly if it must be dropped
  have hopen : (dropNewline inner).getD inner = body ++ quote :: quote :: quote :: rest := by
    rw [← hinner]
    by_cases hn : '\n' ∈ cs
    · rw [if_pos hn]
      rfl
    · have hhead : ∀ c ∈ (body ++ quote :: quote :: quote :: rest).head?, c ≠ '\n' ∧ c ≠ '\r' :=
        h.head (by rcases hq with rfl | rfl <;> decide) hn
      rw [if_neg hn, List.nil_append, dropNewline_eq_none hhead, Option.getD_none]
  have hread : readLines quote (inner.length + 1) [] ((dropNewline inner).getD inner) =
      some (String.ofList cs, rest) := by
    rw [hopen]
    refine readLines_body h hrest ?_
    rw [← hinner]
    simp only [List.replicate_zero, List.nil_append, List.length_append]
    omega
  rcases hq with rfl | rfl
  · exact hread
  · exact hread

theorem readText?_double (h : ∀ more, cs ≠ '"' :: '"' :: more) :
    readText? ('"' :: cs) = readBasic (cs.length + 1) [] cs := by
  unfold readText?
  dsimp only
  split
  next more hmore => exact absurd (List.cons.inj hmore).2 (h more)
  next hmore => exact absurd (List.cons.inj hmore).1 (by decide)
  next hmore => rw [(List.cons.inj hmore).2]
  next hmore => exact absurd (List.cons.inj hmore).1 (by decide)
  next hnone _ => exact absurd rfl (hnone cs)

theorem readText?_single (h : ∀ more, cs ≠ '\'' :: '\'' :: more) :
    readText? ('\'' :: cs) = readLiteral [] cs := by
  unfold readText?
  dsimp only
  split
  next hmore => exact absurd (List.cons.inj hmore).1 (by decide)
  next more hmore => exact absurd (List.cons.inj hmore).2 (h more)
  next hmore => exact absurd (List.cons.inj hmore).1 (by decide)
  next hmore => rw [(List.cons.inj hmore).2]
  next _ hnone => exact absurd rfl (hnone cs)

theorem head_escapeChar (quotes : Nat) (c : Char) :
    ∃ first more, escapeChar false quotes c = first :: more ∧ first ≠ '"' := by
  rcases escapeChar_cases false quotes c with ⟨-, -, hlines, -⟩ | ⟨hraw, hq, -, -⟩ |
    ⟨tail, hescape, -⟩
  · exact absurd hlines (by simp)
  · exact ⟨c, [], hraw, hq⟩
  · exact ⟨'\\', tail, hescape, by decide⟩

theorem readText?_basic (cs : List Char) (h : rest.head? ≠ some '"') :
    readText? ('"' :: (escapeChars false 0 cs ++ '"' :: rest)) = some (String.ofList cs, rest) := by
  rw [readText?_double, readBasic_escapeChars (Nat.lt_succ_self _), List.reverse_nil,
    List.nil_append]
  intro more hmore
  cases cs with
  | nil =>
    rw [(List.cons.inj hmore).2] at h
    exact h rfl
  | cons c cs =>
    obtain ⟨first, others, hfirst, hne⟩ := head_escapeChar 0 c
    rw [escapeChars, hfirst] at hmore
    exact hne (List.cons.inj hmore).1

theorem readText?_literal (hc : ∀ c ∈ cs, needsEscape c = false) (hq : '\'' ∉ cs) (hn : '\n' ∉ cs)
    (h : rest.head? ≠ some '\'') :
    readText? ('\'' :: (cs ++ '\'' :: rest)) = some (String.ofList cs, rest) := by
  have hplain : ∀ c ∈ cs, c ≠ '\'' ∧ isPlain c = true := by
    intro c hmem
    refine ⟨fun hquote => hq (hquote ▸ hmem), ?_⟩
    exact isPlain_of_not_needsEscape (hc c hmem) fun hline => hn (hline ▸ hmem)
  rw [readText?_single, readLiteral_plain hplain, List.reverse_nil, List.nil_append]
  intro more hmore
  cases cs with
  | nil =>
    rw [(List.cons.inj hmore).2] at h
    exact h rfl
  | cons c cs => exact (hplain c (by simp)).1 (List.cons.inj hmore).1

/-- **A text is read back from its quotes**, if no quote follows. -/
theorem readText?_renderText (s : String) (hd : rest.head? ≠ some '"')
    (hs : rest.head? ≠ some '\'') : readText? ((renderText s).toList ++ rest) = some (s, rest) := by
  have hstart : (if '\n' ∈ s.toList then "\n" else "").toList =
      if '\n' ∈ s.toList then ['\n'] else [] := by
    split <;> rfl
  unfold renderText
  dsimp only
  cases hform : textForm s.toList with
  | basic => simpa using readText?_basic s.toList hd
  | literal =>
    obtain ⟨hc, hq, hn⟩ := of_textForm_literal hform
    simpa using readText?_literal hc hq hn hs
  | basicLines =>
    have hread := readText?_lines (Or.inl rfl) (linesBody_escapeChars s.toList (Nat.zero_le 2)) hd
    simpa [hstart] using hread
  | literalLines =>
    obtain ⟨hc, hrun⟩ := of_textForm_literalLines hform
    have hread := readText?_lines (Or.inr rfl) (linesBody_raw (Nat.zero_le 2) hrun hc) hs
    simpa [hstart] using hread

end Forms

end HookEvents.Toml
