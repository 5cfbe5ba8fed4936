import HookEvents.CSharp.TokenTree
import HookEvents.Proofs.Text.Blank

namespace HookEvents.CSharp

open Text

section Characters

variable {c : Char}

theorem toNat_of_isGap (h : isGap c = true) : c.toNat ≤ 0x20 ∨ 0x80 ≤ c.toNat := by
  simp only [isGap, isBlank, inRanges, blankRanges, List.any_cons, List.any_nil, Bool.or_eq_true,
    Bool.and_eq_true, decide_eq_true_eq, Bool.or_false] at h
  omega

theorem toNat_of_isAlpha (h : c.isAlpha = true) : 0x41 ≤ c.toNat ∧ c.toNat ≤ 0x7A := by
  have hcase : c.isUpper = true ∨ c.isLower = true := Bool.or_eq_true_iff.mp h
  rcases hcase with hupper | hlower
  · obtain ⟨hl, hu⟩ : 'A'.val ≤ c.val ∧ c.val ≤ 'Z'.val := of_decide_eq_true hupper
    rw [UInt32.le_iff_toNat_le] at hl hu
    exact ⟨hl, Nat.le_trans hu (by decide)⟩
  · obtain ⟨hl, hu⟩ := Bool.and_eq_true_iff.mp hlower
    have hl : 'a'.val ≤ c.val := of_decide_eq_true hl
    have hu : c.val ≤ 'z'.val := of_decide_eq_true hu
    rw [UInt32.le_iff_toNat_le] at hl hu
    exact ⟨Nat.le_trans (by decide) hl, hu⟩

theorem toNat_of_isDigit (h : c.isDigit = true) : 0x30 ≤ c.toNat ∧ c.toNat ≤ 0x39 := by
  simpa [Char.isDigit, UInt32.le_iff_toNat_le] using h

theorem of_isWordStart (h : isWordStart c = true) : isGap c = false ∧ 0x40 ≤ c.toNat := by
  simp only [isWordStart, Bool.or_eq_true, Bool.and_eq_true, decide_eq_true_eq,
    Bool.not_eq_true'] at h
  rcases h with (((h | rfl) | rfl) | rfl) | ⟨hlow, hgap⟩
  · have hbounds := toNat_of_isAlpha h
    refine ⟨Bool.eq_false_iff.mpr fun hgap => ?_, by omega⟩
    have hnot := toNat_of_isGap hgap
    omega
  · decide +kernel
  · decide +kernel
  · decide +kernel
  · exact ⟨hgap, by omega⟩

theorem of_isWordPart (h : isWordPart c = true) : isGap c = false ∧ 0x30 ≤ c.toNat := by
  rw [isWordPart, Bool.or_eq_true, Bool.and_eq_true] at h
  rcases h with h | ⟨h, -⟩
  · have hbounds := toNat_of_isDigit h
    refine ⟨Bool.eq_false_iff.mpr fun hgap => ?_, by omega⟩
    have hnot := toNat_of_isGap hgap
    omega
  · obtain ⟨hgap, hlow⟩ := of_isWordStart h
    exact ⟨hgap, by omega⟩

theorem ne_of_toNat_lt {d : Char} (h : d.toNat < c.toNat) : c ≠ d := by
  rintro rfl
  omega

end Characters

def IsWord (text : String) : Prop :=
  ∃ c cs, text.toList = c :: cs ∧ isWordStart c = true ∧ ∀ d ∈ cs, isWordPart d = true

instance : DecidablePred IsWord := fun text =>
  decidable_of_iff
    (text.toList.head?.any isWordStart = true ∧ text.toList.tail.all isWordPart = true)
    (by cases ht : text.toList <;> simp [IsWord, ht, and_assoc])

def wordEnds : List Char := ['.', ';', '(', ')', '{', '}']

def EndsWord (rest : List Char) : Prop := ∀ c ∈ rest.head?, isGap c = true ∨ c ∈ wordEnds

/-- A token that is read as it stands before `rest`. -/
inductive Token.Stands (rest : List Char) : Token → Prop
  | word {leading text : String} (hw : IsWord text) (hr : EndsWord rest) :
    Stands rest ⟨.word, leading, text⟩
  | symbol {leading text : String} {c : Char} (ht : text.toList = [c]) (hc : c = '.' ∨ c = ';')
    (hr : c = '.' → ∀ d ∈ rest.head?, d ≠ '.' ∧ d.isDigit = false) :
    Stands rest ⟨.symbol, leading, text⟩
  | opening {leading text : String} {c : Char} (ht : text.toList = [c])
    (hc : c = '(' ∨ c = '{') : Stands rest ⟨.opening, leading, text⟩
  | closing {leading text : String} {c : Char} (ht : text.toList = [c])
    (hc : c = ')' ∨ c = '}') : Stands rest ⟨.closing, leading, text⟩

def spelled (tokens : List Token) : String :=
  String.join (tokens.map fun token => token.leading ++ token.text)

theorem toList_spelled_cons (token : Token) (tokens : List Token) :
    (spelled (token :: tokens)).toList =
      token.leading.toList ++ (token.text.toList ++ (spelled tokens).toList) := by
  simp [spelled]

def Readable : List Token → Prop
  | [] => True
  | token :: tokens =>
    (∀ c ∈ token.leading.toList, isGap c = true) ∧
      token.Stands (spelled tokens).toList ∧ Readable tokens

section Lexemes

variable {taken rest : List Char} {frames : List Frame}

theorem endsWord_leading {token : Token} {c : Char} {cs : List Char}
    (hl : token.leading.toList = c :: cs) (hc : isGap c = true) (tokens : List Token) :
    EndsWord (spelled (token :: tokens)).toList := by
  rw [toList_spelled_cons, hl]
  intro d hd
  obtain rfl := Option.some.inj hd
  exact Or.inl hc

theorem endsWord_mark {token : Token} {c : Char}
    (hl : ∀ d ∈ token.leading.toList, isGap d = true) (ht : token.text.toList = [c])
    (hc : c ∈ wordEnds) (tokens : List Token) : EndsWord (spelled (token :: tokens)).toList := by
  cases hleading : token.leading.toList with
  | nil =>
    rw [toList_spelled_cons, hleading, ht]
    intro d hd
    obtain rfl := Option.some.inj hd
    exact Or.inr hc
  | cons d cs => exact endsWord_leading hleading (hl d (by simp [hleading])) tokens

theorem EndsWord.not_isWordPart (h : EndsWord rest) : ∀ c ∈ rest.head?, isWordPart c = false := by
  intro c hc
  rcases h c hc with hgap | hmark
  · rw [Bool.eq_false_iff]
    intro hpart
    rw [(of_isWordPart hpart).1] at hgap
    exact absurd hgap (by simp)
  · have hall : wordEnds.all (!isWordPart ·) = true := by decide +kernel
    simpa using List.all_eq_true.mp hall c hmark

theorem EndsWord.ne_quote (h : EndsWord rest) {c : Char} (hc : c ∈ rest.head?) :
    c ≠ '"' ∧ c ≠ '$' := by
  constructor
  · rintro rfl
    exact absurd (h _ hc) (by decide +kernel)
  · rintro rfl
    exact absurd (h _ hc) (by decide +kernel)

theorem lexCode_gap (hne : taken ≠ []) (ht : ∀ c ∈ taken, isGap c = true)
    (hr : ∀ c ∈ rest.head?, isGap c = false) :
    lexCode frames (taken ++ rest) = ⟨none, taken, rest, frames⟩ := by
  have htake := takeWhile_exact ht hr
  have hdrop := dropWhile_exact ht hr
  cases taken with
  | nil => exact absurd rfl hne
  | cons c taken =>
    have hgap := ht c List.mem_cons_self
    have hne {d : Char} (hd : isGap d = false) : c ≠ d := by
      rintro rfl
      exact absurd hgap (by simp [hd])
    rw [List.cons_append] at htake hdrop ⊢
    generalize taken ++ rest = cs at htake hdrop ⊢
    simp [lexCode, hne (d := '/') rfl, hne (d := '#') rfl, hne (d := '"') rfl,
      hne (d := '\'') rfl, hne (d := '@') rfl, hne (d := '$') rfl, hgap, htake, hdrop]

theorem lexCode_word {c : Char} (hc : isWordStart c = true) (ht : ∀ d ∈ taken, isWordPart d = true)
    (hr : EndsWord rest) :
    lexCode frames (c :: (taken ++ rest)) = ⟨some .word, c :: taken, rest, frames⟩ := by
  have htake := takeWhile_exact ht hr.not_isWordPart
  have hdrop := dropWhile_exact ht hr.not_isWordPart
  obtain ⟨hgap, hlow⟩ := of_isWordStart hc
  have hdigit : c.isDigit = false := by
    rw [Bool.eq_false_iff]
    intro hdigit
    have hbounds := toNat_of_isDigit hdigit
    omega
  have hne {d : Char} (hd : d.toNat < 0x40) : c ≠ d := by
    rintro rfl
    omega
  by_cases hat : c = '@'
  · subst hat
    -- before a quote or a dollar the sign would begin a text
    have hnext : ∀ d ∈ (taken ++ rest).head?, d ≠ '"' ∧ d ≠ '$' := by
      cases taken with
      | nil => exact fun d hd => hr.ne_quote hd
      | cons d taken =>
        rintro d ⟨⟩
        have hpart := (of_isWordPart (ht d List.mem_cons_self)).2
        exact ⟨ne_of_toNat_lt (Nat.lt_of_lt_of_le (by decide) hpart),
          ne_of_toNat_lt (Nat.lt_of_lt_of_le (by decide) hpart)⟩
    generalize taken ++ rest = cs at htake hdrop hnext ⊢
    cases cs with
    | nil => simp_all [lexCode]
    | cons d cs =>
      obtain ⟨hquote, hdollar⟩ := hnext d rfl
      simp [lexCode, hquote, hdollar, hgap, hdigit, hc, htake, hdrop]
  · simp [lexCode, hne (d := '/') (by decide), hne (d := '#') (by decide),
      hne (d := '"') (by decide), hne (d := '\'') (by decide), hat, hne (d := '$') (by decide),
      hne (d := '.') (by decide), hgap, hdigit, hc, htake, hdrop]

theorem lexCode_symbol {c : Char} (hc : c = '.' ∨ c = ';')
    (hr : c = '.' → ∀ d ∈ rest.head?, d ≠ '.' ∧ d.isDigit = false) (depth : Nat) :
    lexCode (List.replicate depth .bracket) (c :: rest) =
      ⟨some .symbol, [c], rest, List.replicate depth .bracket⟩ := by
  have hplain : isGap c = false ∧ isWordStart c = false := by
    rcases hc with rfl | rfl <;> decide +kernel
  have hdigit : c = '.' → (rest.head?.getD ' ').isDigit = false := by
    intro hdot
    cases rest with
    | nil => decide
    | cons d rest => exact (hr hdot d rfl).2
  have hsymbol : takeSymbol (c :: rest) = ([c], rest) := by
    rcases hc with rfl | rfl
    · cases rest with
      | nil => decide
      | cons d rest =>
        simp [takeSymbol, longSymbols, List.isPrefixOf, Ne.symm (hr rfl d rfl).1]
    · simp [takeSymbol, longSymbols, List.isPrefixOf]
  rcases hc with rfl | rfl
  all_goals
    cases depth with
    | zero => simp [lexCode, hplain, hdigit, hsymbol]
    | succ depth => simp [lexCode, List.replicate_succ, hplain, hdigit, hsymbol]

theorem lexCode_opening {c : Char} (hc : c = '(' ∨ c = '{') :
    lexCode frames (c :: rest) = ⟨some .opening, [c], rest, .bracket :: frames⟩ := by
  have hplain : isGap c = false ∧ isWordStart c = false := by
    rcases hc with rfl | rfl <;> decide +kernel
  rcases hc with rfl | rfl
  · simp [lexCode, hplain]
  · simp [lexCode, hplain]

theorem lexCode_closing {c : Char} (hc : c = ')' ∨ c = '}') (depth : Nat) :
    lexCode (List.replicate depth .bracket) (c :: rest) =
      ⟨some .closing, [c], rest, List.replicate (depth - 1) .bracket⟩ := by
  have hplain : isGap c = false ∧ isWordStart c = false := by
    rcases hc with rfl | rfl <;> decide +kernel
  rcases hc with rfl | rfl
  all_goals
    cases depth with
    | zero => simp [lexCode, hplain]
    | succ depth => simp [lexCode, List.replicate_succ, hplain]

theorem Token.Stands.lexCode_eq {token : Token} (h : token.Stands rest) (depth : Nat) :
    ∃ inner, lexCode (List.replicate depth .bracket) (token.text.toList ++ rest) =
      ⟨some token.kind, token.text.toList, rest, List.replicate inner .bracket⟩ := by
  cases h with
  | word hw hr =>
    obtain ⟨c, cs, htext, hc, hcs⟩ := hw
    refine ⟨depth, ?_⟩
    rw [htext, List.cons_append, lexCode_word hc hcs hr]
  | symbol ht hc hr =>
    refine ⟨depth, ?_⟩
    rw [ht, List.singleton_append, lexCode_symbol hc hr]
  | opening ht hc =>
    refine ⟨depth + 1, ?_⟩
    rw [ht, List.singleton_append, lexCode_opening hc, List.replicate_succ]
  | closing ht hc =>
    refine ⟨depth - 1, ?_⟩
    rw [ht, List.singleton_append, lexCode_closing hc]

theorem Token.Stands.exists_head {token : Token} (h : token.Stands rest) :
    ∃ c cs, token.text.toList = c :: cs ∧ isGap c = false := by
  cases h with
  | word hw _ =>
    obtain ⟨c, cs, htext, hc, -⟩ := hw
    exact ⟨c, cs, htext, (of_isWordStart hc).1⟩
  | symbol ht hc _ =>
    refine ⟨_, _, ht, ?_⟩
    rcases hc with rfl | rfl <;> decide +kernel
  | opening ht hc | closing ht hc =>
    refine ⟨_, _, ht, ?_⟩
    rcases hc with rfl | rfl <;> decide +kernel

theorem lexeme_replicate (depth : Nat) (cs : List Char) :
    lexeme (List.replicate depth .bracket) cs = lexCode (List.replicate depth .bracket) cs := by
  cases depth with
  | zero => rfl
  | succ depth => rfl

end Lexemes

section Reading

variable {token : Token} {tokens taken : List Token} {depth fuel : Nat}

theorem tokenizeFrom_token {leading rest : List Char} (h : token.Stands rest) :
    ∃ inner, tokenizeFrom (fuel + 1) (List.replicate depth .bracket) leading taken
        (token.text.toList ++ rest) =
      tokenizeFrom fuel (List.replicate inner .bracket) []
        (⟨token.kind, String.ofList leading.reverse, token.text⟩ :: taken) rest := by
  obtain ⟨inner, hlex⟩ := h.lexCode_eq depth
  obtain ⟨c, cs, htext, -⟩ := h.exists_head
  refine ⟨inner, ?_⟩
  rw [tokenizeFrom, if_neg (by simp [htext]), lexeme_replicate, hlex]
  dsimp only
  rw [String.ofList_toList]

theorem tokenizeFrom_gap {gap rest : List Char} (hne : gap ≠ [])
    (hg : ∀ c ∈ gap, isGap c = true) (hr : ∀ c ∈ rest.head?, isGap c = false) :
    tokenizeFrom (fuel + 1) (List.replicate depth .bracket) [] taken (gap ++ rest) =
      tokenizeFrom fuel (List.replicate depth .bracket) gap.reverse taken rest := by
  rw [tokenizeFrom, if_neg (by simp [hne]), lexeme_replicate, lexCode_gap hne hg hr]
  simp [List.reverseAux_eq]

theorem tokenizeFrom_spelled (h : Readable tokens) (hf : (spelled tokens).toList.length ≤ fuel) :
    tokenizeFrom fuel (List.replicate depth .bracket) [] taken (spelled tokens).toList =
      taken.reverse ++ tokens := by
  induction tokens generalizing depth taken fuel with
  | nil => cases fuel <;> simp [tokenizeFrom, spelled]
  | cons token tokens ih =>
    obtain ⟨hleading, hstands, hrest⟩ := h
    obtain ⟨c, cs, htext, hc⟩ := hstands.exists_head
    -- the token itself takes one step, and the gap before it one of its own
    have hstep {fuel : Nat} (leading : List Char)
        (hl : String.ofList leading.reverse = token.leading)
        (hf : (spelled tokens).toList.length ≤ fuel) :
        tokenizeFrom (fuel + 1) (List.replicate depth .bracket) leading taken
          (token.text.toList ++ (spelled tokens).toList) = taken.reverse ++ token :: tokens := by
      obtain ⟨inner, hnext⟩ := tokenizeFrom_token hstands
      rw [hnext, ih hrest hf, hl]
      simp
    rw [toList_spelled_cons] at hf ⊢
    simp only [List.length_append, htext, List.length_cons] at hf
    obtain ⟨fuel, rfl⟩ : ∃ n, fuel = n + 1 := ⟨fuel - 1, by omega⟩
    by_cases hl : token.leading.toList = []
    · rw [hl, List.nil_append]
      exact hstep [] (by rw [← String.toList_inj, hl]; rfl) (by omega)
    · have hpos := List.length_pos_iff.mpr hl
      obtain ⟨fuel, rfl⟩ : ∃ n, fuel = n + 1 := ⟨fuel - 1, by omega⟩
      rw [tokenizeFrom_gap hl hleading (by simp [htext, hc])]
      exact hstep _ (by simp) (by omega)

theorem tokenize_spelled (h : Readable tokens) : tokenize (spelled tokens) = tokens := by
  have hread : tokenizeFrom _ (List.replicate 0 .bracket) [] [] (spelled tokens).toList =
      [].reverse ++ tokens := tokenizeFrom_spelled h (Nat.le_refl _)
  exact hread

end Reading

namespace TokenTree

mutual

def Paired : TokenTree → Prop
  | .leaf token => token.kind ≠ .opening ∧ token.kind ≠ .closing
  | .group opening inner closing =>
    opening.kind = .opening ∧ (∃ token, closing = some token ∧ token.kind = .closing) ∧
      AllPaired inner

def AllPaired : List TokenTree → Prop
  | [] => True
  | tree :: trees => tree.Paired ∧ AllPaired trees

end

theorem tokensOfAllBefore_append (front back : List TokenTree) (rest : List Token) :
    tokensOfAllBefore (front ++ back) rest =
      tokensOfAllBefore front (tokensOfAllBefore back rest) := by
  induction front with
  | nil => rfl
  | cons tree front ih => rw [List.cons_append, tokensOfAllBefore, tokensOfAllBefore, ih]

section Steps

variable {stack : List OpenGroup} {trees : List TokenTree} {token : Token} {rest : List Token}

theorem groupFrom_opening (h : token.kind = .opening) :
    groupFrom stack trees (token :: rest) = groupFrom (⟨trees, token⟩ :: stack) [] rest := by
  rw [groupFrom]
  exact h

theorem groupFrom_closing {last : OpenGroup} (h : token.kind = .closing) :
    groupFrom (last :: stack) trees (token :: rest) =
      groupFrom stack (.group last.opening trees.reverse (some token) :: last.before) rest := by
  rw [groupFrom.eq_def]
  simp [h]

theorem groupFrom_plain (ho : token.kind ≠ .opening) (hc : token.kind ≠ .closing) :
    groupFrom stack trees (token :: rest) = groupFrom stack (.leaf token :: trees) rest := by
  rw [groupFrom.eq_def]
  split <;> simp_all

end Steps

mutual

theorem groupFrom_tokensBefore {tree : TokenTree} (h : tree.Paired) (stack : List OpenGroup)
    (trees : List TokenTree) (rest : List Token) :
    groupFrom stack trees (tree.tokensBefore rest) = groupFrom stack (tree :: trees) rest := by
  cases tree with
  | leaf token =>
    obtain ⟨hopening, hclosing⟩ := h
    rw [tokensBefore, groupFrom_plain hopening hclosing]
  | group opening inner closing =>
    obtain ⟨hopening, ⟨token, rfl, htoken⟩, hinner⟩ := h
    rw [tokensBefore, groupFrom_opening hopening, groupFrom_tokensOfAllBefore hinner,
      Option.toList_some, List.singleton_append, groupFrom_closing htoken]
    simp

theorem groupFrom_tokensOfAllBefore {inner : List TokenTree} (h : AllPaired inner)
    (stack : List OpenGroup) (trees : List TokenTree) (rest : List Token) :
    groupFrom stack trees (tokensOfAllBefore inner rest) =
      groupFrom stack (inner.reverse ++ trees) rest := by
  cases inner with
  | nil => rfl
  | cons tree inner =>
    obtain ⟨htree, hinner⟩ := h
    rw [tokensOfAllBefore, groupFrom_tokensBefore htree, groupFrom_tokensOfAllBefore hinner]
    simp

end

theorem ofTokens_tokensOf {trees : List TokenTree} (h : AllPaired trees) :
    ofTokens (tokensOf trees) = trees := by
  rw [ofTokens, tokensOf, groupFrom_tokensOfAllBefore h, groupFrom, closeAll]
  simp

end TokenTree

end HookEvents.CSharp
