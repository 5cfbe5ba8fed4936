import HookEvents.Proofs.Text.Blank
import HookEvents.Proofs.Text.Split
import HookEvents.Proofs.Toml.Quoted
import HookEvents.Toml.Reader

namespace HookEvents.Toml

open Text

variable {fuel depth : Nat} {c : Char} {cs rest : List Char} {key name : String} {value : Toml}

/-- A text stands for a value at the end of a line. -/
structure Denotes (text : String) (value : Toml) : Prop where
  head : ∀ c ∈ text.toList.head?, isBlank c = false
  read : ∀ fuel rest, text.toList.length < fuel →
    readValue fuel 0 (text.toList ++ '\n' :: rest) = some (value, '\n' :: rest)

section Scalars

theorem takeScalar_line (h : ∀ c ∈ cs, isScalarPart c = true) :
    takeScalar (cs ++ '\n' :: rest) = (cs, '\n' :: rest) := by
  have hline : ∀ c ∈ ('\n' :: rest).head?, isScalarPart c = false := by
    intro c hc
    exact Option.some.inj hc ▸ rfl
  rw [takeScalar, takeWhile_exact h hline, List.drop_left]
  split
  next hblank => exact absurd (List.cons.inj hblank).1 (by decide)
  · rfl

theorem denotes_scalar {text : String} (hne : text.toList ≠ [])
    (h : text.toList.all isScalarPart = true) (hv : scalar? text.toList = some value) :
    Denotes text value := by
  rw [List.all_eq_true] at h
  obtain ⟨c, cs, hcs⟩ := List.exists_cons_of_ne_nil hne
  have hc : isScalarPart c = true := h c (by simp [hcs])
  have hnot : ∀ d, isScalarPart d = false → c ≠ d := by
    rintro d hd rfl
    exact absurd (hc.symm.trans hd) (by simp)
  refine ⟨fun d hd => ?_, fun fuel rest hf => ?_⟩
  · obtain rfl : c = d := by simpa [hcs] using hd
    simp [isBlank, hnot ' ' rfl, hnot '\t' rfl]
  · obtain ⟨fuel, rfl⟩ := Nat.exists_eq_add_one_of_ne_zero (Nat.ne_zero_of_lt hf)
    have htake : takeScalar (text.toList ++ '\n' :: rest) = (text.toList, '\n' :: rest) :=
      takeScalar_line h
    rw [readValue, htake]
    · dsimp only
      rw [hv]
      rfl
    · intro more hmore
      rw [hcs] at hmore
      exact hnot '[' rfl (List.cons.inj hmore).1
    · intro more hmore
      rw [hcs] at hmore
      exact hnot _ (by decide) (List.cons.inj hmore).1
    · intro more hmore
      rw [hcs] at hmore
      exact hnot '"' rfl (List.cons.inj hmore).1
    · intro more hmore
      rw [hcs] at hmore
      exact hnot '\'' rfl (List.cons.inj hmore).1

theorem denotes_bool (b : Bool) : Denotes (renderBool b) (.bool b) := by
  cases b with
  | true => exact denotes_scalar (by decide) (by decide) rfl
  | false => exact denotes_scalar (by decide) (by decide) rfl

theorem digit?_of_isDigit (h : c.isDigit = true) : digit? 10 c = some (c.toNat - '0'.toNat) := by
  have hrange := Char.isDigit_iff_toNat.mp h
  have hlt : c.toNat - '0'.toNat < 10 := by
    have hzero : '0'.toNat = 48 := rfl
    have hnine : '9'.toNat = 57 := rfl
    omega
  simp only [digit?, h, if_true, hlt]

theorem number?_of_isDigit (h : ∀ c ∈ cs, c.isDigit = true) (n : Nat) :
    cs.foldlM (fun n c => (digit? 10 c).map (10 * n + ·)) n = some (Nat.ofDigitChars 10 cs n) := by
  induction cs generalizing n with
  | nil => rfl
  | cons c cs ih =>
    rw [List.foldlM_cons, digit?_of_isDigit (h c (by simp))]
    exact ih (fun d hd => h d (by simp [hd])) _

theorem digitsOf?_of_isDigit (hne : cs ≠ []) (h : ∀ c ∈ cs, c.isDigit = true) :
    digitsOf? 10 cs = some cs := by
  induction cs with
  | nil => exact absurd rfl hne
  | cons c cs ih =>
    have hdigit := digit?_of_isDigit (h c (by simp))
    cases cs with
    | nil => simp [digitsOf?, hdigit]
    | cons d cs =>
      have hd : d ≠ '_' := by
        rintro rfl
        exact absurd (h '_' (by simp)) (by decide)
      have hrest := ih (by simp) fun e he => h e (by simp [he])
      rw [digitsOf?]
      · simp [hdigit, hrest]
      · simp
      · intro more hmore
        exact hd (List.cons.inj hmore).1

theorem head_toDigits {n : Nat} (h : n ≠ 0) : (Nat.toDigits 10 n).head? ≠ some '0' := by
  induction n using Nat.strongRecOn with
  | ind n ih =>
    by_cases hn : n < 10
    · have hall : ∀ n < 10, n ≠ 0 → (Nat.toDigits 10 n).head? ≠ some '0' := by decide
      exact hall n hn h
    · rw [Nat.toDigits_of_base_le (by decide) (by omega), List.head?_append]
      have hhead := ih (n / 10) (by omega) (by omega)
      cases hdigits : (Nat.toDigits 10 (n / 10)).head? with
      | none => exact absurd (List.head?_eq_none_iff.mp hdigits) Nat.toDigits_ne_nil
      | some first =>
        rw [hdigits] at hhead
        simpa using hhead

theorem integer?_toDigits (n : Nat) : integer? (Nat.toDigits 10 n) = some (Int.ofNat n) := by
  have hdigit : ∀ c ∈ Nat.toDigits 10 n, c.isDigit = true :=
    fun c hc => Nat.isDigit_of_mem_toDigits (by decide) (by decide) hc
  have hnot : ∀ d ∈ Nat.toDigits 10 n, d.isDigit = false → False := by
    intro d hd hfalse
    exact absurd ((hdigit d hd).symm.trans hfalse) (by simp)
  have hguard :
      ((Nat.toDigits 10 n).length = 1 || (Nat.toDigits 10 n).head? ≠ some '0') = true := by
    by_cases hn : n = 0
    · simp [hn]
    · simp [head_toDigits hn]
  have hdecimal : decimal? (Nat.toDigits 10 n) = some n := by
    have hnumber := number?_of_isDigit hdigit 0
    rw [Nat.ofDigitChars_toDigits (by decide) (by decide)] at hnumber
    have hpassed : (guard (((Nat.toDigits 10 n).length = 1 ||
        (Nat.toDigits 10 n).head? ≠ some '0') = true) : Option Unit) = some () := if_pos hguard
    rw [decimal?, digitsOf?_of_isDigit Nat.toDigits_ne_nil hdigit, Option.bind_eq_bind,
      Option.bind_some, hpassed]
    exact hnumber
  have hsign : dropSign (Nat.toDigits 10 n) = (false, Nat.toDigits 10 n) := by
    unfold dropSign
    split
    next h => exact (hnot '-' (by simp [h]) rfl).elim
    next h => exact (hnot '+' (by simp [h]) rfl).elim
    · rfl
  unfold integer?
  split
  next h => exact (hnot 'x' (by simp [h]) rfl).elim
  next h => exact (hnot 'o' (by simp [h]) rfl).elim
  next h => exact (hnot 'b' (by simp [h]) rfl).elim
  · rw [hsign]
    dsimp only
    rw [hdecimal]
    rfl

theorem denotes_natural (n : Nat) : Denotes (toString n) (.integer n) := by
  have hlist : (toString n).toList = Nat.toDigits 10 n := Nat.toList_repr
  have hdigit : ∀ c ∈ (toString n).toList, c.isDigit = true := by
    intro c hc
    exact Nat.isDigit_of_mem_toDigits (by decide) (by decide) (hlist ▸ hc)
  apply denotes_scalar
  · rw [hlist]
    exact Nat.toDigits_ne_nil
  · rw [List.all_eq_true]
    intro c hc
    simp [isScalarPart, Char.isAlphanum, hdigit c hc]
  · have htrue : (toString n).toList ≠ "true".toList :=
      fun h => absurd (hdigit 't' (by rw [h]; decide)) (by decide)
    have hfalse : (toString n).toList ≠ "false".toList :=
      fun h => absurd (hdigit 'f' (by rw [h]; decide)) (by decide)
    rw [scalar?, if_neg htrue, if_neg hfalse, hlist, integer?_toDigits]
    rfl

end Scalars

section Texts

theorem exists_renderText (s : String) :
    ∃ quote cs, (renderText s).toList = quote :: cs ∧ (quote = '"' ∨ quote = '\'') := by
  unfold renderText
  dsimp only
  cases textForm s.toList <;> simp

theorem readValue_renderText (s : String) (hd : rest.head? ≠ some '"')
    (hs : rest.head? ≠ some '\'') :
    readValue (fuel + 1) depth ((renderText s).toList ++ rest) = some (.text s, rest) := by
  have hread := readText?_renderText s hd hs
  obtain ⟨quote, cs, hcs, hq⟩ := exists_renderText s
  rw [hcs, List.cons_append] at hread ⊢
  rcases hq with rfl | rfl
  · rw [readValue, hread]
    rfl
  · rw [readValue, hread]
    rfl

theorem denotes_text (s : String) : Denotes (renderText s) (.text s) := by
  refine ⟨fun c hc => ?_, fun fuel rest hf => ?_⟩
  · obtain ⟨quote, cs, hcs, hq⟩ := exists_renderText s
    obtain rfl : quote = c := by simpa [hcs] using hc
    rcases hq with rfl | rfl <;> rfl
  · obtain ⟨fuel, rfl⟩ := Nat.exists_eq_add_one_of_ne_zero (Nat.ne_zero_of_lt hf)
    exact readValue_renderText s (by simp) (by simp)

theorem dropFiller_cons (hb : isBlank c = false) (hc : c ≠ '#') (hn : c ≠ '\n') (hr : c ≠ '\r') :
    dropFiller fuel (c :: cs) = some (c :: cs) := by
  cases fuel with
  | zero => rfl
  | succ fuel =>
    have hcomment : dropComment (c :: cs) = some (c :: cs) := by
      unfold dropComment
      split
      next h => exact absurd (List.cons.inj h).1 hc
      · rfl
    have hline : dropNewline (c :: cs) = none := by
      apply dropNewline_eq_none
      intro d hd
      exact Option.some.inj hd ▸ ⟨hn, hr⟩
    rw [dropFiller, List.dropWhile_cons_of_neg (by simp [hb]), hcomment]
    simp [hline]

theorem dropFiller_renderText (s : String) :
    dropFiller fuel ((renderText s).toList ++ rest) = some ((renderText s).toList ++ rest) := by
  obtain ⟨quote, cs, hcs, hq⟩ := exists_renderText s
  rw [hcs, List.cons_append]
  rcases hq with rfl | rfl
  · exact dropFiller_cons rfl (by decide) (by decide) (by decide)
  · exact dropFiller_cons rfl (by decide) (by decide) (by decide)

theorem dropFiller_newline : dropFiller (fuel + 1) ('\n' :: cs) = dropFiller fuel cs := rfl

theorem dropFiller_blank : dropFiller (fuel + 1) (' ' :: cs) = dropFiller (fuel + 1) cs := rfl

theorem readItems_close (hc : dropFiller fuel cs = some (']' :: rest)) :
    readItems (fuel + 1) depth cs = some ([], rest) := by
  rw [readItems, hc]
  rfl

theorem readItems_last (s : String)
    (hc : dropFiller (fuel + 1) cs = some ((renderText s).toList ++ ']' :: rest)) :
    readItems (fuel + 2) depth cs = some ([.text s], rest) := by
  have hread : readValue (fuel + 1) depth ((renderText s).toList ++ ']' :: rest) =
      some (.text s, ']' :: rest) := readValue_renderText s (by simp) (by simp)
  have hfiller : dropFiller (fuel + 1) (']' :: rest) = some (']' :: rest) :=
    dropFiller_cons rfl (by decide) (by decide) (by decide)
  obtain ⟨quote, more, hmore, hq⟩ := exists_renderText s
  rw [hmore, List.cons_append] at hc hread
  rw [readItems, hc]
  rcases hq with rfl | rfl <;> simp [hread, hfiller]

theorem readItems_comma (s : String) {items : List Toml} {after : List Char}
    (hc : dropFiller (fuel + 1) cs = some ((renderText s).toList ++ ',' :: rest))
    (hr : readItems (fuel + 1) depth rest = some (items, after)) :
    readItems (fuel + 2) depth cs = some (.text s :: items, after) := by
  have hread : readValue (fuel + 1) depth ((renderText s).toList ++ ',' :: rest) =
      some (.text s, ',' :: rest) := readValue_renderText s (by simp) (by simp)
  have hfiller : dropFiller (fuel + 1) (',' :: rest) = some (',' :: rest) :=
    dropFiller_cons rfl (by decide) (by decide) (by decide)
  obtain ⟨quote, more, hmore, hq⟩ := exists_renderText s
  rw [hmore, List.cons_append] at hc hread
  rw [readItems, hc]
  rcases hq with rfl | rfl <;> simp [hread, hfiller, hr]

def itemLine (item : String) : List Char :=
  "    ".toList ++ ((renderText item).toList ++ [',', '\n'])

theorem readItems_lines (items : List String) (hf : items.length + 3 ≤ fuel) :
    readItems fuel depth ('\n' :: (items.flatMap itemLine ++ ']' :: rest)) =
      some (items.map .text, rest) := by
  induction items generalizing fuel with
  | nil =>
    obtain ⟨fuel, rfl⟩ : ∃ n, fuel = n + 3 := ⟨fuel - 3, by omega⟩
    apply readItems_close
    rw [List.flatMap_nil, List.nil_append, dropFiller_newline]
    exact dropFiller_cons rfl (by decide) (by decide) (by decide)
  | cons item items ih =>
    rw [List.length_cons] at hf
    obtain ⟨fuel, rfl⟩ : ∃ n, fuel = n + 3 := ⟨fuel - 3, by omega⟩
    have hline : (item :: items).flatMap itemLine ++ ']' :: rest =
        ' ' :: ' ' :: ' ' :: ' ' :: ((renderText item).toList ++
          ',' :: '\n' :: (items.flatMap itemLine ++ ']' :: rest)) := by
      simp [itemLine]
    -- the filler before an item takes two units of fuel, the line break and the blanks
    refine readItems_comma item ?_ (ih (by omega))
    rw [hline, dropFiller_newline, dropFiller_blank, dropFiller_blank, dropFiller_blank,
      dropFiller_blank, dropFiller_renderText]

theorem readValue_array {items : List Toml} (h : readItems fuel 1 cs = some (items, rest)) :
    readValue (fuel + 1) 0 ('[' :: cs) = some (.array items, rest) := by
  rw [readValue, if_pos (by decide), h]
  rfl

theorem toList_renderTexts {items : List String} (h : 2 ≤ items.length) :
    (renderTexts items).toList = '[' :: '\n' :: (items.flatMap itemLine ++ [']']) := by
  unfold renderTexts
  split
  · exact absurd h (by simp)
  · exact absurd h (by simp)
  · have hline : ∀ item, ("    " ++ renderText item ++ ",\n").toList = itemLine item := by
      simp [itemLine]
    simp only [String.toList_append, String.toList_join, List.flatMap_map] at hline ⊢
    simp only [hline]
    rfl

theorem length_le_itemLines (items : List String) :
    items.length ≤ (items.flatMap itemLine).length := by
  induction items with
  | nil => exact Nat.le_refl 0
  | cons item items ih =>
    simp only [List.flatMap_cons, List.length_cons, List.length_append, itemLine, List.length_nil]
    omega

theorem denotes_texts (items : List String) :
    Denotes (renderTexts items) (.array (items.map .text)) := by
  match items with
  | [] =>
    refine ⟨fun c hc => Option.some.inj hc ▸ rfl, fun fuel rest hf => ?_⟩
    obtain ⟨fuel, rfl⟩ : ∃ n, fuel = n + 2 := ⟨fuel - 2, by simp [renderTexts] at hf; omega⟩
    apply readValue_array
    exact readItems_close (dropFiller_cons rfl (by decide) (by decide) (by decide))
  | [item] =>
    have hlist : (renderTexts [item]).toList = '[' :: ((renderText item).toList ++ [']']) := by
      simp [renderTexts]
    refine ⟨fun c hc => ?_, fun fuel rest hf => ?_⟩
    · rw [hlist] at hc
      exact Option.some.inj hc ▸ rfl
    · rw [hlist, List.length_cons, List.length_append, List.length_singleton] at hf
      obtain ⟨quote, more, hmore, -⟩ := exists_renderText item
      rw [hmore, List.length_cons] at hf
      obtain ⟨fuel, rfl⟩ : ∃ n, fuel = n + 3 := ⟨fuel - 3, by omega⟩
      rw [hlist, List.cons_append, List.append_assoc]
      exact readValue_array (readItems_last item (dropFiller_renderText item))
  | first :: second :: others =>
    have htwo : 2 ≤ (first :: second :: others).length := by simp
    generalize first :: second :: others = items at htwo ⊢
    have hlist := toList_renderTexts htwo
    refine ⟨fun c hc => ?_, fun fuel rest hf => ?_⟩
    · rw [hlist] at hc
      exact Option.some.inj hc ▸ rfl
    · have hitems := length_le_itemLines items
      simp only [hlist, List.length_cons, List.length_append, List.length_nil] at hf
      obtain ⟨fuel, rfl⟩ : ∃ n, fuel = n + 1 := ⟨fuel - 1, by omega⟩
      rw [hlist, List.cons_append, List.cons_append, List.append_assoc]
      exact readValue_array (readItems_lines items (by omega))

end Texts

section Lines

variable {document next last : Document} {text : String}

def IsBare (key : String) : Prop := key.toList ≠ [] ∧ key.toList.all isBareKeyPart = true

instance : Decidable (IsBare key) := inferInstanceAs (Decidable (_ ∧ _))

theorem ne_of_isBareKeyPart {d : Char} (hc : isBareKeyPart c = true)
    (hd : isBareKeyPart d = false) : c ≠ d := by
  rintro rfl
  exact absurd (hc.symm.trans hd) (by simp)

theorem IsBare.exists_cons (h : IsBare key) :
    ∃ c cs, key.toList = c :: cs ∧ isBareKeyPart c = true := by
  obtain ⟨c, cs, hcs⟩ := List.exists_cons_of_ne_nil h.1
  exact ⟨c, cs, hcs, List.all_eq_true.mp h.2 c (by simp [hcs])⟩

theorem isBlank_of_isBareKeyPart (h : isBareKeyPart c = true) : isBlank c = false := by
  have hspace : c ≠ ' ' := ne_of_isBareKeyPart h rfl
  have htab : c ≠ '\t' := ne_of_isBareKeyPart h rfl
  simp [isBlank, hspace, htab]

theorem readSimpleKey_bare (h : IsBare key) (hr : ∀ c ∈ rest.head?, isBareKeyPart c = false) :
    readSimpleKey (key.toList ++ rest) = some (key, rest) := by
  have hkey : (key.toList ++ rest).takeWhile isBareKeyPart = key.toList :=
    takeWhile_exact (List.all_eq_true.mp h.2) hr
  have hne : key.toList.isEmpty = false := by simpa using h.1
  have hplain : readSimpleKey (key.toList ++ rest) =
      if key.toList.isEmpty then none
      else some (String.ofList key.toList, (key.toList ++ rest).drop key.toList.length) := by
    obtain ⟨c, cs, hcs, hc⟩ := h.exists_cons
    unfold readSimpleKey
    split
    next hquote =>
      rw [hcs] at hquote
      exact absurd (List.cons.inj hquote).1 (ne_of_isBareKeyPart hc rfl)
    next hquote =>
      rw [hcs] at hquote
      exact absurd (List.cons.inj hquote).1 (ne_of_isBareKeyPart hc rfl)
    · rw [hkey]
  rw [hplain, hne, if_neg (by simp), List.drop_left, String.ofList_toList]

theorem readKey_bare (h : IsBare key) (hr : ∀ c ∈ rest.head?, isBareKeyPart c = false)
    (hdot : (rest.dropWhile isBlank).head? ≠ some '.') :
    readKey (fuel + 1) (key.toList ++ rest) = some ([], key, rest.dropWhile isBlank) := by
  obtain ⟨c, cs, hcs, hc⟩ := h.exists_cons
  have hblank : (key.toList ++ rest).dropWhile isBlank = key.toList ++ rest := by
    rw [hcs, List.cons_append]
    exact List.dropWhile_cons_of_neg (by simp [isBlank_of_isBareKeyPart hc])
  rw [readKey, hblank, readSimpleKey_bare h hr]
  simp only [Option.bind_eq_bind, Option.bind_some]
  split
  next more hmore =>
    rw [hmore] at hdot
    exact absurd rfl hdot
  · rfl

theorem eat?_cons (c : Char) (cs : List Char) : eat? c (c :: cs) = some cs := if_pos rfl

theorem endLine_newline : endLine ('\n' :: cs) = some cs := rfl

def Reads (document : Document) (text : List Char) (next : Document) : Prop :=
  ∃ n ≤ text.length, ∀ fuel rest,
    readDocument (fuel + n) document (text ++ rest) = readDocument fuel next rest

theorem Reads.refl (document : Document) : Reads document [] document :=
  ⟨0, Nat.le_refl 0, fun _ _ => rfl⟩

theorem Reads.trans (h : Reads document cs next) (h' : Reads next rest last) :
    Reads document (cs ++ rest) last := by
  obtain ⟨n, hn, hfirst⟩ := h
  obtain ⟨m, hm, hsecond⟩ := h'
  refine ⟨m + n, by rw [List.length_append]; omega, fun fuel more => ?_⟩
  rw [← Nat.add_assoc, List.append_assoc, hfirst, hsecond]

theorem reads_newline (document : Document) : Reads document ['\n'] document :=
  ⟨1, Nat.le_refl 1, fun _ _ => rfl⟩

theorem readDocument_header {header : Header} {after : List Char} (hc : isBareKeyPart c = true)
    (hh : readHeader false (c :: cs) = some (header, '\n' :: after))
    (hb : document.begin header = some next) :
    readDocument (fuel + 1) document ('[' :: c :: cs) = readDocument fuel next after := by
  have hblank : ('[' :: c :: cs).dropWhile isBlank = '[' :: c :: cs :=
    List.dropWhile_cons_of_neg (by decide)
  simp only [readDocument, hblank]
  split
  next hnil => exact absurd hnil (by simp)
  next htwo =>
    -- the name does not begin with a bracket
    obtain ⟨hfirst, -⟩ := List.cons.inj (List.cons.inj htwo).2
    exact absurd hfirst (ne_of_isBareKeyPart hc rfl)
  next hone =>
    rw [← (List.cons.inj hone).2, hh]
    simp only [Option.bind_eq_bind, Option.bind_some, hb, endLine_newline]
  next hone hcons => exact (hone (List.cons.inj hcons).1.symm).elim

theorem reads_header (h : IsBare name) (hb : document.begin ⟨[], name, false⟩ = some next) :
    Reads document ('[' :: (name.toList ++ [']', '\n'])) next := by
  refine ⟨1, by simp, fun fuel rest => ?_⟩
  have hclose : ∀ d ∈ (']' :: '\n' :: rest).head?, isBareKeyPart d = false :=
    fun d hd => Option.some.inj hd ▸ rfl
  have hdot : ((']' :: '\n' :: rest).dropWhile isBlank).head? ≠ some '.' := by
    rw [List.dropWhile_cons_of_neg (by decide)]
    simp
  have hheader : readHeader false (name.toList ++ ']' :: '\n' :: rest) =
      some (⟨[], name, false⟩, '\n' :: rest) := by
    rw [readHeader, readKey_bare h hclose hdot]
    rfl
  have htext : '[' :: (name.toList ++ [']', '\n']) ++ rest =
      '[' :: (name.toList ++ ']' :: '\n' :: rest) := by simp
  obtain ⟨c, cs, hcs, hc⟩ := h.exists_cons
  rw [htext]
  rw [hcs, List.cons_append] at hheader ⊢
  exact readDocument_header hc hheader hb

theorem readDocument_entry {after : List Char} (hc : isBareKeyPart c = true)
    (hk : readKey ((c :: cs).length + 1) (c :: cs) = some ([], key, '=' :: rest))
    (hv : readValue (2 * (c :: cs).length + 2) 0 (rest.dropWhile isBlank) =
      some (value, '\n' :: after))
    (hs : document.set [] key value = some next) :
    readDocument (fuel + 1) document (c :: cs) = readDocument fuel next after := by
  have hblank : (c :: cs).dropWhile isBlank = c :: cs :=
    List.dropWhile_cons_of_neg (by simp [isBlank_of_isBareKeyPart hc])
  have hcomment : c ≠ '#' := ne_of_isBareKeyPart hc rfl
  have hnewline : dropNewline (c :: cs) = none := by
    apply dropNewline_eq_none
    intro d hd
    obtain rfl := Option.some.inj hd
    exact ⟨ne_of_isBareKeyPart hc rfl, ne_of_isBareKeyPart hc rfl⟩
  simp only [readDocument, hblank]
  split
  next hnil => exact absurd hnil (by simp)
  next htwo => exact absurd (List.cons.inj htwo).1 (ne_of_isBareKeyPart hc rfl)
  next hone => exact absurd (List.cons.inj hone).1 (ne_of_isBareKeyPart hc rfl)
  next hcons =>
    obtain ⟨rfl, rfl⟩ := List.cons.inj hcons
    rw [if_neg (by simp [hcomment, hnewline]), hk]
    simp only [Option.bind_eq_bind, Option.bind_some, eat?_cons, hv, hs, endLine_newline]

theorem Denotes.dropWhile_isBlank (h : Denotes text value) (rest : List Char) :
    (' ' :: (text.toList ++ '\n' :: rest)).dropWhile isBlank = text.toList ++ '\n' :: rest := by
  have hspace : ∀ d ∈ [' '], isBlank d = true := by simp [isBlank]
  have hhead : ∀ d ∈ (text.toList ++ '\n' :: rest).head?, isBlank d = false := by
    intro d hd
    rw [List.head?_append] at hd
    cases hfirst : text.toList.head? with
    | none =>
      rw [hfirst, Option.none_or] at hd
      exact Option.some.inj hd ▸ rfl
    | some first =>
      rw [hfirst, Option.some_or] at hd
      exact h.head d (hfirst.trans hd)
  exact dropWhile_exact hspace hhead

theorem reads_entry (h : IsBare key) (hv : Denotes text value)
    (hs : document.set [] key value = some next) :
    Reads document (key.toList ++ ' ' :: '=' :: ' ' :: (text.toList ++ ['\n'])) next := by
  refine ⟨1, by simp; omega, fun fuel rest => ?_⟩
  generalize htail : ' ' :: '=' :: ' ' :: (text.toList ++ '\n' :: rest) = tail
  have hline : key.toList ++ ' ' :: '=' :: ' ' :: (text.toList ++ ['\n']) ++ rest =
      key.toList ++ tail := by simp [← htail]
  have hrest : tail.dropWhile isBlank = '=' :: ' ' :: (text.toList ++ '\n' :: rest) := by
    rw [← htail]
    rfl
  have hkey : readKey ((key.toList ++ tail).length + 1) (key.toList ++ tail) =
      some ([], key, '=' :: ' ' :: (text.toList ++ '\n' :: rest)) := by
    rw [readKey_bare h, hrest]
    · intro d hd
      rw [← htail] at hd
      exact Option.some.inj hd ▸ rfl
    · simp [hrest]
  have hfuel : text.toList.length < 2 * (key.toList ++ tail).length + 2 := by
    rw [← htail]
    simp only [List.length_append, List.length_cons]
    omega
  have hread := hv.read _ rest hfuel
  rw [← hv.dropWhile_isBlank] at hread
  obtain ⟨c, cs, hcs, hc⟩ := h.exists_cons
  rw [hline]
  rw [hcs, List.cons_append] at hkey hread ⊢
  exact readDocument_entry hc hkey hread hs

end Lines

structure Setting where
  key : String
  text : String
  value : Toml
  bare : IsBare key
  denotes : Denotes text value

structure Table where
  name : String
  settings : List Setting
  bare : IsBare name
  nodup : (settings.map (·.key)).Nodup

section Tables

variable {document next : Document} {root : List (String × Draft)}

def Setting.line (setting : Setting) : List Char :=
  setting.key.toList ++ ' ' :: '=' :: ' ' :: (setting.text.toList ++ ['\n'])

def Setting.draft (setting : Setting) : String × Draft := (setting.key, .closed setting.value)

def Table.text (table : Table) : String :=
  renderTable table.name (table.settings.map fun setting => (setting.key, setting.text))

def Table.draft (table : Table) : String × Draft :=
  (table.name, .table .header (table.settings.map Setting.draft))

def Table.entry (table : Table) : String × Toml :=
  (table.name, .table (table.settings.map fun setting => (setting.key, setting.value)))

theorem toList_text (table : Table) : table.text.toList =
    '[' :: (table.name.toList ++ [']', '\n']) ++ table.settings.flatMap Setting.line := by
  have hline : ∀ setting : Setting,
      (setting.key ++ " = " ++ setting.text ++ "\n").toList = setting.line := by
    simp [Setting.line]
  simp only [Table.text, renderTable, String.toList_append, String.toList_join, List.flatMap_map]
    at hline ⊢
  simp only [hline]
  simp

theorem lookup_of_not_mem {β : Type} {entries : List (String × β)}
    (h : key ∉ entries.map Prod.fst) : entries.lookup key = none := by
  rw [List.lookup_eq_none_iff]
  intro entry he
  have hne : key ≠ entry.1 := fun hk => h (hk ▸ List.mem_map_of_mem he)
  simpa using hne

theorem set_new (value : Toml) (h : key ∉ document.current.map Prod.fst) :
    document.set [] key value =
      some { document with current := document.current ++ [(key, .closed value)] } := by
  simp [Document.set, Draft.set, Draft.descend, lookup_of_not_mem h]

theorem reads_settings (settings : List Setting)
    (h : (document.current.map Prod.fst ++ settings.map (·.key)).Nodup) :
    Reads document (settings.flatMap Setting.line)
      { document with current := document.current ++ settings.map Setting.draft } := by
  induction settings generalizing document with
  | nil =>
    rw [List.map_nil, List.append_nil]
    exact Reads.refl document
  | cons setting settings ih =>
    rw [List.map_cons] at h
    have hnew : setting.key ∉ document.current.map Prod.fst := by
      intro hmem
      exact (List.nodup_append.mp h).2.2 _ hmem _ (by simp) rfl
    have hrest : ((document.current ++ [setting.draft]).map Prod.fst ++
        settings.map (·.key)).Nodup := by
      rw [List.map_append, List.append_assoc]
      exact h
    -- the rest is read into the table that already holds the first setting
    have hfirst := reads_entry setting.bare setting.denotes (set_new setting.value hnew)
    have hothers := @ih { document with current := document.current ++ [setting.draft] } hrest
    rw [List.append_assoc] at hothers
    exact hfirst.trans hothers

theorem begin_new (hc : document.close = some root) (h : name ∉ root.map Prod.fst) :
    document.begin ⟨[], name, false⟩ =
      some { root := root, current := [], header := some ⟨[], name, false⟩ } := by
  have hremove : Draft.remove name root = root := by
    apply List.filter_eq_self.mpr
    intro entry he
    exact decide_eq_true fun hn => h (hn ▸ List.mem_map_of_mem he)
  simp [Document.begin, hc, Document.find?, lookup_of_not_mem h, Document.open?, Draft.descend,
    hremove]

theorem reads_table (table : Table) (hc : document.close = some root)
    (h : table.name ∉ root.map Prod.fst) :
    ∃ next, Reads document table.text.toList next ∧ next.close = some (root ++ [table.draft]) := by
  rw [toList_text]
  refine ⟨_, (reads_header table.bare (begin_new hc h)).trans
    (reads_settings table.settings table.nodup), ?_⟩
  rfl

theorem reads_tables (tables : List Table) (hc : document.close = some root)
    (h : (root.map Prod.fst ++ tables.map (·.name)).Nodup) :
    ∃ next, Reads document (join "\n" (tables.map Table.text)).toList next ∧
      next.close = some (root ++ tables.map Table.draft) := by
  induction tables generalizing document root with
  | nil => exact ⟨document, Reads.refl document, by simpa using hc⟩
  | cons table tables ih =>
    rw [List.map_cons] at h
    have hnew : table.name ∉ root.map Prod.fst := by
      intro hmem
      exact (List.nodup_append.mp h).2.2 _ hmem _ (by simp) rfl
    obtain ⟨next, hreads, hclose⟩ := reads_table table hc hnew
    by_cases hlast : tables = []
    · subst hlast
      rw [List.map_singleton, join_singleton, List.map_singleton]
      exact ⟨next, hreads, hclose⟩
    · have hrest : ((root ++ [table.draft]).map Prod.fst ++ tables.map (·.name)).Nodup := by
        rw [List.map_append, List.append_assoc]
        exact h
      obtain ⟨last, hothers, hlastClose⟩ := ih hclose hrest
      refine ⟨last, ?_, by rw [hlastClose, List.append_assoc, List.singleton_append, List.map_cons]⟩
      rw [List.map_cons, join_cons _ _ (by simpa using hlast), String.toList_append,
        String.toList_append]
      exact (hreads.trans (reads_newline next)).trans hothers

theorem finishAll_settings (settings : List Setting) :
    Draft.finishAll (settings.map Setting.draft) =
      settings.map fun setting => (setting.key, setting.value) := by
  induction settings with
  | nil => rfl
  | cons setting settings ih =>
    rw [List.map_cons, Setting.draft, Draft.finishAll, ih]
    rfl

theorem finishAll_tables (tables : List Table) :
    Draft.finishAll (tables.map Table.draft) = tables.map Table.entry := by
  induction tables with
  | nil => rfl
  | cons table tables ih =>
    rw [List.map_cons, Table.draft, Draft.finishAll, ih, Draft.finish, finishAll_settings]
    rfl

theorem parse?_of_reads {source : String} (hb : ∀ c ∈ source.toList.head?, c.toNat ≠ 0xFEFF)
    (h : Reads {} source.toList next) (hc : next.close = some root) :
    parse? source = some (.table (Draft.finishAll root)) := by
  obtain ⟨n, hn, hread⟩ := h
  have hmark : source.toList.head?.any (·.toNat = 0xFEFF) = false := by
    cases hhead : source.toList.head? with
    | none => rfl
    | some c => simpa using hb c hhead
  have hdocument : readDocument (source.toList.length + 1) {} source.toList = some next := by
    obtain ⟨left, hleft⟩ := Nat.exists_eq_add_of_le' hn
    have hall := hread (left + 1) []
    rw [List.append_nil, Nat.add_right_comm, ← hleft] at hall
    rw [hall]
    rfl
  rw [parse?, hmark]
  simp [hdocument, Document.finish, hc]

theorem head_tables (tables : List Table) :
    ∀ c ∈ (join "\n" (tables.map Table.text)).toList.head?, c = '[' := by
  intro c hc
  cases tables with
  | nil => exact absurd hc (by simp [join])
  | cons table tables =>
    by_cases hlast : tables = []
    · rw [hlast, List.map_singleton, join_singleton, toList_text] at hc
      exact (Option.some.inj hc).symm
    · rw [List.map_cons, join_cons _ _ (by simpa using hlast), String.toList_append,
        String.toList_append, toList_text] at hc
      exact (Option.some.inj hc).symm

/-- **Tables with different names are read back.** A line break may follow. -/
theorem parse?_tables (tables : List Table) (h : (tables.map (·.name)).Nodup) {ending : String}
    (he : ending = "" ∨ ending = "\n") :
    parse? (join "\n" (tables.map Table.text) ++ ending) =
      some (.table (tables.map Table.entry)) := by
  obtain ⟨next, hreads, hclose⟩ : ∃ next,
      Reads {} (join "\n" (tables.map Table.text)).toList next ∧
        next.close = some ([] ++ tables.map Table.draft) := reads_tables tables rfl h
  rw [List.nil_append] at hclose
  rw [← finishAll_tables]
  refine parse?_of_reads (fun c hc => ?_) ?_ hclose
  · rw [String.toList_append, List.head?_append] at hc
    cases hhead : (join "\n" (tables.map Table.text)).toList.head? with
    | some first =>
      rw [hhead, Option.some_or] at hc
      rw [← Option.some.inj hc, head_tables tables first hhead]
      decide
    | none =>
      rw [hhead, Option.none_or] at hc
      rcases he with rfl | rfl
      · exact absurd hc (by simp)
      · rw [← Option.some.inj hc]
        decide
  · rw [String.toList_append]
    rcases he with rfl | rfl
    · simpa using hreads
    · exact hreads.trans (reads_newline next)

end Tables

end HookEvents.Toml
