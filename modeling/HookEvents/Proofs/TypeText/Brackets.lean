import HookEvents.Proofs.Text.Split
import HookEvents.Proofs.TypeText.Exact

/-!
Cutting the text of a type into the texts of its type arguments. Commas and brackets inside an
argument do not count: the text of a type passes through a cut as a whole.
-/
namespace HookEvents.TypeText

open Text

def isOpening (c : Char) : Bool := c = '<' || c = '(' || c = '['

def isClosing (c : Char) : Bool := c = '>' || c = ')' || c = ']'

def prepend (front : List Char) : List (List Char) × List Char → List (List Char) × List Char
  | (arguments, rest) => (arguments.modifyHead (front ++ ·), rest)

/-- The arguments through the bracket that closes them, cut at the commas outside all other
brackets, and what follows. The depth counts the brackets that are open. -/
def cutArguments : Nat → List Char → Option (List (List Char) × List Char)
  | _, [] => none
  | depth, c :: cs =>
    if isOpening c then (cutArguments (depth + 1) cs).map (prepend [c])
    else if isClosing c then
      if depth = 0 then some ([[]], cs) else (cutArguments (depth - 1) cs).map (prepend [c])
    else if c = ',' ∧ depth = 0 then
      (cutArguments depth cs).map fun (arguments, rest) => ([] :: arguments, rest)
    else (cutArguments depth cs).map (prepend [c])

def dropSpace : List Char → List Char
  | ' ' :: cs => cs
  | cs => cs

def cutApplied (text : String) : Option (String × List String) :=
  match splitFirst '<' text with
  | none => some (text, [])
  | some (head, inner) =>
    match cutArguments 0 inner.toList with
    | some (first :: others, []) => some (head, (first :: others.map dropSpace).map String.ofList)
    | _ => none

theorem prepend_append (front back : List Char) :
    prepend (front ++ back) = prepend front ∘ prepend back := by
  funext cut
  obtain ⟨arguments, rest⟩ := cut
  cases arguments <;> simp [prepend]

theorem prepend_nil : prepend [] = id := by
  funext cut
  obtain ⟨arguments, rest⟩ := cut
  cases arguments <;> rfl

/-- At a depth, the text neither ends the arguments nor separates two of them. -/
def Passes (depth : Nat) (front : List Char) : Prop :=
  ∀ rest, cutArguments depth (front ++ rest) = (cutArguments depth rest).map (prepend front)

section Passes

variable {depth : Nat} {front back : List Char}

theorem passes_nil (depth : Nat) : Passes depth [] := by
  intro rest
  rw [prepend_nil, Option.map_id_fun]
  rfl

theorem Passes.append (hf : Passes depth front) (hb : Passes depth back) :
    Passes depth (front ++ back) := by
  intro rest
  rw [List.append_assoc, hf, hb, Option.map_map, prepend_append]

theorem passes_singleton {c : Char} (ho : isOpening c = false) (hc : isClosing c = false)
    (hd : c ≠ ',' ∨ depth ≠ 0) : Passes depth [c] := by
  intro rest
  rw [List.singleton_append, cutArguments, if_neg (by simp [ho]), if_neg (by simp [hc]),
    if_neg fun h => hd.elim (absurd h.1) (absurd h.2)]

theorem passes_plain {cs : List Char} (h : ∀ c ∈ cs, c ∉ marks) : Passes depth cs := by
  induction cs with
  | nil => exact passes_nil depth
  | cons c cs ih =>
    have hc := h c (by simp)
    have hfirst : Passes depth [c] := by
      apply passes_singleton
      · simp [isOpening]; grind [marks]
      · simp [isClosing]; grind [marks]
      · exact .inl fun he => hc (by simp [he, marks])
    exact hfirst.append (ih fun d hd => h d (by simp [hd]))

theorem Passes.brackets {opening closing : Char} (ho : isOpening opening = true)
    (hc : isClosing closing = true) (h : Passes (depth + 1) front) :
    Passes depth (opening :: front ++ [closing]) := by
  have hnot : isOpening closing = false := by
    simp only [isClosing, Bool.or_eq_true, decide_eq_true_eq] at hc
    obtain (rfl | rfl) | rfl := hc <;> decide
  intro rest
  have hinner : cutArguments (depth + 1) (closing :: rest) =
      (cutArguments depth rest).map (prepend [closing]) := by
    rw [cutArguments, if_neg (by simp [hnot]), if_pos hc, if_neg (Nat.succ_ne_zero depth),
      Nat.add_sub_cancel]
  calc cutArguments depth (opening :: front ++ [closing] ++ rest)
    _ = cutArguments depth (opening :: (front ++ closing :: rest)) := by simp
    _ = (cutArguments (depth + 1) (front ++ closing :: rest)).map (prepend [opening]) := by
      rw [cutArguments, if_pos ho]
    _ = (cutArguments depth rest).map (prepend (opening :: front ++ [closing])) := by
      rw [h, hinner, Option.map_map, Option.map_map, ← prepend_append, ← prepend_append]
      simp

end Passes

def Crosses (depth : Nat) (tokens : List Token) : Prop :=
  ∀ joint cs rest, Spelled joint tokens cs rest → ∃ front, cs = front ++ rest ∧ Passes depth front

section Crosses

variable {depth : Nat} {tokens more : List Token}

theorem not_mem_marks_of_blanks {blanks : List Char} (h : Blanks blanks) :
    ∀ c ∈ blanks, c ∉ marks := by
  intro c hc hm
  exact absurd (h c hc) (by simp [not_blank_of_mem_marks hm])

theorem crosses_nil (depth : Nat) : Crosses depth [] := by
  intro joint cs rest h
  exact ⟨[], h, passes_nil depth⟩

theorem Crosses.append (ht : Crosses depth tokens) (hm : Crosses depth more) :
    Crosses depth (tokens ++ more) := by
  intro joint cs rest h
  obtain ⟨mid, hfirst, hsecond⟩ := Spelled.append_iff.mp h
  obtain ⟨front, rfl, hf⟩ := ht joint cs mid hfirst
  obtain ⟨back, rfl, hb⟩ := hm joint mid rest hsecond
  exact ⟨front ++ back, (List.append_assoc _ _ _).symm, hf.append hb⟩

theorem crosses_token {token : Token} (h : Passes depth token.chars) : Crosses depth [token] := by
  rintro joint cs rest ⟨blanks, tail, hb, rfl, -, rfl⟩
  have hblanks : Passes depth blanks := passes_plain (not_mem_marks_of_blanks hb)
  exact ⟨blanks ++ token.chars, by simp, hblanks.append h⟩

theorem crosses_name {name : String} (h : IsIdentifier name) : Crosses depth [.name name] :=
  crosses_token (passes_plain fun _ hc hm => h.not_mem_of_mem_marks hm hc)

theorem crosses_colons : Crosses depth [.colons] := by
  have hcolon : Passes depth [':'] := passes_singleton (by decide) (by decide) (.inl (by decide))
  exact crosses_token (hcolon.append hcolon)

theorem crosses_mark {c : Char} (ho : isOpening c = false) (hc : isClosing c = false)
    (hd : c ≠ ',' ∨ depth ≠ 0) : Crosses depth [.mark c] :=
  crosses_token (passes_singleton ho hc hd)

theorem Crosses.brackets {opening closing : Char} (ho : isOpening opening = true)
    (hc : isClosing closing = true) (h : Crosses (depth + 1) tokens) :
    Crosses depth (.mark opening :: tokens ++ [.mark closing]) := by
  rintro joint cs rest ⟨blanks, tail, hb, rfl, -, hs⟩
  obtain ⟨mid, hinner, gap, tail', hgap, rfl, -, rfl⟩ := Spelled.append_iff.mp hs
  obtain ⟨inner, rfl, hi⟩ := h joint tail _ hinner
  have hblanks : Passes depth blanks := passes_plain (not_mem_marks_of_blanks hb)
  have hwide : Passes (depth + 1) gap := passes_plain (not_mem_marks_of_blanks hgap)
  refine ⟨blanks ++ (opening :: (inner ++ gap) ++ [closing]), by simp [Token.chars], ?_⟩
  exact hblanks.append ((hi.append hwide).brackets ho hc)

theorem crosses_suffix (depth : Nat) (suffix : TypeSuffix) :
    Crosses depth (suffixTokens suffix) := by
  cases suffix with
  | nullable => exact crosses_mark (by decide) (by decide) (.inl (by decide))
  | pointer => exact crosses_mark (by decide) (by decide) (.inl (by decide))
  | array commas =>
    have hcommas : Crosses (depth + 1) (List.replicate commas (.mark ',')) := by
      induction commas with
      | zero => exact crosses_nil _
      | succ commas ih =>
        have hcomma : Crosses (depth + 1) [.mark ','] :=
          crosses_mark (by decide) (by decide) (.inr (Nat.succ_ne_zero depth))
        exact hcomma.append ih
    exact hcommas.brackets (by decide) (by decide)

end Crosses

def Nonterminal.level : Nonterminal → Nat
  | .elements | .arguments => 1
  | _ => 0

theorem Derives.crosses {nonterminal : Nonterminal} {tokens : List Token}
    (h : Derives nonterminal tokens) {depth : Nat} (hd : nonterminal.level ≤ depth) :
    Crosses depth tokens := by
  have hcomma {depth : Nat} (hd : 1 ≤ depth) : Crosses depth [.mark ','] :=
    crosses_mark (by decide) (by decide) (.inr (by omega))
  have hdot {depth : Nat} : Crosses depth [.mark '.'] :=
    crosses_mark (by decide) (by decide) (.inl (by decide))
  induction h generalizing depth with
  | @tuple elements suffixes _ _ ihe ihs =>
    have hparens : Crosses depth (.mark '(' :: elements ++ [.mark ')']) :=
      (ihe (Nat.le_add_left 1 depth)).brackets (by decide) (by decide)
    simpa using hparens.append (ihs hd)
  | named _ _ ihp ihs => exact (ihp hd).append (ihs hd)
  | aliased hr _ _ ihp ihs =>
    exact (crosses_name hr).append (crosses_colons.append ((ihp hd).append (ihs hd)))
  | noSuffix => exact crosses_nil depth
  | suffix suffix _ ih => exact (crosses_suffix depth suffix).append (ih hd)
  | lastElement _ ih => exact ih (Nat.zero_le depth)
  | moreElements _ _ ihe ihs =>
    exact (ihe (Nat.zero_le depth)).append ((hcomma hd).append (ihs hd))
  | plainElement _ ih => exact ih hd
  | namedElement _ hn ih => exact (ih hd).append (crosses_name hn)
  | lastSegment _ ih => exact ih hd
  | moreSegments _ _ ihs ihp => exact (ihs hd).append (hdot.append (ihp hd))
  | plainSegment hn => exact crosses_name hn
  | @genericSegment name arguments hn _ ih =>
    have hangles : Crosses depth (.mark '<' :: arguments ++ [.mark '>']) :=
      (ih (Nat.le_add_left 1 depth)).brackets (by decide) (by decide)
    exact (crosses_name hn).append hangles
  | lastArgument _ ih => exact ih (Nat.zero_le depth)
  | moreArguments _ _ iht iha =>
    exact (iht (Nat.zero_le depth)).append ((hcomma hd).append (iha hd))

theorem passes_of_parse? {text : String} {type : TypeText} (h : parse? text = some type)
    (depth : Nat) : Passes depth text.toList := by
  obtain ⟨hd, rest, hs, hb⟩ := parse?_tokens h
  obtain ⟨front, htext, hf⟩ := hd.crosses (Nat.zero_le depth) _ _ _ hs
  rw [htext]
  exact hf.append (passes_plain (not_mem_marks_of_blanks hb))

section Cut

theorem cutArguments_join {texts : List String} (hne : texts ≠ [])
    (h : ∀ text ∈ texts, Passes 0 text.toList) (rest : List Char) :
    ∃ first others, texts = first :: others ∧
      cutArguments 0 ((join ", " texts).toList ++ '>' :: rest) =
        some (first.toList :: others.map fun text => ' ' :: text.toList, rest) := by
  induction texts with
  | nil => exact absurd rfl hne
  | cons first others ih =>
    refine ⟨first, others, rfl, ?_⟩
    have hfirst := h first (by simp)
    cases others with
    | nil =>
      have hend : cutArguments 0 ('>' :: rest) = some ([[]], rest) := rfl
      rw [join_singleton, hfirst, hend]
      simp [prepend]
    | cons second others =>
      obtain ⟨_, _, heq, hcut⟩ := ih (by simp) fun text ht => h text (List.mem_cons_of_mem _ ht)
      obtain ⟨rfl, rfl⟩ := List.cons.inj heq
      have hspace : Passes 0 [' '] := passes_singleton (by decide) (by decide) (.inl (by decide))
      have hcomma (cs : List Char) : cutArguments 0 (',' :: cs) =
          (cutArguments 0 cs).map fun cut => ([] :: cut.1, cut.2) := rfl
      have htext : (join ", " (first :: second :: others)).toList ++ '>' :: rest = first.toList ++
          ',' :: ([' '] ++ ((join ", " (second :: others)).toList ++ '>' :: rest)) := by
        rw [join_cons ", " first (by simp)]
        simp
      rw [htext, hfirst, hcomma, hspace, hcut]
      simp [prepend]

theorem cutApplied_renderArguments {head : String} (hh : '<' ∉ head.toList) {texts : List String}
    (h : ∀ text ∈ texts, Passes 0 text.toList) :
    cutApplied (head ++ renderArguments texts) = some (head, texts) := by
  cases texts with
  | nil =>
    have hnone : splitFirst '<' (head ++ renderArguments []) = none := by
      apply splitFirst_of_not_mem
      simpa [renderArguments] using hh
    rw [cutApplied, hnone]
    simp [renderArguments]
  | cons first others =>
    obtain ⟨_, _, heq, hcut⟩ := cutArguments_join (List.cons_ne_nil first others) h []
    obtain ⟨rfl, rfl⟩ := List.cons.inj heq
    have htext : head ++ renderArguments (first :: others) =
        head ++ "<" ++ (join ", " (first :: others) ++ ">") := by
      simp only [renderArguments, List.isEmpty_cons, Bool.false_eq_true, if_false,
        String.append_assoc]
    have hinner : (join ", " (first :: others) ++ ">").toList =
        (join ", " (first :: others)).toList ++ ['>'] := String.toList_append
    have hspace : dropSpace ∘ (fun text : String => ' ' :: text.toList) = String.toList := rfl
    rw [cutApplied, htext, splitFirst_append rfl hh]
    simp only [hinner, hcut, List.map_map, hspace]
    simp [Function.comp_def]

end Cut

end HookEvents.TypeText
