import HookEvents.Proofs.TypeText.Sound

/-!
The reader accepts all that the grammar derives, however the tokens are spelled. Two names of the
grammar that stand next to each other without a blank are one name to the reader.
-/
namespace HookEvents.TypeText

open Text

theorem trimStartChars_trimStartChars (cs : List Char) :
    trimStartChars (trimStartChars cs) = trimStartChars cs := by
  obtain ⟨blanks, hb, hcs⟩ := exists_blanks cs
  have hright := trimStartChars_append hb (trimStartChars cs)
  rw [← hcs] at hright
  exact hright.symm

theorem next_trimStartChars (cs : List Char) : next (trimStartChars cs) = next cs := by
  rw [next, trimStartChars_trimStartChars, next]

theorem eat_trimStartChars (c : Char) (cs : List Char) : eat c (trimStartChars cs) = eat c cs := by
  rw [eat, trimStartChars_trimStartChars, eat]

theorem readName_trimStartChars (cs : List Char) : readName (trimStartChars cs) = readName cs := by
  rw [readName, trimStartChars_trimStartChars, readName]

/-- What is left when a name at the end of the tokens is read in full. -/
def leave (tokens : List Token) (rest : List Char) : List Char :=
  match tokens.getLast? with
  | some (.name _) => rest.dropWhile isNamePart
  | _ => rest

theorem leave_append (tokens : List Token) {more : List Token} (h : more ≠ []) (rest : List Char) :
    leave (tokens ++ more) rest = leave more rest := by
  have hlast := List.getLast?_eq_some_getLast h
  rw [leave, List.getLast?_append, hlast, Option.some_or, leave, hlast]

theorem leave_mark (tokens : List Token) (c : Char) (rest : List Char) :
    leave (tokens ++ [.mark c]) rest = rest := leave_append tokens (by simp) rest

theorem dropWhile_of_head {rest : List Char} (h : ∀ c ∈ rest.head?, isNamePart c = false) :
    rest.dropWhile isNamePart = rest := by
  cases rest with
  | nil => rfl
  | cons c rest => exact List.dropWhile_cons_of_neg (by simp [h c rfl])

theorem leave_of_head {rest : List Char} (h : ∀ c ∈ rest.head?, isNamePart c = false)
    (tokens : List Token) : leave tokens rest = rest := by
  rw [leave]
  split
  · exact dropWhile_of_head h
  · rfl

theorem leave_name {name : String} (hn : IsIdentifier name) {blanks tail : List Char}
    (hb : Blanks blanks) (ht : ∀ c ∈ tail.head?, isNamePart c = false) (tokens : List Token) :
    leave tokens (blanks ++ (name.toList ++ tail)) = blanks ++ (name.toList ++ tail) ∨
      leave tokens (blanks ++ (name.toList ++ tail)) = tail := by
  obtain ⟨c, cs, hname, -, hcs⟩ := hn
  cases blanks with
  | cons b blanks =>
    refine .inl (leave_of_head ?_ tokens)
    intro d hd
    obtain rfl : b = d := by simpa using hd
    exact (not_name_of_isBlank (hb b (by simp))).2
  | nil =>
    rw [hname, List.nil_append]
    cases hc : isNamePart c with
    | false =>
      refine .inl (leave_of_head ?_ tokens)
      intro d hd
      obtain rfl : c = d := by simpa using hd
      exact hc
    | true =>
      have hall : ∀ d ∈ c :: cs, isNamePart d = true := by simpa [hc] using hcs
      rw [leave]
      split
      · exact .inr (by rw [List.dropWhile_append_of_pos hall, dropWhile_of_head ht])
      · exact .inl rfl

theorem leave_suffixTokens (suffix : TypeSuffix) (rest : List Char) :
    leave (suffixTokens suffix) rest = rest := by
  cases suffix with
  | nullable => rfl
  | pointer => rfl
  | array commas => exact leave_mark _ _ _

def Stops (marks : List Char) (cs : List Char) : Prop := ∀ c ∈ next cs, c ∉ marks

def pathMarks : List Char := ['.', '<', ':']

def typeMarks : List Char := ['.', '<', ':', '?', '*', '[']

theorem exists_mark_suffixTokens (suffix : TypeSuffix) :
    ∃ c more, c ∈ marks ∧ c ∉ pathMarks ∧ suffixTokens suffix = .mark c :: more := by
  cases suffix with
  | nullable => exact ⟨'?', [], by decide, by decide, rfl⟩
  | pointer => exact ⟨'*', [], by decide, by decide, rfl⟩
  | array commas => exact ⟨'[', _, by decide, by decide, rfl⟩

def closers : List Char := [',', ')', '>']

theorem mem_marks_of_mem_closers {c : Char} (h : c ∈ closers) : c ∈ marks ∧ c ∉ typeMarks := by
  simp only [closers, List.mem_cons, List.not_mem_nil, or_false] at h
  rcases h with rfl | rfl | rfl <;> decide

theorem Stops.mono {ms more cs : List Char} (h : Stops more cs) (hm : ∀ c ∈ ms, c ∈ more) :
    Stops ms cs := fun c hc hin => h c hc (hm c hin)

theorem Stops.eat_eq_none {ms cs : List Char} (h : Stops ms cs) {c : Char} (hc : c ∈ ms) :
    eat c cs = none := TypeText.eat_eq_none fun hn => h c hn hc

theorem stops_of_readName {cs rest : List Char} {name : String}
    (h : readName cs = some (name, rest)) : Stops marks cs := by
  intro d hd hm
  rw [readName_eq_none] at h
  · exact absurd h (by simp)
  · intro c hc
    obtain rfl : d = c := Option.some.inj (hd.symm.trans hc)
    exact (not_name_of_mem_marks hm).1

section

variable {joint : Token → List Char → Prop} {cs rest : List Char} {tokens : List Token} {c : Char}

theorem head_of_blanks {blanks : List Char} (hb : Blanks blanks) (hc : c ∈ marks)
    (tail : List Char) : ∀ d ∈ (blanks ++ c :: tail).head?, isNamePart d = false := by
  intro d hd
  cases blanks with
  | nil =>
    obtain rfl : c = d := by simpa using hd
    exact (not_name_of_mem_marks hc).2
  | cons b blanks =>
    obtain rfl : b = d := by simpa using hd
    exact (not_name_of_isBlank (hb b (by simp))).2

theorem head_of_spelled_mark (hc : c ∈ marks) (h : Spelled joint (.mark c :: tokens) cs rest) :
    ∀ d ∈ cs.head?, isNamePart d = false := by
  obtain ⟨blanks, tail, hb, rfl, -, -⟩ := h
  exact head_of_blanks hb hc tail

theorem leave_of_spelled_mark (hc : c ∈ marks) (h : Spelled joint (.mark c :: tokens) cs rest)
    (before : List Token) : leave before cs = cs := leave_of_head (head_of_spelled_mark hc h) before

theorem next_of_spelled_mark (hc : c ∈ marks) (h : Spelled joint (.mark c :: tokens) cs rest) :
    next cs = some c := by
  obtain ⟨blanks, tail, hb, rfl, -, -⟩ := h
  rw [next_append hb]
  exact next_cons (not_blank_of_mem_marks hc) tail

theorem stops_of_spelled_mark (hc : c ∈ marks) (h : Spelled joint (.mark c :: tokens) cs rest)
    {ms : List Char} (hm : c ∉ ms) : Stops ms cs := by
  intro d hd
  rw [next_of_spelled_mark hc h] at hd
  exact Option.some.inj hd ▸ hm

theorem eat_of_spelled_mark (hc : c ∈ marks) (h : Spelled joint (.mark c :: tokens) cs rest) :
    ∃ tail, eat c cs = some tail ∧ Spelled joint tokens tail rest := by
  obtain ⟨blanks, tail, hb, rfl, -, hs⟩ := h
  exact ⟨tail, (eat_eq_some_iff hc).mpr ⟨blanks, hb, rfl⟩, hs⟩

theorem eatColons_of_spelled (h : Spelled joint (.colons :: tokens) cs rest) :
    (∀ before, leave before cs = cs) ∧
      ∃ tail, eatColons cs = some tail ∧ Spelled joint tokens tail rest := by
  obtain ⟨blanks, tail, hb, rfl, -, hs⟩ := h
  exact ⟨leave_of_head (head_of_blanks hb (by decide) _),
    tail, eatColons_eq_some_iff.mpr ⟨blanks, hb, rfl⟩, hs⟩

theorem optionalName_of_spelled_mark (hc : c ∈ marks)
    (h : Spelled joint (.mark c :: tokens) cs rest) :
    optionalName (trimStartChars cs) = (none, trimStartChars cs) := by
  rw [optionalName, readName_trimStartChars, readName_eq_none]
  intro d hd
  rw [next_of_spelled_mark hc h] at hd
  exact Option.some.inj hd ▸ (not_name_of_mem_marks hc).1

theorem readName_of_spelled {name : String} (hn : IsIdentifier name)
    (h : Spelled joint (.name name :: tokens) cs rest) :
    ∃ longer tail, readName cs = some (longer, leave [.name name] tail) ∧
      Spelled joint tokens tail rest := by
  obtain ⟨blanks, tail, hb, rfl, -, hs⟩ := h
  obtain ⟨longer, hr⟩ := readName_append hn hb tail
  exact ⟨longer, tail, hr, hs⟩

end

def Accepted (joint : Token → List Char → Prop) : Nonterminal → List Token → Prop
  | .type, tokens => ∀ cs rest, Spelled joint tokens cs rest → Stops typeMarks (leave tokens rest) →
    ∃ type, ∀ fuel, tokens.length + 1 ≤ fuel →
      readType fuel cs = .ok (type, trimStartChars (leave tokens rest))
  | .suffixes, tokens => ∀ before cs rest, Spelled joint tokens cs rest →
    Stops typeMarks (leave (before ++ tokens) rest) → Stops pathMarks (leave before cs) ∧
      ∀ type, ∃ result, readSuffixes type (leave before cs) =
        some (result, trimStartChars (leave (before ++ tokens) rest))
  | .elements, tokens => ∀ cs rest, Spelled joint (tokens ++ [.mark ')']) cs rest →
    ∃ elements, ∀ fuel, tokens.length + 2 ≤ fuel → readElements fuel cs = .ok (elements, rest)
  | .element, tokens => ∀ c ∈ closers, ∀ cs mid rest, Spelled joint tokens cs mid →
    Spelled joint [.mark c] mid rest → ∃ type tail,
      (∀ fuel, tokens.length + 1 ≤ fuel → readType fuel cs = .ok (type, tail)) ∧
        next (optionalName tail).2 = some c ∧ eat c (optionalName tail).2 = some rest
  | .path, tokens => ∀ cs rest, Spelled joint tokens cs rest → Stops pathMarks (leave tokens rest) →
    ∃ name tail segments, readName cs = some (name, tail) ∧ next tail ≠ some ':' ∧
      ∀ fuel, tokens.length ≤ fuel →
        readSegments fuel name tail = .ok (segments, leave tokens rest)
  | .segment, tokens => ∀ cs rest, Spelled joint tokens cs rest →
    next (leave tokens rest) ≠ some '<' →
    ∃ name tail arguments, readName cs = some (name, tail) ∧
      (next tail = some '<' ∨ next tail = next (leave tokens rest)) ∧
      ∀ fuel, tokens.length ≤ fuel + 1 →
        optionalArguments fuel tail = .ok (arguments, leave tokens rest)
  | .arguments, tokens => ∀ cs rest, Spelled joint (tokens ++ [.mark '>']) cs rest →
    ∃ arguments, ∀ fuel, tokens.length + 2 ≤ fuel → readArguments fuel cs = .ok (arguments, rest)

namespace Accepted

variable {joint : Token → List Char → Prop}

theorem noSuffix : Accepted joint .suffixes [] := by
  intro before cs rest hs hstop
  obtain rfl : cs = rest := hs
  rw [List.append_nil] at hstop ⊢
  refine ⟨hstop.mono (by simp [pathMarks, typeMarks]),
    fun type => ⟨type, readSuffixes_stop ?_ type⟩⟩
  exact hstop.mono (by simp [typeMarks])

theorem suffix (suffix : TypeSuffix) {suffixes : List Token}
    (ih : Accepted joint .suffixes suffixes) :
    Accepted joint .suffixes (suffixTokens suffix ++ suffixes) := by
  intro before cs rest hs hstop
  obtain ⟨c, more, hmark, hpath, htokens⟩ := exists_mark_suffixTokens suffix
  have hfirst : Spelled joint (.mark c :: (more ++ suffixes)) cs rest := by
    rwa [htokens] at hs
  obtain ⟨mid, hs, hm⟩ := Spelled.append_iff.mp hs
  have hmid : leave (suffixTokens suffix) mid = mid := leave_suffixTokens suffix mid
  rw [leave_append before (by simp [htokens])] at hstop ⊢
  rw [leave_of_spelled_mark hmark hfirst]
  refine ⟨stops_of_spelled_mark hmark hfirst hpath, fun type => ?_⟩
  obtain ⟨result, hr⟩ := (ih (suffixTokens suffix) mid rest hm hstop).2 (.suffixed type suffix)
  rw [hmid] at hr
  exact ⟨result, (readSuffixes_suffix suffix type hs).trans hr⟩

theorem readType_before_mark {type more : List Token} (ih : Accepted joint .type type) {c : Char}
    (hc : c ∈ closers) {cs mid rest : List Char} (hs : Spelled joint type cs mid)
    (hm : Spelled joint (.mark c :: more) mid rest) :
    ∃ tree, ∀ fuel, type.length + 1 ≤ fuel →
      readType fuel cs = .ok (tree, trimStartChars mid) := by
  obtain ⟨hmark, hnot⟩ := mem_marks_of_mem_closers hc
  have hmid := leave_of_spelled_mark hmark hm type
  have hstop : Stops typeMarks (leave type mid) := by
    rw [hmid]
    exact stops_of_spelled_mark hmark hm hnot
  obtain ⟨tree, ht⟩ := ih cs mid hs hstop
  exact ⟨tree, hmid ▸ ht⟩

theorem plainSegment {name : String} (hn : IsIdentifier name) :
    Accepted joint .segment [.name name] := by
  intro cs rest hs hnext
  obtain ⟨longer, tail, hr, rfl⟩ := readName_of_spelled hn hs
  refine ⟨longer, _, [], hr, .inr rfl, fun fuel _ => ?_⟩
  rw [optionalArguments, eat_eq_none hnext]

theorem genericSegment {name : String} {arguments : List Token} (hn : IsIdentifier name)
    (ih : Accepted joint .arguments arguments) :
    Accepted joint .segment (.name name :: .mark '<' :: arguments ++ [.mark '>']) := by
  intro cs rest hs _
  obtain ⟨longer, tail, hr, hs⟩ := readName_of_spelled hn hs
  obtain ⟨inner, he, hinner⟩ := eat_of_spelled_mark (by decide) hs
  obtain ⟨list, hlist⟩ := ih inner rest hinner
  rw [leave_of_spelled_mark (by decide) hs] at hr
  rw [leave_mark]
  refine ⟨longer, tail, list, hr, .inl (next_of_spelled_mark (by decide) hs), fun fuel hf => ?_⟩
  rw [optionalArguments, he]
  exact hlist fuel (by simp at hf; omega)

theorem lastSegment {segment : List Token} (ih : Accepted joint .segment segment)
    (hne : segment ≠ []) : Accepted joint .path segment := by
  intro cs rest hs hstop
  obtain ⟨name, tail, arguments, hr, hnext, ha⟩ :=
    ih cs rest hs fun hn => hstop '<' hn (by decide)
  refine ⟨name, tail, [(name, arguments)], hr, ?_, fun fuel hf => ?_⟩
  · rcases hnext with hn | hn
    · simp [hn]
    · exact fun hc => hstop ':' (hn ▸ hc) (by decide)
  · cases fuel with
    | zero => exact absurd (List.length_eq_zero_iff.mp (Nat.le_zero.mp hf)) hne
    | succ fuel =>
      have hdot : eat '.' (leave segment rest) = none := hstop.eat_eq_none (by decide)
      rw [readSegments_succ, ha fuel hf, ok_bind]
      simp only [hdot]

theorem moreSegments {segment path : List Token} (ih : Accepted joint .segment segment)
    (ihp : Accepted joint .path path) (hne : path ≠ []) :
    Accepted joint .path (segment ++ .mark '.' :: path) := by
  intro cs rest hs hstop
  obtain ⟨mid, hs, hpath⟩ := Spelled.append_iff.mp hs
  have hleave : leave (segment ++ .mark '.' :: path) rest = leave path rest := by
    rw [leave_append segment (by simp), ← List.singleton_append, leave_append _ hne]
  rw [hleave] at hstop ⊢
  have hmid := leave_of_spelled_mark (by decide) hpath segment
  have hdot := next_of_spelled_mark (by decide) hpath
  obtain ⟨afterDot, he, hpath⟩ := eat_of_spelled_mark (by decide) hpath
  obtain ⟨name, tail, arguments, hr, hnext, ha⟩ := ih cs mid hs (by simp [hmid, hdot])
  obtain ⟨second, tail', segments, hr', -, hsegments⟩ := ihp afterDot rest hpath hstop
  rw [hmid] at hnext ha
  refine ⟨name, tail, (name, arguments) :: segments, hr, ?_, fun fuel hf => ?_⟩
  · rcases hnext with hn | hn <;> simp [hn, hdot]
  · simp only [List.length_append, List.length_cons] at hf
    cases fuel with
    | zero => omega
    | succ fuel =>
      rw [readSegments_succ, ha fuel (by omega), ok_bind]
      simp only [he, hr', expected_some, ok_bind, hsegments fuel (by omega)]

theorem lastArgument {type : List Token} (ih : Accepted joint .type type) :
    Accepted joint .arguments type := by
  intro cs rest hs
  obtain ⟨mid, hs, hend⟩ := Spelled.append_iff.mp hs
  obtain ⟨tree, ht⟩ := ih.readType_before_mark (by decide) hs hend
  have hcomma : next mid ≠ some ',' := by simp [next_of_spelled_mark (by decide) hend]
  obtain ⟨tail, he, rfl⟩ := eat_of_spelled_mark (by decide) hend
  refine ⟨[tree], fun fuel hf => ?_⟩
  cases fuel with
  | zero => omega
  | succ fuel =>
    rw [readArguments_succ, ht fuel (by omega), ok_bind]
    simp only [eat_trimStartChars, eat_eq_none hcomma, he, expected_some, ok_bind]

theorem moreArguments {type arguments : List Token} (ih : Accepted joint .type type)
    (iha : Accepted joint .arguments arguments) :
    Accepted joint .arguments (type ++ .mark ',' :: arguments) := by
  intro cs rest hs
  rw [List.append_assoc] at hs
  obtain ⟨mid, hs, hmore⟩ := Spelled.append_iff.mp hs
  obtain ⟨tree, ht⟩ := ih.readType_before_mark (by decide) hs hmore
  obtain ⟨tail, he, hmore⟩ := eat_of_spelled_mark (by decide) hmore
  obtain ⟨list, hlist⟩ := iha tail rest hmore
  refine ⟨tree :: list, fun fuel hf => ?_⟩
  simp only [List.length_append, List.length_cons] at hf
  cases fuel with
  | zero => omega
  | succ fuel =>
    rw [readArguments_succ, ht fuel (by omega), ok_bind]
    simp only [eat_trimStartChars, he, hlist fuel (by omega), ok_bind]

theorem plainElement {type : List Token} (ih : Accepted joint .type type) :
    Accepted joint .element type := by
  intro c hc cs mid rest hs hm
  obtain ⟨tree, ht⟩ := ih.readType_before_mark hc hs hm
  have hmark := (mem_marks_of_mem_closers hc).1
  have hnext := next_of_spelled_mark hmark hm
  have hnone := optionalName_of_spelled_mark hmark hm
  obtain ⟨tail, he, rfl⟩ := eat_of_spelled_mark hmark hm
  refine ⟨tree, trimStartChars mid, ht, ?_, ?_⟩
  · rw [hnone, next_trimStartChars, hnext]
  · rw [hnone, eat_trimStartChars, he]

theorem namedElement {type : List Token} {name : String} (ih : Accepted joint .type type)
    (hn : IsIdentifier name) : Accepted joint .element (type ++ [.name name]) := by
  intro c hc cs mid rest hs hm
  obtain ⟨hmark, hnot⟩ := mem_marks_of_mem_closers hc
  have hhead := head_of_spelled_mark hmark hm
  have hnext := next_of_spelled_mark hmark hm
  have hnone := optionalName_of_spelled_mark hmark hm
  have hstop := stops_of_spelled_mark hmark hm hnot
  obtain ⟨after, he, rfl⟩ := eat_of_spelled_mark hmark hm
  obtain ⟨start, htype, blanks, tail, hb, rfl, -, rfl⟩ := Spelled.append_iff.mp hs
  change Spelled joint type cs (blanks ++ (name.toList ++ tail)) at htype
  obtain ⟨longer, hr⟩ := readName_append hn hb tail
  rw [dropWhile_of_head hhead] at hr
  rcases leave_name hn hb hhead type with hl | hl
  · have hstart : Stops typeMarks (blanks ++ (name.toList ++ tail)) :=
      (stops_of_readName hr).mono (by simp [typeMarks, marks])
    obtain ⟨tree, ht⟩ := ih cs _ htype (by rwa [hl])
    rw [hl] at ht
    have hsome : optionalName (trimStartChars (blanks ++ (name.toList ++ tail))) =
        (some longer, tail) := by
      rw [optionalName, readName_trimStartChars, hr]
    refine ⟨tree, _, fun fuel hf => ht fuel ?_, ?_, ?_⟩
    · simp at hf; omega
    · rw [hsome, hnext]
    · rw [hsome, he]
  · -- The reader takes the name for the end of the type and finds none behind it.
    obtain ⟨tree, ht⟩ := ih cs _ htype (by rwa [hl])
    rw [hl] at ht
    refine ⟨tree, _, fun fuel hf => ht fuel ?_, ?_, ?_⟩
    · simp at hf; omega
    · rw [hnone, next_trimStartChars, hnext]
    · rw [hnone, eat_trimStartChars, he]

theorem lastElement {element : List Token} (ih : Accepted joint .element element) :
    Accepted joint .elements element := by
  intro cs rest hs
  obtain ⟨mid, hs, hend⟩ := Spelled.append_iff.mp hs
  obtain ⟨tree, tail, ht, hnext, he⟩ := ih ')' (by decide) cs mid rest hs hend
  have hcomma : eat ',' (optionalName tail).2 = none := eat_eq_none (by simp [hnext])
  refine ⟨[(tree, (optionalName tail).1)], fun fuel hf => ?_⟩
  cases fuel with
  | zero => omega
  | succ fuel =>
    rw [readElements_succ, ht fuel (by omega), ok_bind]
    simp only [hcomma, he, expected_some, ok_bind]

theorem moreElements {element elements : List Token} (ih : Accepted joint .element element)
    (ihe : Accepted joint .elements elements) :
    Accepted joint .elements (element ++ .mark ',' :: elements) := by
  intro cs rest hs
  have hassoc : element ++ .mark ',' :: elements ++ [.mark ')'] =
      element ++ ([.mark ','] ++ (elements ++ [.mark ')'])) := by simp
  rw [hassoc] at hs
  obtain ⟨mid, hs, hmore⟩ := Spelled.append_iff.mp hs
  obtain ⟨more, hcomma, hmore⟩ := Spelled.append_iff.mp hmore
  obtain ⟨tree, tail, ht, -, he⟩ := ih ',' (by decide) cs mid more hs hcomma
  obtain ⟨list, hlist⟩ := ihe more rest hmore
  refine ⟨(tree, (optionalName tail).1) :: list, fun fuel hf => ?_⟩
  simp only [List.length_append, List.length_cons] at hf
  cases fuel with
  | zero => omega
  | succ fuel =>
    rw [readElements_succ, ht fuel (by omega), ok_bind]
    simp only [he, hlist fuel (by omega), ok_bind]

theorem tuple {elements suffixes : List Token} (ih : Accepted joint .elements elements)
    (ihs : Accepted joint .suffixes suffixes) :
    Accepted joint .type (.mark '(' :: elements ++ .mark ')' :: suffixes) := by
  intro cs rest hs hstop
  have hassoc : Token.mark '(' :: elements ++ .mark ')' :: suffixes =
      (.mark '(' :: (elements ++ [.mark ')'])) ++ suffixes := by simp
  rw [hassoc] at hs hstop ⊢
  obtain ⟨mid, hs, hsuffixes⟩ := Spelled.append_iff.mp hs
  obtain ⟨inner, he, hinner⟩ := eat_of_spelled_mark (by decide) hs
  obtain ⟨list, hlist⟩ := ih inner mid hinner
  obtain ⟨result, hr⟩ := (ihs _ mid rest hsuffixes hstop).2 (.tuple list)
  rw [← List.cons_append, leave_mark] at hr
  refine ⟨result, fun fuel hf => ?_⟩
  simp only [List.length_append, List.length_cons] at hf
  cases fuel with
  | zero => omega
  | succ fuel =>
    rw [readType_succ]
    simp only [he, hlist fuel (by omega), ok_bind]
    exact expected_eq_ok_iff.mpr hr

theorem named {path suffixes : List Token} (ih : Accepted joint .path path)
    (ihs : Accepted joint .suffixes suffixes) : Accepted joint .type (path ++ suffixes) := by
  intro cs rest hs hstop
  obtain ⟨mid, hs, hsuffixes⟩ := Spelled.append_iff.mp hs
  obtain ⟨hpath, hread⟩ := ihs path mid rest hsuffixes hstop
  obtain ⟨name, tail, segments, hname, hcolon, hsegments⟩ := ih cs mid hs hpath
  obtain ⟨result, hr⟩ := hread (.named none segments)
  refine ⟨result, fun fuel hf => ?_⟩
  simp only [List.length_append] at hf
  cases fuel with
  | zero => omega
  | succ fuel =>
    rw [readType_succ, (stops_of_readName hname).eat_eq_none (by decide)]
    simp only [hname, expected_some, ok_bind, eatColons_eq_none hcolon, hsegments fuel (by omega), hr]

theorem aliased {root : String} {path suffixes : List Token} (hn : IsIdentifier root)
    (ih : Accepted joint .path path) (hne : path ≠ []) (ihs : Accepted joint .suffixes suffixes) :
    Accepted joint .type (.name root :: .colons :: path ++ suffixes) := by
  intro cs rest hs hstop
  obtain ⟨longer, tail, hname, hs⟩ := readName_of_spelled hn hs
  obtain ⟨hleave, afterColons, hcolons, hs⟩ := eatColons_of_spelled hs
  obtain ⟨mid, hs, hsuffixes⟩ := Spelled.append_iff.mp hs
  have hend :
      leave (.name root :: .colons :: path ++ suffixes) rest = leave (path ++ suffixes) rest :=
    leave_append [.name root, .colons] (by simp [hne]) rest
  rw [hend] at hstop ⊢
  rw [hleave] at hname
  obtain ⟨hpath, hread⟩ := ihs path mid rest hsuffixes hstop
  obtain ⟨name, tail', segments, hname', -, hsegments⟩ := ih afterColons mid hs hpath
  obtain ⟨result, hr⟩ := hread (.named (some longer) segments)
  refine ⟨result, fun fuel hf => ?_⟩
  simp only [List.length_append, List.length_cons] at hf
  cases fuel with
  | zero => omega
  | succ fuel =>
    rw [readType_succ, (stops_of_readName hname).eat_eq_none (by decide)]
    simp only [hname, hcolons, hname', hsegments fuel (by omega), expected_some, ok_bind, hr]

end Accepted

theorem Derives.accepted {joint : Token → List Char → Prop} {nonterminal : Nonterminal}
    {tokens : List Token} (h : Derives nonterminal tokens) : Accepted joint nonterminal tokens := by
  induction h with
  | tuple _ _ ihe ihs => exact ihe.tuple ihs
  | named _ _ ihp ihs => exact ihp.named ihs
  | aliased hn hp _ ihp ihs => exact .aliased hn ihp (hp.ne_nil (by simp)) ihs
  | noSuffix => exact .noSuffix
  | suffix suffix _ ih => exact .suffix suffix ih
  | lastElement _ ih => exact ih.lastElement
  | moreElements _ _ ih ihe => exact ih.moreElements ihe
  | plainElement _ ih => exact ih.plainElement
  | namedElement _ hn ih => exact ih.namedElement hn
  | lastSegment hs ih => exact ih.lastSegment (hs.ne_nil (by simp))
  | moreSegments _ hp ih ihp => exact ih.moreSegments ihp (hp.ne_nil (by simp))
  | plainSegment hn => exact .plainSegment hn
  | genericSegment hn _ ih => exact .genericSegment hn ih
  | lastArgument _ ih => exact ih.lastArgument
  | moreArguments _ _ ih iha => exact ih.moreArguments iha

end HookEvents.TypeText
