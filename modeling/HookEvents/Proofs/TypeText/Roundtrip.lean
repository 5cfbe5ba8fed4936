import HookEvents.Proofs.TypeText.Exact
import HookEvents.Proofs.TypeText.Rendering

/-!
The text of a tree reads back as the tree. The reader only makes trees of which this is true.
-/
namespace HookEvents.TypeText

open Text

mutual

def Proper : TypeText → Prop
  | .named root segments =>
    (∀ name ∈ root, IsIdentifier name) ∧ segments ≠ [] ∧ ProperSegments segments
  | .tuple elements => elements ≠ [] ∧ ProperElements elements
  | .suffixed element _ => element.Proper

def ProperAll : List TypeText → Prop
  | [] => True
  | type :: types => type.Proper ∧ ProperAll types

def ProperSegments : List (String × List TypeText) → Prop
  | [] => True
  | (name, arguments) :: segments =>
    IsIdentifier name ∧ ProperAll arguments ∧ ProperSegments segments

def ProperElements : List (TypeText × Option String) → Prop
  | [] => True
  | (type, name) :: elements =>
    type.Proper ∧ (∀ text ∈ name, IsIdentifier text) ∧ ProperElements elements

end

theorem readSuffixes_proper (cs : List Char) :
    (∀ type result rest, type.Proper → readSuffixes type cs = some (result, rest) →
      result.Proper) ∧
    ∀ type commas result rest, type.Proper → readRank type commas cs = some (result, rest) →
      result.Proper := by
  induction cs with
  | nil =>
    refine ⟨fun type result rest hp h => ?_, fun type commas result rest hp h => ?_⟩
    · obtain ⟨rfl, rfl⟩ := Prod.mk.inj (Option.some.inj h)
      exact hp
    · exact absurd h (by simp [readRank])
  | cons c cs ih =>
    refine ⟨fun type result rest hp h => ?_, fun type commas result rest hp h => ?_⟩
    · rw [readSuffixes] at h
      split at h
      · exact ih.1 type result rest hp h
      split at h
      · exact ih.1 (.suffixed type .nullable) result rest hp h
      split at h
      · exact ih.1 (.suffixed type .pointer) result rest hp h
      split at h
      · exact ih.2 type 0 result rest hp h
      · obtain ⟨rfl, rfl⟩ := Prod.mk.inj (Option.some.inj h)
        exact hp
    · rw [readRank] at h
      split at h
      · exact ih.2 type commas result rest hp h
      split at h
      · exact ih.2 type (commas + 1) result rest hp h
      split at h
      · exact ih.1 (.suffixed type (.array commas)) result rest hp h
      · exact absurd h (by simp)

structure ReadsProper (fuel : Nat) : Prop where
  type : ∀ cs type rest, readType fuel cs = .ok (type, rest) → type.Proper
  elements : ∀ cs elements rest, readElements fuel cs = .ok (elements, rest) →
    elements ≠ [] ∧ ProperElements elements
  segments : ∀ name cs segments rest, IsIdentifier name →
    readSegments fuel name cs = .ok (segments, rest) → segments ≠ [] ∧ ProperSegments segments
  arguments : ∀ cs arguments rest, readArguments fuel cs = .ok (arguments, rest) →
    ProperAll arguments

namespace ReadsProper

variable {fuel : Nat}

theorem readElements_proper (ih : ReadsProper fuel) {cs rest : List Char}
    {elements : List (TypeText × Option String)}
    (h : readElements (fuel + 1) cs = .ok (elements, rest)) :
    elements ≠ [] ∧ ProperElements elements := by
  rw [readElements_succ] at h
  obtain ⟨⟨type, mid⟩, ht, h⟩ := bind_eq_ok_iff.mp h
  have htype := ih.type cs type mid ht
  have hname := (optionalName_sound mid).1
  dsimp only at h
  split at h
  next more _ =>
    obtain ⟨⟨others, rest'⟩, hr, h⟩ := bind_eq_ok_iff.mp h
    obtain ⟨rfl, rfl⟩ := Prod.mk.inj (Except.ok.inj h)
    exact ⟨by simp, htype, hname, (ih.elements more others rest' hr).2⟩
  · obtain ⟨rest', -, h⟩ := bind_eq_ok_iff.mp h
    obtain ⟨rfl, rfl⟩ := Prod.mk.inj (Except.ok.inj h)
    exact ⟨by simp, htype, hname, trivial⟩

theorem readArguments_proper (ih : ReadsProper fuel) {cs rest : List Char}
    {arguments : List TypeText} (h : readArguments (fuel + 1) cs = .ok (arguments, rest)) :
    ProperAll arguments := by
  rw [readArguments_succ] at h
  obtain ⟨⟨type, mid⟩, ht, h⟩ := bind_eq_ok_iff.mp h
  have htype := ih.type cs type mid ht
  dsimp only at h
  split at h
  next more _ =>
    obtain ⟨⟨others, rest'⟩, hr, h⟩ := bind_eq_ok_iff.mp h
    obtain ⟨rfl, rfl⟩ := Prod.mk.inj (Except.ok.inj h)
    exact ⟨htype, ih.arguments more others rest' hr⟩
  · obtain ⟨rest', -, h⟩ := bind_eq_ok_iff.mp h
    obtain ⟨rfl, rfl⟩ := Prod.mk.inj (Except.ok.inj h)
    exact ⟨htype, trivial⟩

theorem optionalArguments_proper (ih : ReadsProper fuel) {cs rest : List Char}
    {arguments : List TypeText} (h : optionalArguments fuel cs = .ok (arguments, rest)) :
    ProperAll arguments := by
  rw [optionalArguments] at h
  split at h
  next mid _ => exact ih.arguments mid arguments rest h
  · obtain ⟨rfl, rfl⟩ := Prod.mk.inj (Except.ok.inj h)
    trivial

theorem readSegments_proper (ih : ReadsProper fuel) {name : String} (hn : IsIdentifier name)
    {cs rest : List Char} {segments : List (String × List TypeText)}
    (h : readSegments (fuel + 1) name cs = .ok (segments, rest)) :
    segments ≠ [] ∧ ProperSegments segments := by
  rw [readSegments_succ] at h
  obtain ⟨⟨arguments, mid⟩, ha, h⟩ := bind_eq_ok_iff.mp h
  have harguments := ih.optionalArguments_proper ha
  dsimp only at h
  split at h
  next afterDot _ =>
    obtain ⟨⟨next, afterName⟩, hname, h⟩ := bind_eq_ok_iff.mp h
    obtain ⟨⟨others, rest'⟩, hr, h⟩ := bind_eq_ok_iff.mp h
    obtain ⟨rfl, rfl⟩ := Prod.mk.inj (Except.ok.inj h)
    have hnext := (readName_eq_some (expected_eq_ok_iff.mp hname)).1
    exact ⟨by simp, hn, harguments, (ih.segments next afterName others rest' hnext hr).2⟩
  · obtain ⟨rfl, rfl⟩ := Prod.mk.inj (Except.ok.inj h)
    exact ⟨by simp, hn, harguments, trivial⟩

theorem readType_proper (ih : ReadsProper fuel) {cs rest : List Char} {type : TypeText}
    (h : readType (fuel + 1) cs = .ok (type, rest)) : type.Proper := by
  rw [readType_succ] at h
  split at h
  next inner _ =>
    obtain ⟨⟨elements, mid⟩, hr, h⟩ := bind_eq_ok_iff.mp h
    have htuple : (TypeText.tuple elements).Proper := ih.elements inner elements mid hr
    exact (readSuffixes_proper mid).1 _ type rest htuple (expected_eq_ok_iff.mp h)
  · obtain ⟨⟨first, mid⟩, hname, h⟩ := bind_eq_ok_iff.mp h
    have hfirst := (readName_eq_some (expected_eq_ok_iff.mp hname)).1
    dsimp only at h
    split at h
    next afterColons _ =>
      obtain ⟨⟨name, afterName⟩, hname', h⟩ := bind_eq_ok_iff.mp h
      obtain ⟨⟨segments, afterPath⟩, hr, h⟩ := bind_eq_ok_iff.mp h
      have hn := (readName_eq_some (expected_eq_ok_iff.mp hname')).1
      have hnamed : (TypeText.named (some first) segments).Proper :=
        ⟨by simpa using hfirst, ih.segments name afterName segments afterPath hn hr⟩
      exact (readSuffixes_proper afterPath).1 _ type rest hnamed (expected_eq_ok_iff.mp h)
    · obtain ⟨⟨segments, afterPath⟩, hr, h⟩ := bind_eq_ok_iff.mp h
      have hnamed : (TypeText.named none segments).Proper :=
        ⟨by simp, ih.segments first mid segments afterPath hfirst hr⟩
      exact (readSuffixes_proper afterPath).1 _ type rest hnamed (expected_eq_ok_iff.mp h)

end ReadsProper

theorem readsProper (fuel : Nat) : ReadsProper fuel := by
  induction fuel with
  | zero =>
    refine ⟨fun cs type rest h => ?_, fun cs elements rest h => ?_,
      fun name cs segments rest _ h => ?_, fun cs arguments rest h => ?_⟩ <;> cases h
  | succ fuel ih =>
    exact ⟨fun _ _ _ => ih.readType_proper, fun _ _ _ => ih.readElements_proper,
      fun _ _ _ _ hn => ih.readSegments_proper hn, fun _ _ _ => ih.readArguments_proper⟩

theorem parse?_proper {text : String} {type : TypeText} (h : parse? text = some type) :
    type.Proper := by
  obtain ⟨rest, hr, -⟩ := parse?_eq_some_iff.mp h
  exact (readsProper _).type _ type rest hr

section Spelled

variable {cs mid rest : List Char} {tokens : List Token} {fuel : Nat}

theorem readName_spelled {name : String} (hn : IsIdentifier name)
    (h : Spelled Token.EndsAt (.name name :: tokens) cs rest) :
    ∃ tail, readName cs = some (name, tail) ∧ Spelled Token.EndsAt tokens tail rest := by
  obtain ⟨blanks, tail, hb, rfl, hend, hs⟩ := h
  obtain ⟨c, letters, hname, hc, hletters⟩ := hn
  refine ⟨tail, ?_, hs⟩
  have hstop : tail.takeWhile isNamePart = [] := by
    cases tail with
    | nil => rfl
    | cons d tail => exact List.takeWhile_cons_of_neg (by simp [hend d rfl])
  have hblank := not_blank_of_isNameStart hc
  have hread : String.ofList (c :: letters) = name := by rw [← hname, String.ofList_toList]
  rw [readName, trimStartChars_append hb, Token.chars, hname, List.cons_append,
    trimStartChars_cons hblank]
  simp [hc, List.takeWhile_append_of_pos hletters, List.dropWhile_append_of_pos hletters, hstop,
    dropWhile_of_head hend, hread]

def ReadsBack (fuel : Nat) (type : TypeText) : Prop :=
  ∀ cs rest, Spelled Token.EndsAt type.tokens cs rest → Stops pathMarks rest →
    readType fuel cs = expected (readSuffixes type rest)

theorem ReadsBack.stops {type : TypeText} (h : ReadsBack fuel type)
    (hs : Spelled Token.EndsAt type.tokens cs mid) (hstop : Stops typeMarks mid) :
    readType fuel cs = .ok (type, trimStartChars mid) := by
  rw [h cs mid hs (hstop.mono (by simp [pathMarks, typeMarks]))]
  exact expected_eq_ok_iff.mpr (readSuffixes_stop (hstop.mono (by simp [typeMarks])) type)

theorem ReadsBack.before_mark {type : TypeText} (h : ReadsBack fuel type) {c : Char}
    (hc : c ∈ closers) (hs : Spelled Token.EndsAt (type.tokens ++ .mark c :: tokens) cs rest) :
    ∃ mid, readType fuel cs = .ok (type, trimStartChars mid) ∧
      Spelled Token.EndsAt (.mark c :: tokens) mid rest := by
  obtain ⟨mid, hs, hmark⟩ := Spelled.append_iff.mp hs
  obtain ⟨hm, hnot⟩ := mem_marks_of_mem_closers hc
  exact ⟨mid, h.stops hs (stops_of_spelled_mark hm hmark hnot), hmark⟩

theorem ReadsBack.element {type : TypeText} (h : ReadsBack fuel type) {name : Option String}
    (hn : ∀ text ∈ name, IsIdentifier text) {c : Char} (hc : c ∈ closers)
    (hs : Spelled Token.EndsAt (type.tokens ++ ((name.map Token.name).toList ++ .mark c :: tokens))
      cs rest) :
    ∃ tail after further, readType fuel cs = .ok (type, tail) ∧ optionalName tail = (name, after) ∧
      next after = some c ∧ eat c after = some further ∧
      Spelled Token.EndsAt tokens further rest := by
  have hm := (mem_marks_of_mem_closers hc).1
  cases name with
  | none =>
    obtain ⟨mid, hread, hmark⟩ := h.before_mark hc hs
    obtain ⟨further, he, hfurther⟩ := eat_of_spelled_mark hm hmark
    refine ⟨_, _, further, hread, optionalName_of_spelled_mark hm hmark, ?_, ?_, hfurther⟩
    · rw [next_trimStartChars, next_of_spelled_mark hm hmark]
    · rw [eat_trimStartChars, he]
  | some text =>
    obtain ⟨mid, hs, hname⟩ := Spelled.append_iff.mp hs
    obtain ⟨after, hread, hmark⟩ := readName_spelled (hn text rfl) hname
    obtain ⟨further, he, hfurther⟩ := eat_of_spelled_mark hm hmark
    have hstop : Stops typeMarks mid := (stops_of_readName hread).mono (by simp [typeMarks, marks])
    refine ⟨_, after, further, h.stops hs hstop, ?_, next_of_spelled_mark hm hmark, he, hfurther⟩
    rw [optionalName, readName_trimStartChars, hread]

end Spelled

def argumentPart (arguments : List TypeText) : List Token :=
  if arguments.isEmpty then [] else .mark '<' :: argumentTokens arguments ++ [.mark '>']

def segmentPart (segments : List (String × List TypeText)) : List Token :=
  if segments.isEmpty then [] else .mark '.' :: segmentTokens segments

theorem segmentTokens_cons (name : String) (arguments : List TypeText)
    (segments : List (String × List TypeText)) :
    segmentTokens ((name, arguments) :: segments) =
      .name name :: (argumentPart arguments ++ segmentPart segments) := rfl

theorem length_argumentPart {arguments : List TypeText} (h : arguments ≠ []) :
    (argumentPart arguments).length = (argumentTokens arguments).length + 2 := by
  simp [argumentPart, h]

theorem optionalArguments_spelled {fuel : Nat} {arguments : List TypeText} {cs rest : List Char}
    (h : arguments ≠ [] → ∀ inner,
      Spelled Token.EndsAt (argumentTokens arguments ++ [.mark '>']) inner rest →
        readArguments fuel inner = .ok (arguments, rest))
    (hs : Spelled Token.EndsAt (argumentPart arguments) cs rest) (hnext : next rest ≠ some '<') :
    (next cs = some '<' ∨ next cs = next rest) ∧
      optionalArguments fuel cs = .ok (arguments, rest) := by
  cases arguments with
  | nil =>
    obtain rfl : cs = rest := hs
    exact ⟨.inr rfl, by rw [optionalArguments, eat_eq_none hnext]⟩
  | cons type types =>
    obtain ⟨inner, he, hinner⟩ := eat_of_spelled_mark (by decide) hs
    exact ⟨.inl (next_of_spelled_mark (by decide) hs),
      by rw [optionalArguments, he]; exact h (by simp) inner hinner⟩

mutual

theorem readType_spelled (fuel : Nat) (type : TypeText) (hp : type.Proper)
    (hf : type.tokens.length + 1 ≤ fuel) : ReadsBack fuel type := by
  intro cs rest hs hstop
  match type, fuel with
  | .named root [], _ => exact absurd rfl hp.2.1
  | .named none ((name, arguments) :: segments), fuel + 1 =>
    rw [tokens, List.length_append] at hf
    obtain ⟨tail, hread, htail⟩ := readName_spelled hp.2.2.1 hs
    obtain ⟨hcolon, hsegments⟩ :=
      readSegments_spelled fuel ((name, arguments) :: segments) hp.2.2 (by omega) rfl htail hstop
    rw [readType_succ, (stops_of_readName hread).eat_eq_none (by decide)]
    simp only [hread, expected_some, ok_bind, eatColons_eq_none hcolon, hsegments]
  | .named (some root) ((name, arguments) :: segments), fuel + 1 =>
    rw [tokens, List.length_append] at hf
    obtain ⟨tail, hroot, htail⟩ := readName_spelled (hp.1 root rfl) hs
    obtain ⟨-, afterColons, hcolons, hpath⟩ := eatColons_of_spelled htail
    obtain ⟨tail', hread, htail'⟩ := readName_spelled hp.2.2.1 hpath
    obtain ⟨-, hsegments⟩ :=
      readSegments_spelled fuel ((name, arguments) :: segments) hp.2.2 (by omega) rfl htail' hstop
    rw [readType_succ, (stops_of_readName hroot).eat_eq_none (by decide)]
    simp only [hroot, expected_some, ok_bind, hcolons, hread, hsegments]
  | .tuple elements, fuel + 1 =>
    rw [tokens, List.cons_append, List.length_cons, List.length_append, List.length_singleton] at hf
    obtain ⟨inner, he, hinner⟩ := eat_of_spelled_mark (by decide) hs
    have helements := readElements_spelled fuel elements hp.1 hp.2 (by omega) hinner
    rw [readType_succ]
    simp only [he, helements, ok_bind]
  | .suffixed element suffix, fuel =>
    rw [tokens, List.length_append] at hf
    obtain ⟨mid, hs, hsuffix⟩ := Spelled.append_iff.mp hs
    obtain ⟨c, more, hmark, hpath, htokens⟩ := exists_mark_suffixTokens suffix
    have hmid : Stops pathMarks mid := by
      rw [htokens] at hsuffix
      exact stops_of_spelled_mark hmark hsuffix hpath
    have helement := readType_spelled fuel element hp (by omega)
    rw [helement cs mid hs hmid, readSuffixes_suffix suffix element hsuffix]

theorem readElements_spelled (fuel : Nat) (elements : List (TypeText × Option String))
    (hne : elements ≠ []) (hp : ProperElements elements) {cs rest : List Char}
    (hf : (elementTokens elements).length + 2 ≤ fuel)
    (hs : Spelled Token.EndsAt (elementTokens elements ++ [.mark ')']) cs rest) :
    readElements fuel cs = .ok (elements, rest) := by
  match elements, fuel with
  | [], _ => exact absurd rfl hne
  | [(type, name)], fuel + 1 =>
    rw [elementTokens, List.length_append, List.length_append] at hf
    have htype := readType_spelled fuel type hp.1 (by omega)
    obtain ⟨tail, after, further, hread, hname, hnext, he, rfl⟩ :=
      htype.element hp.2.1 (c := ')') (by decide) (by simpa [elementTokens] using hs)
    have hcomma : eat ',' after = none := eat_eq_none (by simp [hnext])
    rw [readElements_succ, hread, ok_bind]
    simp only [hname, hcomma, he, expected_some, ok_bind]
  | (type, name) :: second :: elements, fuel + 1 =>
    rw [elementTokens, List.length_append, List.length_append, if_neg (by simp),
      List.length_cons] at hf
    have htype := readType_spelled fuel type hp.1 (by omega)
    obtain ⟨tail, after, further, hread, hname, -, he, hfurther⟩ :=
      htype.element hp.2.1 (c := ',') (by decide) (by simpa [elementTokens] using hs)
    have hrest := readElements_spelled fuel (second :: elements) (by simp) hp.2.2 (by omega)
      (by simpa [elementTokens] using hfurther)
    rw [readElements_succ, hread, ok_bind]
    simp only [hname, he, hrest, ok_bind]

theorem readArguments_spelled (fuel : Nat) (arguments : List TypeText) (hne : arguments ≠ [])
    (hp : ProperAll arguments) {cs rest : List Char}
    (hf : (argumentTokens arguments).length + 2 ≤ fuel)
    (hs : Spelled Token.EndsAt (argumentTokens arguments ++ [.mark '>']) cs rest) :
    readArguments fuel cs = .ok (arguments, rest) := by
  match arguments, fuel with
  | [], _ => exact absurd rfl hne
  | [type], fuel + 1 =>
    rw [argumentTokens, List.length_append] at hf
    have htype := readType_spelled fuel type hp.1 (by omega)
    obtain ⟨mid, hread, hmark⟩ :=
      htype.before_mark (c := '>') (by decide) (by simpa [argumentTokens] using hs)
    have hcomma : next mid ≠ some ',' := by simp [next_of_spelled_mark (by decide) hmark]
    obtain ⟨further, he, rfl⟩ := eat_of_spelled_mark (by decide) hmark
    rw [readArguments_succ, hread, ok_bind]
    simp only [eat_trimStartChars, eat_eq_none hcomma, he, expected_some, ok_bind]
  | type :: second :: arguments, fuel + 1 =>
    rw [argumentTokens, List.length_append, if_neg (by simp), List.length_cons] at hf
    have htype := readType_spelled fuel type hp.1 (by omega)
    obtain ⟨mid, hread, hmark⟩ :=
      htype.before_mark (c := ',') (by decide) (by simpa [argumentTokens] using hs)
    obtain ⟨further, he, hfurther⟩ := eat_of_spelled_mark (by decide) hmark
    have hrest := readArguments_spelled fuel (second :: arguments) (by simp) hp.2 (by omega)
      (by simpa [argumentTokens] using hfurther)
    rw [readArguments_succ, hread, ok_bind]
    simp only [eat_trimStartChars, he, hrest, ok_bind]

theorem readSegments_spelled (fuel : Nat) (segments : List (String × List TypeText))
    (hp : ProperSegments segments) {name : String} {tokens : List Token} {cs rest : List Char}
    (hf : (segmentTokens segments).length ≤ fuel)
    (ht : segmentTokens segments = .name name :: tokens)
    (hs : Spelled Token.EndsAt tokens cs rest) (hstop : Stops pathMarks rest) :
    next cs ≠ some ':' ∧ readSegments fuel name cs = .ok (segments, rest) := by
  match segments, fuel with
  | [], _ => exact absurd ht (by simp [segmentTokens])
  | _ :: _, 0 => exact absurd hf (by simp [segmentTokens])
  | (first, arguments) :: segments, fuel + 1 =>
    rw [segmentTokens_cons] at hf ht
    obtain ⟨hfirst, rfl⟩ := List.cons.inj ht
    obtain rfl := Token.name.inj hfirst
    obtain ⟨mid, harguments, hmore⟩ := Spelled.append_iff.mp hs
    simp only [List.length_cons, List.length_append] at hf
    have hread (hne : arguments ≠ []) (inner : List Char) :
        Spelled Token.EndsAt (argumentTokens arguments ++ [.mark '>']) inner mid →
          readArguments fuel inner = .ok (arguments, mid) :=
      readArguments_spelled fuel arguments hne hp.2.1
        (by rw [length_argumentPart hne] at hf; omega)
    match segments with
    | [] =>
      obtain rfl : mid = rest := hmore
      obtain ⟨hnext, hoptional⟩ := optionalArguments_spelled hread harguments
        fun hn => hstop '<' hn (by decide)
      refine ⟨fun hc => hnext.elim (by simp [hc]) fun hn => hstop ':' (hn ▸ hc) (by decide), ?_⟩
      rw [readSegments_succ, hoptional, ok_bind]
      simp only [hstop.eat_eq_none (c := '.') (by decide)]
    | (second, others) :: segments =>
      have hdot := next_of_spelled_mark (by decide) hmore
      obtain ⟨afterDot, he, hpath⟩ := eat_of_spelled_mark (by decide) hmore
      obtain ⟨tail, hname, htail⟩ := readName_spelled hp.2.2.1 hpath
      obtain ⟨-, hsegments⟩ := readSegments_spelled fuel ((second, others) :: segments) hp.2.2
        (by simp [segmentPart] at hf; omega) rfl htail hstop
      obtain ⟨hnext, hoptional⟩ := optionalArguments_spelled hread harguments (by simp [hdot])
      refine ⟨fun hc => hnext.elim (by simp [hc]) (by simp [hc, hdot]), ?_⟩
      rw [readSegments_succ, hoptional, ok_bind]
      simp only [he, hname, expected_some, ok_bind, hsegments]

end

theorem parse?_of_spells {text : String} {type : TypeText} (hp : type.Proper)
    (h : Spells type.tokens text.toList) : parse? text = some type := by
  obtain ⟨left, hleft, hs⟩ := h [] [] (by simp [Blanks]) (by simp)
  simp only [List.nil_append, List.append_nil] at hs
  have hnone : trimStartChars left = [] := trimStartChars_of_blanks hleft
  have hstop : Stops typeMarks left := by
    intro c hc
    rw [next, hnone] at hc
    exact absurd hc (by simp)
  have henough : type.tokens.length + 1 ≤
      2 * text.toList.length + 2 + (type.tokens.length + 1) := by omega
  have hread := (readType_spelled _ type hp henough).stops hs hstop
  rw [readType_fuel (by omega)] at hread
  exact parse?_eq_some_iff.mpr ⟨_, hread, by rw [trimStartChars_trimStartChars, hnone]⟩

theorem parse?_render {type : TypeText} (h : type.Proper) : parse? type.render = some type :=
  parse?_of_spells h (spells_render type)

end HookEvents.TypeText
