import HookEvents.Proofs.TypeText.Lexeme

namespace HookEvents.TypeText

open Text

theorem Derives.ne_nil {nonterminal : Nonterminal} {tokens : List Token}
    (h : Derives nonterminal tokens) (hn : nonterminal ≠ .suffixes) : tokens ≠ [] := by
  induction h with
  | noSuffix => exact absurd rfl hn
  | suffix => exact absurd rfl hn
  | named _ _ ih => exact List.append_ne_nil_of_left_ne_nil (ih (by simp)) _
  | lastElement _ ih => exact ih (by simp)
  | plainElement _ ih => exact ih (by simp)
  | lastSegment _ ih => exact ih (by simp)
  | lastArgument _ ih => exact ih (by simp)
  | _ => simp

def optionalName (cs : List Char) : Option String × List Char :=
  match readName cs with
  | some (name, rest) => (some name, rest)
  | none => (none, cs)

def optionalArguments (fuel : Nat) (cs : List Char) : Reading (List TypeText × List Char) :=
  match eat '<' cs with
  | some rest => readArguments fuel rest
  | none => .ok ([], cs)

section Reading

variable {α β : Type}

@[simp]
theorem expected_some (a : α) : expected (some a) = .ok a := rfl

theorem expected_eq_ok_iff {part : Option α} {a : α} : expected part = .ok a ↔ part = some a := by
  cases part <;> simp [expected]

@[simp]
theorem ok_bind (a : α) (f : α → Reading β) : (Except.ok a).bind f = f a := rfl

theorem bind_eq_ok_iff {reading : Reading α} {f : α → Reading β} {b : β} :
    reading.bind f = .ok b ↔ ∃ a, reading = .ok a ∧ f a = .ok b := by
  cases reading <;> simp [Except.bind]

end Reading

theorem readElements_succ (fuel : Nat) (cs : List Char) :
    readElements (fuel + 1) cs = (readType fuel cs).bind fun (type, rest) =>
      match eat ',' (optionalName rest).2 with
      | some more => (readElements fuel more).bind fun (elements, rest') =>
        .ok ((type, (optionalName rest).1) :: elements, rest')
      | none => (expected (eat ')' (optionalName rest).2)).bind fun rest' =>
        .ok ([(type, (optionalName rest).1)], rest') := rfl

theorem readSegments_succ (fuel : Nat) (name : String) (cs : List Char) :
    readSegments (fuel + 1) name cs = (optionalArguments fuel cs).bind fun (arguments, rest) =>
      match eat '.' rest with
      | some rest => (expected (readName rest)).bind fun (next, rest) =>
        (readSegments fuel next rest).bind fun (segments, rest) =>
          .ok ((name, arguments) :: segments, rest)
      | none => .ok ([(name, arguments)], rest) := by
  rw [readSegments, optionalArguments]
  cases eat '<' cs <;> rfl

theorem readArguments_succ (fuel : Nat) (cs : List Char) :
    readArguments (fuel + 1) cs = (readType fuel cs).bind fun (type, rest) =>
      match eat ',' rest with
      | some rest => (readArguments fuel rest).bind fun (arguments, rest) =>
        .ok (type :: arguments, rest)
      | none => (expected (eat '>' rest)).bind fun rest => .ok ([type], rest) := rfl

theorem readType_succ (fuel : Nat) (cs : List Char) :
    readType (fuel + 1) cs =
      match eat '(' cs with
      | some rest => (readElements fuel rest).bind fun (elements, rest) =>
        expected (readSuffixes (.tuple elements) rest)
      | none => (expected (readName cs)).bind fun (first, rest) =>
        match eatColons rest with
        | some rest => (expected (readName rest)).bind fun (name, rest) =>
          (readSegments fuel name rest).bind fun (segments, rest) =>
            expected (readSuffixes (.named (some first) segments) rest)
        | none => (readSegments fuel first rest).bind fun (segments, rest) =>
          expected (readSuffixes (.named none segments) rest) := rfl

theorem optionalName_sound (cs : List Char) :
    (∀ name ∈ (optionalName cs).1, IsIdentifier name) ∧
      Spelled Token.EndsAt ((optionalName cs).1.map Token.name).toList cs (optionalName cs).2 := by
  rw [optionalName]
  split
  next name rest hn =>
    obtain ⟨hi, hs⟩ := readName_eq_some hn
    exact ⟨by simpa using hi, hs⟩
  · exact ⟨by simp, rfl⟩

theorem Derives.element {type : List Token} (h : Derives .type type) {name : Option String}
    (hn : ∀ text ∈ name, IsIdentifier text) :
    Derives .element (type ++ (name.map Token.name).toList) := by
  cases name with
  | none => simpa using h.plainElement
  | some text => exact h.namedElement (hn text rfl)

theorem spelled_mark {c : Char} (hc : c ∈ marks) {cs mid rest : List Char} {tokens : List Token}
    (he : eat c cs = some mid) (hs : Spelled Token.EndsAt tokens mid rest) :
    Spelled Token.EndsAt (.mark c :: tokens) cs rest := by
  obtain ⟨blanks, hb, rfl⟩ := (eat_eq_some_iff hc).mp he
  exact ⟨blanks, mid, hb, rfl, trivial, hs⟩

theorem Consumes.of_spelled {tokens more : List Token} {cs mid rest : List Char}
    (h : Spelled Token.EndsAt tokens cs mid) (hm : Consumes more mid rest) :
    Consumes (tokens ++ more) cs rest := by
  obtain ⟨tail, hs, hr⟩ := hm
  exact ⟨tail, Spelled.append_iff.mpr ⟨mid, h, hs⟩, hr⟩

structure Sound (fuel : Nat) : Prop where
  type : ∀ cs type rest, readType fuel cs = .ok (type, rest) →
    Derives .type type.tokens ∧ Consumes type.tokens cs rest
  elements : ∀ cs elements rest, readElements fuel cs = .ok (elements, rest) →
    Derives .elements (elementTokens elements) ∧
      Spelled Token.EndsAt (elementTokens elements ++ [.mark ')']) cs rest
  segments : ∀ name cs segments rest, IsIdentifier name →
    readSegments fuel name cs = .ok (segments, rest) →
    Derives .path (segmentTokens segments) ∧ ∃ tokens,
      segmentTokens segments = .name name :: tokens ∧ Spelled Token.EndsAt tokens cs rest
  arguments : ∀ cs arguments rest, readArguments fuel cs = .ok (arguments, rest) →
    Derives .arguments (argumentTokens arguments) ∧
      Spelled Token.EndsAt (argumentTokens arguments ++ [.mark '>']) cs rest

namespace Sound

variable {fuel : Nat}

theorem readElements_sound (ih : Sound fuel) {cs rest : List Char}
    {elements : List (TypeText × Option String)}
    (h : readElements (fuel + 1) cs = .ok (elements, rest)) :
    Derives .elements (elementTokens elements) ∧
      Spelled Token.EndsAt (elementTokens elements ++ [.mark ')']) cs rest := by
  rw [readElements_succ] at h
  obtain ⟨⟨type, mid⟩, ht, h⟩ := bind_eq_ok_iff.mp h
  obtain ⟨hd, hc⟩ := ih.type cs type mid ht
  obtain ⟨hi, hn⟩ := optionalName_sound mid
  dsimp only at h
  split at h
  next more he =>
    obtain ⟨⟨others, rest'⟩, hr, h⟩ := bind_eq_ok_iff.mp h
    obtain ⟨rfl, rfl⟩ := Prod.mk.inj (Except.ok.inj h)
    obtain ⟨hds, hs⟩ := ih.elements more others rest' hr
    have hne : others ≠ [] := by
      rintro rfl
      exact hds.ne_nil (by simp) rfl
    have hmore := spelled_mark (by decide) he hs
    have htail := hc.append (Spelled.append_iff.mpr ⟨_, hn, hmore⟩) (by simp)
    refine ⟨?_, ?_⟩
    · simpa [elementTokens, hne] using (hd.element hi).moreElements hds
    · simpa [elementTokens, hne] using htail
  · obtain ⟨rest', he, h⟩ := bind_eq_ok_iff.mp h
    obtain ⟨rfl, rfl⟩ := Prod.mk.inj (Except.ok.inj h)
    have hend := spelled_mark (by decide) (expected_eq_ok_iff.mp he) .nil
    have htail := hc.append (Spelled.append_iff.mpr ⟨_, hn, hend⟩) (by simp)
    refine ⟨?_, ?_⟩
    · simpa [elementTokens] using (hd.element hi).lastElement
    · simpa [elementTokens] using htail

theorem readArguments_sound (ih : Sound fuel) {cs rest : List Char} {arguments : List TypeText}
    (h : readArguments (fuel + 1) cs = .ok (arguments, rest)) :
    Derives .arguments (argumentTokens arguments) ∧
      Spelled Token.EndsAt (argumentTokens arguments ++ [.mark '>']) cs rest := by
  rw [readArguments_succ] at h
  obtain ⟨⟨type, mid⟩, ht, h⟩ := bind_eq_ok_iff.mp h
  obtain ⟨hd, hc⟩ := ih.type cs type mid ht
  dsimp only at h
  split at h
  next more he =>
    obtain ⟨⟨others, rest'⟩, hr, h⟩ := bind_eq_ok_iff.mp h
    obtain ⟨rfl, rfl⟩ := Prod.mk.inj (Except.ok.inj h)
    obtain ⟨hds, hs⟩ := ih.arguments more others rest' hr
    have hne : others ≠ [] := by
      rintro rfl
      exact hds.ne_nil (by simp) rfl
    have htail := hc.append (spelled_mark (by decide) he hs) (by simp)
    refine ⟨?_, ?_⟩
    · simpa [argumentTokens, hne] using hd.moreArguments hds
    · simpa [argumentTokens, hne] using htail
  · obtain ⟨rest', he, h⟩ := bind_eq_ok_iff.mp h
    obtain ⟨rfl, rfl⟩ := Prod.mk.inj (Except.ok.inj h)
    have htail := hc.append (spelled_mark (by decide) (expected_eq_ok_iff.mp he) .nil) (by simp)
    refine ⟨?_, ?_⟩
    · simpa [argumentTokens] using hd.lastArgument
    · simpa [argumentTokens] using htail

theorem optionalArguments_sound (ih : Sound fuel) {name : String} (hn : IsIdentifier name)
    {cs rest : List Char} {arguments : List TypeText}
    (h : optionalArguments fuel cs = .ok (arguments, rest)) :
    Derives .segment (segmentTokens [(name, arguments)]) ∧ ∃ tokens,
      segmentTokens [(name, arguments)] = .name name :: tokens ∧
        Spelled Token.EndsAt tokens cs rest := by
  rw [optionalArguments] at h
  split at h
  next mid he =>
    obtain ⟨hd, hs⟩ := ih.arguments mid arguments rest h
    have hne : arguments ≠ [] := by
      rintro rfl
      exact hd.ne_nil (by simp) rfl
    refine ⟨?_, _, rfl, ?_⟩
    · simpa [segmentTokens, hne] using hd.genericSegment hn
    · simpa [hne] using spelled_mark (by decide) he hs
  · obtain ⟨rfl, rfl⟩ := Prod.mk.inj (Except.ok.inj h)
    exact ⟨.plainSegment hn, [], rfl, rfl⟩

theorem readSegments_sound (ih : Sound fuel) {name : String} (hn : IsIdentifier name)
    {cs rest : List Char} {segments : List (String × List TypeText)}
    (h : readSegments (fuel + 1) name cs = .ok (segments, rest)) :
    Derives .path (segmentTokens segments) ∧ ∃ tokens,
      segmentTokens segments = .name name :: tokens ∧ Spelled Token.EndsAt tokens cs rest := by
  rw [readSegments_succ] at h
  obtain ⟨⟨arguments, mid⟩, ha, h⟩ := bind_eq_ok_iff.mp h
  obtain ⟨hd, tokens, ht, hs⟩ := optionalArguments_sound ih hn ha
  dsimp only at h
  split at h
  next afterDot he =>
    obtain ⟨⟨next, afterName⟩, hname, h⟩ := bind_eq_ok_iff.mp h
    obtain ⟨⟨others, rest'⟩, hr, h⟩ := bind_eq_ok_iff.mp h
    obtain ⟨rfl, rfl⟩ := Prod.mk.inj (Except.ok.inj h)
    obtain ⟨hnext, hspelled⟩ := readName_eq_some (expected_eq_ok_iff.mp hname)
    obtain ⟨hds, more, hmore, hms⟩ := ih.segments next afterName others rest' hnext hr
    have hne : others ≠ [] := by
      rintro rfl
      exact hds.ne_nil (by simp) rfl
    have hcons : segmentTokens ((name, arguments) :: others) =
        segmentTokens [(name, arguments)] ++ .mark '.' :: segmentTokens others := by
      simp [segmentTokens, hne]
    have hpath := Spelled.append_iff.mpr ⟨afterName, hspelled, hms⟩
    refine ⟨hcons ▸ hd.moreSegments hds, tokens ++ .mark '.' :: segmentTokens others, ?_, ?_⟩
    · rw [hcons, ht, List.cons_append]
    · rw [hmore]
      exact Spelled.append_iff.mpr ⟨mid, hs, spelled_mark (by decide) he hpath⟩
  · obtain ⟨rfl, rfl⟩ := Prod.mk.inj (Except.ok.inj h)
    exact ⟨hd.lastSegment, tokens, ht, hs⟩

theorem readType_sound (ih : Sound fuel) {cs rest : List Char} {type : TypeText}
    (h : readType (fuel + 1) cs = .ok (type, rest)) :
    Derives .type type.tokens ∧ Consumes type.tokens cs rest := by
  rw [readType_succ] at h
  split at h
  next inner he =>
    obtain ⟨⟨elements, mid⟩, hr, h⟩ := bind_eq_ok_iff.mp h
    obtain ⟨hd, hs⟩ := ih.elements inner elements mid hr
    obtain ⟨suffixes, hds, ht, hc⟩ := (readSuffixes_sound mid).1 _ type rest (expected_eq_ok_iff.mp h)
    rw [ht]
    refine ⟨?_, Consumes.of_spelled (spelled_mark (by decide) he hs) hc⟩
    simpa [tokens] using hd.tuple hds
  · obtain ⟨⟨first, mid⟩, hname, h⟩ := bind_eq_ok_iff.mp h
    obtain ⟨hfirst, hspelled⟩ := readName_eq_some (expected_eq_ok_iff.mp hname)
    dsimp only at h
    split at h
    next afterColons he =>
      obtain ⟨⟨name, afterName⟩, hname', h⟩ := bind_eq_ok_iff.mp h
      obtain ⟨⟨segments, afterPath⟩, hr, h⟩ := bind_eq_ok_iff.mp h
      obtain ⟨hn, hspelled'⟩ := readName_eq_some (expected_eq_ok_iff.mp hname')
      obtain ⟨hd, more, hmore, hms⟩ := ih.segments name afterName segments afterPath hn hr
      obtain ⟨suffixes, hds, ht, hc⟩ :=
        (readSuffixes_sound afterPath).1 _ type rest (expected_eq_ok_iff.mp h)
      obtain ⟨blanks, hb, rfl⟩ := eatColons_eq_some_iff.mp he
      have hpath := Spelled.append_iff.mpr ⟨afterName, hspelled', hms⟩
      have hcolons : Spelled Token.EndsAt (.colons :: segmentTokens segments) _ afterPath :=
        ⟨blanks, afterColons, hb, rfl, trivial, hmore ▸ hpath⟩
      rw [ht]
      refine ⟨?_, Consumes.of_spelled ?_ hc⟩
      · simpa [tokens] using hd.aliased hfirst hds
      · simpa [tokens] using Spelled.append_iff.mpr ⟨_, hspelled, hcolons⟩
    · obtain ⟨⟨segments, afterPath⟩, hr, h⟩ := bind_eq_ok_iff.mp h
      obtain ⟨hd, more, hmore, hms⟩ := ih.segments first mid segments afterPath hfirst hr
      obtain ⟨suffixes, hds, ht, hc⟩ :=
        (readSuffixes_sound afterPath).1 _ type rest (expected_eq_ok_iff.mp h)
      have hpath := Spelled.append_iff.mpr ⟨mid, hspelled, hms⟩
      rw [ht]
      refine ⟨hd.named hds, Consumes.of_spelled ?_ hc⟩
      simpa [tokens, hmore] using hpath

end Sound

theorem sound (fuel : Nat) : Sound fuel := by
  induction fuel with
  | zero =>
    refine ⟨fun cs type rest h => ?_, fun cs elements rest h => ?_,
      fun name cs segments rest _ h => ?_, fun cs arguments rest h => ?_⟩ <;> cases h
  | succ fuel ih =>
    exact ⟨fun _ _ _ => ih.readType_sound, fun _ _ _ => ih.readElements_sound,
      fun _ _ _ _ hn => ih.readSegments_sound hn, fun _ _ _ => ih.readArguments_sound⟩

end HookEvents.TypeText
