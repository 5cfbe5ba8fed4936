import HookEvents.Proofs.TypeText.Complete
import HookEvents.TypeText.Qualify

namespace HookEvents.TypeText

open Text

theorem IsIdentifier.toList_ne_nil {name : String} (h : IsIdentifier name) : name.toList ≠ [] := by
  obtain ⟨c, cs, hname, -, -⟩ := h
  simp [hname]

theorem Derives.chars_ne_nil {nonterminal : Nonterminal} {tokens : List Token}
    (h : Derives nonterminal tokens) : ∀ token ∈ tokens, token.chars ≠ [] := by
  have hmark : ∀ c, (Token.mark c).chars ≠ [] := fun c => by simp [Token.chars]
  have hcolons : Token.colons.chars ≠ [] := by simp [Token.chars]
  have hname : ∀ {name}, IsIdentifier name → (Token.name name).chars ≠ [] :=
    IsIdentifier.toList_ne_nil
  have hsuffix : ∀ suffix, ∀ token ∈ suffixTokens suffix, token.chars ≠ [] := by
    intro suffix token ht
    cases suffix <;> grind [suffixTokens]
  induction h <;> grind

theorem Spelled.length_le {joint : Token → List Char → Prop} {tokens : List Token}
    {cs rest : List Char} (h : Spelled joint tokens cs rest)
    (hc : ∀ token ∈ tokens, token.chars ≠ []) : rest.length + tokens.length ≤ cs.length := by
  induction tokens generalizing cs with
  | nil =>
    obtain rfl : cs = rest := h
    simp
  | cons token tokens ih =>
    obtain ⟨blanks, tail, -, rfl, -, hs⟩ := h
    have htail := ih hs fun other ho => hc other (by simp [ho])
    have hpos := List.length_pos_iff.mpr (hc token (by simp))
    simp only [List.length_append, List.length_cons]
    omega

theorem eat_length {c : Char} (hc : c ∈ marks) {cs rest : List Char} (h : eat c cs = some rest) :
    rest.length < cs.length := by
  obtain ⟨blanks, -, rfl⟩ := (eat_eq_some_iff hc).mp h
  simp only [List.length_append, List.length_cons]
  omega

theorem eatColons_length {cs rest : List Char} (h : eatColons cs = some rest) :
    rest.length < cs.length := by
  obtain ⟨blanks, -, rfl⟩ := eatColons_eq_some_iff.mp h
  simp only [List.length_append, List.length_cons]
  omega

theorem readName_length {cs rest : List Char} {name : String}
    (h : readName cs = some (name, rest)) : rest.length < cs.length := by
  obtain ⟨hn, hs⟩ := readName_eq_some h
  have hlen := hs.length_le (by simpa [Token.chars] using hn.toList_ne_nil)
  simp only [List.length_cons, List.length_nil] at hlen
  omega

theorem optionalName_length (cs : List Char) : (optionalName cs).2.length ≤ cs.length := by
  rw [optionalName]
  split
  next hn => exact Nat.le_of_lt (readName_length hn)
  · exact Nat.le_refl _

theorem readType_length {fuel : Nat} {cs rest : List Char} {type : TypeText}
    (h : readType fuel cs = .ok (type, rest)) : rest.length < cs.length := by
  obtain ⟨hd, tail, hs, rfl⟩ := (sound fuel).type cs type rest h
  have hlen := hs.length_le hd.chars_ne_nil
  have hpos := List.length_pos_iff.mpr (hd.ne_nil (by simp))
  have htrim : (trimStartChars tail).length ≤ tail.length :=
    (List.dropWhile_sublist isBlank).length_le
  omega

theorem optionalArguments_length {fuel : Nat} {cs rest : List Char} {arguments : List TypeText}
    (h : optionalArguments fuel cs = .ok (arguments, rest)) : rest.length ≤ cs.length := by
  rw [optionalArguments] at h
  split at h
  next inner he =>
    obtain ⟨hd, hs⟩ := (sound fuel).arguments inner arguments rest h
    obtain ⟨mid, hs, hend⟩ := Spelled.append_iff.mp hs
    have hlen := hs.length_le hd.chars_ne_nil
    have hmark := hend.length_le (by simp [Token.chars])
    have heat := eat_length (by decide) he
    omega
  · obtain ⟨rfl, rfl⟩ := Prod.mk.inj (Except.ok.inj h)
    exact Nat.le_refl _

/-- A reading that ends, and that more fuel does not change. -/
def Settled {α : Type} (reading more : Reading α) : Prop := more = reading ∧ reading ≠ .error .noFuel

namespace Settled

variable {α β : Type}

theorem ok (a : α) : Settled (.ok a) (.ok a) := ⟨rfl, by simp⟩

theorem expected (part : Option α) : Settled (expected part) (TypeText.expected part) := by
  cases part <;> exact ⟨rfl, by simp [TypeText.expected]⟩

theorem bind {reading more : Reading α} {f g : α → Reading β} (h : Settled reading more)
    (hf : ∀ a, reading = .ok a → Settled (f a) (g a)) : Settled (reading.bind f) (more.bind g) := by
  obtain ⟨rfl, hends⟩ := h
  cases more with
  | ok a => exact hf a rfl
  | error fault => exact ⟨rfl, fun he => hends (congrArg Except.error (Except.error.inj he))⟩

end Settled

structure Ends (fuel : Nat) : Prop where
  type : ∀ cs, 2 * cs.length + 1 ≤ fuel → Settled (readType fuel cs) (readType (fuel + 1) cs)
  elements : ∀ cs, 2 * cs.length + 2 ≤ fuel →
    Settled (readElements fuel cs) (readElements (fuel + 1) cs)
  segments : ∀ name cs, 2 * cs.length + 1 ≤ fuel →
    Settled (readSegments fuel name cs) (readSegments (fuel + 1) name cs)
  arguments : ∀ cs, 2 * cs.length + 2 ≤ fuel →
    Settled (readArguments fuel cs) (readArguments (fuel + 1) cs)

namespace Ends

variable {fuel : Nat}

theorem readElements_settled (ih : Ends fuel) {cs : List Char} (h : 2 * cs.length + 2 ≤ fuel + 1) :
    Settled (readElements (fuel + 1) cs) (readElements (fuel + 2) cs) := by
  rw [readElements_succ, readElements_succ (fuel + 1)]
  refine (ih.type cs (by omega)).bind ?_
  rintro ⟨type, mid⟩ ht
  have hmid := readType_length ht
  have hname := optionalName_length mid
  dsimp only
  cases he : eat ',' (optionalName mid).2 with
  | none => exact (Settled.expected _).bind fun _ _ => .ok _
  | some more =>
    have hmore := eat_length (by decide) he
    exact (ih.elements more (by omega)).bind fun _ _ => .ok _

theorem readArguments_settled (ih : Ends fuel) {cs : List Char} (h : 2 * cs.length + 2 ≤ fuel + 1) :
    Settled (readArguments (fuel + 1) cs) (readArguments (fuel + 2) cs) := by
  rw [readArguments_succ, readArguments_succ (fuel + 1)]
  refine (ih.type cs (by omega)).bind ?_
  rintro ⟨type, mid⟩ ht
  have hmid := readType_length ht
  dsimp only
  cases he : eat ',' mid with
  | none => exact (Settled.expected _).bind fun _ _ => .ok _
  | some more =>
    have hmore := eat_length (by decide) he
    exact (ih.arguments more (by omega)).bind fun _ _ => .ok _

theorem optionalArguments_settled (ih : Ends fuel) {cs : List Char} (h : 2 * cs.length ≤ fuel) :
    Settled (optionalArguments fuel cs) (optionalArguments (fuel + 1) cs) := by
  rw [optionalArguments, optionalArguments]
  cases he : eat '<' cs with
  | none => exact .ok _
  | some inner =>
    have hinner := eat_length (by decide) he
    exact ih.arguments inner (by omega)

theorem readSegments_settled (ih : Ends fuel) {name : String} {cs : List Char}
    (h : 2 * cs.length + 1 ≤ fuel + 1) :
    Settled (readSegments (fuel + 1) name cs) (readSegments (fuel + 2) name cs) := by
  rw [readSegments_succ, readSegments_succ (fuel + 1)]
  refine (ih.optionalArguments_settled (by omega)).bind ?_
  rintro ⟨arguments, mid⟩ ha
  have hmid := optionalArguments_length ha
  dsimp only
  cases he : eat '.' mid with
  | none => exact .ok _
  | some afterDot =>
    have hdot := eat_length (by decide) he
    refine (Settled.expected _).bind ?_
    rintro ⟨next, afterName⟩ hn
    have hname := readName_length (expected_eq_ok_iff.mp hn)
    exact (ih.segments next afterName (by omega)).bind fun _ _ => .ok _

theorem readType_settled (ih : Ends fuel) {cs : List Char} (h : 2 * cs.length + 1 ≤ fuel + 1) :
    Settled (readType (fuel + 1) cs) (readType (fuel + 2) cs) := by
  rw [readType_succ, readType_succ (fuel + 1)]
  cases he : eat '(' cs with
  | some inner =>
    have hinner := eat_length (by decide) he
    exact (ih.elements inner (by omega)).bind fun _ _ => .expected _
  | none =>
    refine (Settled.expected _).bind ?_
    rintro ⟨first, mid⟩ hn
    have hmid := readName_length (expected_eq_ok_iff.mp hn)
    dsimp only
    cases hc : eatColons mid with
    | none => exact (ih.segments first mid (by omega)).bind fun _ _ => .expected _
    | some afterColons =>
      have hcolons := eatColons_length hc
      refine (Settled.expected _).bind ?_
      rintro ⟨name, afterName⟩ hn'
      have hname := readName_length (expected_eq_ok_iff.mp hn')
      exact (ih.segments name afterName (by omega)).bind fun _ _ => .expected _

end Ends

theorem ends (fuel : Nat) : Ends fuel := by
  induction fuel with
  | zero => exact ⟨by omega, by omega, by omega, by omega⟩
  | succ fuel ih =>
    exact ⟨fun _ => ih.readType_settled, fun _ => ih.readElements_settled,
      fun _ _ => ih.readSegments_settled, fun _ => ih.readArguments_settled⟩

theorem readType_fuel {cs : List Char} {fuel : Nat} (h : 2 * cs.length + 2 ≤ fuel) :
    readType fuel cs = readType (2 * cs.length + 2) cs := by
  induction h with
  | refl => rfl
  | step h ih =>
    have hle : 2 * cs.length + 1 ≤ _ := Nat.le_trans (Nat.le_succ _) h
    rw [Nat.succ_eq_add_one, ((ends _).type cs hle).1, ih]

theorem eq_blanks_of_trimStartChars {cs : List Char} (h : trimStartChars cs = []) : Blanks cs := by
  obtain ⟨blanks, hb, hcs⟩ := exists_blanks cs
  rw [h, List.append_nil] at hcs
  exact hcs ▸ hb

theorem trimStartChars_of_blanks {cs : List Char} (h : Blanks cs) : trimStartChars cs = [] := by
  have htrim := trimStartChars_append h []
  rwa [List.append_nil] at htrim

theorem parse?_eq_some_iff {text : String} {type : TypeText} :
    parse? text = some type ↔ ∃ rest,
      readType (2 * text.toList.length + 2) text.toList = .ok (type, rest) ∧
        trimStartChars rest = [] := by
  simp only [parse?]
  split
  next type' rest hr => simp [hr]; grind
  next hr => simp [hr]

theorem parse?_tokens {text : String} {type : TypeText} (h : parse? text = some type) :
    Derives .type type.tokens ∧
      ∃ rest, Spelled Token.EndsAt type.tokens text.toList rest ∧ Blanks rest := by
  obtain ⟨rest, hr, ht⟩ := parse?_eq_some_iff.mp h
  obtain ⟨hd, tail, hs, rfl⟩ := (sound _).type _ type rest hr
  rw [trimStartChars_trimStartChars] at ht
  exact ⟨hd, tail, hs, eq_blanks_of_trimStartChars ht⟩

theorem exists_parse? {text : String} (h : IsTypeText text) : ∃ type, parse? text = some type := by
  obtain ⟨tokens, rest, hd, hs, hb⟩ := h
  have hhead : ∀ c ∈ rest.head?, isNamePart c = false := fun c hc =>
    (not_name_of_isBlank (hb c (List.mem_of_head? hc))).2
  have htrim := trimStartChars_of_blanks hb
  have hleave := leave_of_head hhead tokens
  have hstop : Stops typeMarks (leave tokens rest) := by
    intro c hc
    rw [hleave, next, htrim] at hc
    exact absurd hc (by simp)
  have hlen := hs.length_le hd.chars_ne_nil
  obtain ⟨type, ht⟩ := hd.accepted text.toList rest hs hstop
  refine ⟨type, parse?_eq_some_iff.mpr ⟨_, ht _ (by omega), ?_⟩⟩
  rw [trimStartChars_trimStartChars, hleave, htrim]

theorem isTypeText_iff {text : String} : IsTypeText text ↔ (parse? text).isSome = true := by
  constructor
  · intro h
    obtain ⟨type, ht⟩ := exists_parse? h
    rw [ht, Option.isSome_some]
  · intro h
    obtain ⟨type, ht⟩ := Option.isSome_iff_exists.mp h
    obtain ⟨hd, rest, hs, hb⟩ := parse?_tokens ht
    exact ⟨type.tokens, rest, hd, hs.mono fun _ _ _ => trivial, hb⟩

/-- Reading ends on every text, with a type exactly where the grammar has one. What is read does not
depend on the types that are known, and other text stays as it is. -/
theorem reader_exact (text : String) :
    (∀ fuel, 2 * text.toList.length + 2 ≤ fuel →
      readType fuel text.toList = readType (2 * text.toList.length + 2) text.toList ∧
        readType fuel text.toList ≠ .error .noFuel) ∧
    ((parse? text).isSome = true ↔ IsTypeText text) ∧
    (IsTypeText text → ∃ type, parse? text = some type ∧ ∀ (table : TypeTable) scopes,
      qualifyText (table.lookup scopes) text = (type.qualify (table.lookup scopes)).render) ∧
    (¬IsTypeText text → ∀ (table : TypeTable) scopes,
      qualifyText (table.lookup scopes) text = text) := by
  refine ⟨fun fuel hf => ⟨readType_fuel hf, ((ends fuel).type _ (by omega)).2⟩,
    isTypeText_iff.symm, fun h => ?_, fun h table scopes => ?_⟩
  · obtain ⟨type, ht⟩ := exists_parse? h
    exact ⟨type, ht, fun table scopes => by simp only [qualifyText, ht]⟩
  · have hnone : parse? text = none := by
      simpa using fun hs => h (isTypeText_iff.mpr hs)
    simp only [qualifyText, hnone]

theorem reader_exact_blanks :
    IsTypeText " ( int x , Game :: List < T ? > [ , ] ) " ∧ ¬IsTypeText "Game : : List<T>" :=
  ⟨(reader_exact _).2.1.mp (by decide +kernel),
    fun h => absurd ((reader_exact _).2.1.mpr h) (by decide +kernel)⟩

end HookEvents.TypeText
