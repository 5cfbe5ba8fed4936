import HookEvents.Json.Printer
import HookEvents.Json.Reader

namespace HookEvents.Json

inductive Plain : Json → Prop
  | null : Plain .null
  | bool (b : Bool) : Plain (.bool b)
  | text (s : String) : Plain (.text s)
  | array {items : List Json} (h : ∀ item ∈ items, Plain item) : Plain (.array items)
  | object {entries : List (String × Json)} (h : ∀ entry ∈ entries, Plain entry.2) :
      Plain (.object entries)

section Text

theorem hexUnit?_lowerHex {n : Nat} (h : n < 32) :
    hexUnit? '0' '0' (lowerHex (n / 16)) (lowerHex (n % 16)) = some n := by
  have hall : ∀ n < 32, hexUnit? '0' '0' (lowerHex (n / 16)) (lowerHex (n % 16)) = some n := by
    decide
  exact hall n h

theorem unit_of_lt {chars : List Char} {c : Char} (h : c.toNat < 32) :
    TextState.unit { chars := chars } c.toNat = { chars := c :: chars } := by
  have hhigh : isHighSurrogate c.toNat = false := by simp [isHighSurrogate]; omega
  have hlow : isLowSurrogate c.toNat = false := by simp [isLowSurrogate]; omega
  simp [TextState.unit, hhigh, hlow]

theorem readText_plain {c : Char} (hc : ¬c.toNat < 0x20) (hq : c ≠ '"') (hb : c ≠ '\\')
    (chars cs : List Char) :
    readText { chars := chars } (c :: cs) = readText { chars := c :: chars } cs := by
  rw [readText]
  · simp [hc, hb, TextState.plain]
  · exact fun h => hq h
  · intro a b d e rest h
    exact fun _ => hb h
  · intro e rest h
    exact fun _ => hb h

theorem readText_escaped {e c : Char} (he : e ≠ 'u') (hc : escaped? e = some c)
    (chars cs : List Char) :
    readText { chars := chars } ('\\' :: e :: cs) = readText { chars := c :: chars } cs := by
  rw [readText]
  · simp [hc, TextState.plain]
  · intro a b d e' rest h
    exact absurd h he

theorem readText_escapeChar (c : Char) (chars cs : List Char) :
    readText { chars := chars } (escapeChar c ++ cs) = readText { chars := c :: chars } cs := by
  unfold escapeChar
  by_cases hquote : c = '"'
  · subst hquote
    exact readText_escaped (by decide) rfl chars cs
  by_cases hback : c = '\\'
  · subst hback
    exact readText_escaped (by decide) rfl chars cs
  by_cases hline : c = '\n'
  · subst hline
    exact readText_escaped (by decide) rfl chars cs
  by_cases hreturn : c = '\r'
  · subst hreturn
    exact readText_escaped (by decide) rfl chars cs
  by_cases htab : c = '\t'
  · subst htab
    exact readText_escaped (by decide) rfl chars cs
  by_cases hbell : c.toNat = 8
  · obtain rfl : c = Char.ofNat 8 := by rw [← hbell, Char.ofNat_toNat]
    exact readText_escaped (by decide) rfl chars cs
  by_cases hfeed : c.toNat = 12
  · obtain rfl : c = Char.ofNat 12 := by rw [← hfeed, Char.ofNat_toNat]
    exact readText_escaped (by decide) rfl chars cs
  simp only [hquote, hback, hline, hreturn, htab, hbell, hfeed, ↓reduceIte]
  by_cases hcontrol : c.toNat < 0x20
  · rw [if_pos hcontrol]
    simp only [List.cons_append, List.nil_append, readText, hexUnit?_lowerHex hcontrol,
      unit_of_lt hcontrol]
  · rw [if_neg hcontrol]
    exact readText_plain hcontrol hquote hback chars cs

theorem readText_flatMap (s chars rest : List Char) :
    readText { chars := chars } (s.flatMap escapeChar ++ '"' :: rest) =
      some ({ chars := s.reverse ++ chars }, rest) := by
  induction s generalizing chars with
  | nil => simp [readText]
  | cons c s ih =>
    rw [List.flatMap_cons, List.append_assoc, readText_escapeChar, ih]
    simp

theorem readText_quote (s : String) (rest : List Char) :
    ∃ st, readText {} (s.toList.flatMap escapeChar ++ '"' :: rest) = some (st, rest) ∧
      st.value = some s := by
  refine ⟨_, readText_flatMap s.toList [] rest, ?_⟩
  simp [TextState.value]

end Text

section Blanks

theorem skipBlanks_newline (level : Nat) (cs : List Char) :
    skipBlanks (newline level ++ cs) = skipBlanks cs := by
  unfold skipBlanks
  apply List.dropWhile_append_of_pos
  intro c hc
  rcases List.mem_cons.mp hc with rfl | hc
  · rfl
  · rw [List.eq_of_mem_replicate hc]
    rfl

theorem skipBlanks_cons {c : Char} (h : isJsonBlank c = false) (cs : List Char) :
    skipBlanks (c :: cs) = c :: cs := List.dropWhile_cons_of_neg (by simp [h])

theorem skipBlanks_skipBlanks (cs : List Char) : skipBlanks (skipBlanks cs) = skipBlanks cs := by
  unfold skipBlanks
  induction cs with
  | nil => rfl
  | cons c cs ih => by_cases hc : isJsonBlank c <;> simp [hc, ih]

theorem readValue_skipBlanks (fuel : Nat) (cs : List Char) :
    readValue fuel (skipBlanks cs) = readValue fuel cs := by
  cases fuel with
  | zero => rfl
  | succ fuel => rw [readValue, readValue, skipBlanks_skipBlanks]

theorem readItems_skipBlanks (fuel : Nat) (cs : List Char) :
    readItems fuel (skipBlanks cs) = readItems fuel cs := by
  cases fuel with
  | zero => rfl
  | succ fuel => rw [readItems, readItems, readValue_skipBlanks]

theorem readEntries_skipBlanks (fuel : Nat) (cs : List Char) :
    readEntries fuel (skipBlanks cs) = readEntries fuel cs := by
  cases fuel with
  | zero => rfl
  | succ fuel => rw [readEntries, readEntries, skipBlanks_skipBlanks]

end Blanks

theorem prettyItems_cons (level : Nat) (item : Json) (items : List Json) :
    prettyItems level (item :: items) = newline level ++ (prettyChars level item ++
      if items = [] then [] else ',' :: prettyItems level items) := by
  cases items <;> simp [prettyItems]

theorem prettyEntries_cons (level : Nat) (key : String) (item : Json)
    (entries : List (String × Json)) :
    prettyEntries level ((key, item) :: entries) = newline level ++ ('"' ::
      (key.toList.flatMap escapeChar ++ '"' :: ':' :: ' ' :: (prettyChars level item ++
        if entries = [] then [] else ',' :: prettyEntries level entries))) := by
  cases entries <;> simp [prettyEntries, quote]

/-- Reading gives back the value and what stands behind it, if there is fuel for every character. -/
def ReadsBack (value : Json) : Prop :=
  ∀ level rest fuel, (prettyChars level value).length ≤ fuel →
    readValue fuel (prettyChars level value ++ rest) = some (value, rest)

theorem readItems_pretty {items : List Json} (hne : items ≠ [])
    (h : ∀ item ∈ items, ReadsBack item) (level outer : Nat) (rest : List Char) {fuel : Nat}
    (hf : (prettyItems level items).length ≤ fuel) :
    readItems fuel (prettyItems level items ++ (newline outer ++ ']' :: rest)) =
      some (items, rest) := by
  induction items generalizing fuel with
  | nil => exact absurd rfl hne
  | cons item items ih =>
    rw [prettyItems_cons] at hf ⊢
    simp only [List.length_append, newline, List.length_cons] at hf
    obtain ⟨fuel, rfl⟩ : ∃ n, fuel = n + 1 := ⟨fuel - 1, by omega⟩
    have hitem := h item (by simp) level
    rw [readItems, List.append_assoc, ← readValue_skipBlanks, skipBlanks_newline,
      readValue_skipBlanks, List.append_assoc, hitem _ fuel (by omega)]
    by_cases hlast : items = []
    · have hblank : skipBlanks (newline outer ++ ']' :: rest) = ']' :: rest := by
        rw [skipBlanks_newline, skipBlanks_cons rfl]
      simp [hlast, hblank]
    · rw [if_neg hlast] at hf ⊢
      simp only [List.length_cons] at hf
      have hrest := @ih hlast (fun other ho => h other (by simp [ho])) fuel (by omega)
      simp only [List.cons_append, skipBlanks_cons (show isJsonBlank ',' = false by rfl), hrest]
      rfl

theorem readEntries_pretty {entries : List (String × Json)} (hne : entries ≠ [])
    (h : ∀ entry ∈ entries, ReadsBack entry.2) (level outer : Nat) (rest : List Char) {fuel : Nat}
    (hf : (prettyEntries level entries).length ≤ fuel) :
    readEntries fuel (prettyEntries level entries ++ (newline outer ++ '}' :: rest)) =
      some (entries, rest) := by
  induction entries generalizing fuel with
  | nil => exact absurd rfl hne
  | cons entry entries ih =>
    obtain ⟨key, item⟩ := entry
    rw [prettyEntries_cons] at hf ⊢
    simp only [List.length_append, newline, List.length_cons] at hf
    obtain ⟨fuel, rfl⟩ : ∃ n, fuel = n + 1 := ⟨fuel - 1, by omega⟩
    have hitem : ReadsBack item := h (key, item) (by simp)
    let separator := if entries = [] then [] else ',' :: prettyEntries level entries
    let tail := prettyChars level item ++ (separator ++ (newline outer ++ '}' :: rest))
    obtain ⟨st, hkey, hvalue⟩ := readText_quote key (':' :: ' ' :: tail)
    have hstart : skipBlanks (newline level ++ ('"' :: (key.toList.flatMap escapeChar ++
        '"' :: ':' :: ' ' :: (prettyChars level item ++ separator))) ++
          (newline outer ++ '}' :: rest)) =
        '"' :: (key.toList.flatMap escapeChar ++ '"' :: ':' :: ' ' :: tail) := by
      rw [List.append_assoc, skipBlanks_newline, List.cons_append, skipBlanks_cons rfl]
      simp [tail]
    have hread : readValue fuel (' ' :: tail) =
        some (item, separator ++ (newline outer ++ '}' :: rest)) := by
      have hblank : skipBlanks (' ' :: tail) = skipBlanks tail := rfl
      rw [← readValue_skipBlanks, hblank, readValue_skipBlanks]
      exact hitem level _ fuel (by omega)
    rw [readEntries, hstart]
    simp only [hkey, hvalue, skipBlanks_cons (show isJsonBlank ':' = false by rfl), hread]
    by_cases hlast : entries = []
    · have hblank : skipBlanks (newline outer ++ '}' :: rest) = '}' :: rest := by
        rw [skipBlanks_newline, skipBlanks_cons rfl]
      simp [separator, hlast, hblank]
    · rw [if_neg hlast] at hf
      simp only [List.length_cons] at hf
      have hrest := @ih hlast (fun other ho => h other (by simp [ho])) fuel (by omega)
      simp only [separator, if_neg hlast, List.cons_append,
        skipBlanks_cons (show isJsonBlank ',' = false by rfl), hrest]
      rfl

theorem prettyChars_head {value : Json} (h : Plain value) (level : Nat) :
    ∃ c cs, prettyChars level value = c :: cs ∧ isJsonBlank c = false ∧ c ≠ ']' := by
  cases h with
  | null => exact ⟨'n', _, rfl, rfl, by decide⟩
  | bool b => cases b with
    | true => exact ⟨'t', _, rfl, rfl, by decide⟩
    | false => exact ⟨'f', _, rfl, rfl, by decide⟩
  | text s => exact ⟨'"', _, rfl, rfl, by decide⟩
  | @array items _ => cases items <;> exact ⟨'[', _, rfl, rfl, by decide⟩
  | @object entries _ => cases entries <;> exact ⟨'{', _, rfl, rfl, by decide⟩

theorem Plain.exists_fuel {value : Json} (h : Plain value) {level fuel : Nat}
    (hf : (prettyChars level value).length ≤ fuel) : ∃ n, fuel = n + 1 := by
  obtain ⟨c, cs, hhead, -⟩ := prettyChars_head h level
  rw [hhead, List.length_cons] at hf
  exact ⟨fuel - 1, by omega⟩

theorem readValue_array {cs : List Char} (h : ∀ rest, skipBlanks cs ≠ ']' :: rest) (fuel : Nat) :
    readValue (fuel + 1) ('[' :: cs) =
      (readItems fuel cs).map fun (items, rest) => (.array items, rest) := by
  rw [readValue]
  simp only [skipBlanks_cons (show isJsonBlank '[' = false by rfl), readItems_skipBlanks]

theorem readValue_object {cs : List Char} (h : ∀ rest, skipBlanks cs ≠ '}' :: rest) (fuel : Nat) :
    readValue (fuel + 1) ('{' :: cs) =
      (readEntries fuel cs).map fun (entries, rest) => (.object entries, rest) := by
  rw [readValue]
  simp only [skipBlanks_cons (show isJsonBlank '{' = false by rfl), readEntries_skipBlanks]

theorem readsBack_array {items : List Json} (hp : ∀ item ∈ items, Plain item)
    (h : ∀ item ∈ items, ReadsBack item) : ReadsBack (.array items) := by
  intro level rest fuel hf
  obtain ⟨fuel, rfl⟩ := (Plain.array hp).exists_fuel hf
  cases items with
  | nil => rfl
  | cons item items =>
    have hchars : prettyChars level (.array (item :: items)) =
        '[' :: (prettyItems (level + 1) (item :: items) ++ (newline level ++ [']'])) := by
      simp [prettyChars]
    rw [hchars] at hf ⊢
    simp only [List.length_cons, List.length_append] at hf
    have hitems := readItems_pretty (by simp) h (level + 1) level rest
      (show (prettyItems (level + 1) (item :: items)).length ≤ fuel by omega)
    have hopen : ∀ tail, skipBlanks (prettyItems (level + 1) (item :: items) ++
        (newline level ++ ']' :: rest)) ≠ ']' :: tail := by
      intro tail
      obtain ⟨c, cs, hhead, hblank, hclose⟩ := prettyChars_head (hp item (by simp)) (level + 1)
      rw [prettyItems_cons, List.append_assoc, skipBlanks_newline, hhead, List.cons_append,
        List.cons_append, skipBlanks_cons hblank]
      simp [hclose]
    have happend : ('[' :: (prettyItems (level + 1) (item :: items) ++ (newline level ++ [']']))) ++
        rest = '[' :: (prettyItems (level + 1) (item :: items) ++
          (newline level ++ ']' :: rest)) := by simp
    rw [happend, readValue_array hopen, hitems, Option.map_some]

theorem readsBack_object {entries : List (String × Json)} (hp : ∀ entry ∈ entries, Plain entry.2)
    (h : ∀ entry ∈ entries, ReadsBack entry.2) : ReadsBack (.object entries) := by
  intro level rest fuel hf
  obtain ⟨fuel, rfl⟩ := (Plain.object hp).exists_fuel hf
  cases entries with
  | nil => rfl
  | cons entry entries =>
    have hchars : prettyChars level (.object (entry :: entries)) =
        '{' :: (prettyEntries (level + 1) (entry :: entries) ++ (newline level ++ ['}'])) := by
      simp [prettyChars]
    rw [hchars] at hf ⊢
    simp only [List.length_cons, List.length_append] at hf
    have hentries := readEntries_pretty (by simp) h (level + 1) level rest
      (show (prettyEntries (level + 1) (entry :: entries)).length ≤ fuel by omega)
    have hopen : ∀ tail, skipBlanks (prettyEntries (level + 1) (entry :: entries) ++
        (newline level ++ '}' :: rest)) ≠ '}' :: tail := by
      intro tail
      obtain ⟨key, item⟩ := entry
      rw [prettyEntries_cons, List.append_assoc, skipBlanks_newline, List.cons_append,
        skipBlanks_cons rfl]
      simp
    have happend : ('{' :: (prettyEntries (level + 1) (entry :: entries) ++
        (newline level ++ ['}']))) ++ rest =
          '{' :: (prettyEntries (level + 1) (entry :: entries) ++
            (newline level ++ '}' :: rest)) := by simp
    rw [happend, readValue_object hopen, hentries, Option.map_some]

theorem readsBack_text (s : String) : ReadsBack (.text s) := by
  intro level rest fuel hf
  obtain ⟨fuel, rfl⟩ := (Plain.text s).exists_fuel hf
  have hchars : prettyChars level (.text s) ++ rest =
      '"' :: (s.toList.flatMap escapeChar ++ '"' :: rest) := by
    simp [prettyChars, scalarChars, quote]
  obtain ⟨st, hread, hvalue⟩ := readText_quote s rest
  rw [hchars, readValue, skipBlanks_cons rfl]
  simp only [hread, hvalue, Option.map_some, Option.getD_some]

theorem Plain.readsBack {value : Json} (h : Plain value) : ReadsBack value := by
  induction h with
  | null =>
    intro level rest fuel hf
    obtain ⟨fuel, rfl⟩ := Plain.null.exists_fuel hf
    rfl
  | bool b =>
    intro level rest fuel hf
    obtain ⟨fuel, rfl⟩ := (Plain.bool b).exists_fuel hf
    cases b <;> rfl
  | text s => exact readsBack_text s
  | array hp ih => exact readsBack_array hp ih
  | object hp ih => exact readsBack_object hp ih

theorem parse_pretty {value : Json} (h : Plain value) : parse (pretty value) = some value := by
  have hread := h.readsBack 0 [] (2 * (prettyChars 0 value).length + 1) (by omega)
  rw [List.append_nil] at hread
  simp only [parse, pretty, String.toList_ofList, hread]
  rfl

end HookEvents.Json
