import HookEvents.Proofs.Text.Split
import HookEvents.Proofs.TypeText.Lexeme

namespace HookEvents.TypeText

open Text

/-- After any blanks the text is made of the tokens, and at most blanks of it are left over. What
stands behind it must not prolong a name. -/
def Spells (tokens : List Token) (text : List Char) : Prop :=
  ∀ blanks tail, Blanks blanks → (∀ c ∈ tail.head?, isNamePart c = false) →
    ∃ left, Blanks left ∧ Spelled Token.EndsAt tokens (blanks ++ (text ++ tail)) (left ++ tail)

namespace Spells

variable {tokens more : List Token} {text further : List Char}

theorem nil : Spells [] [] := by
  intro blanks tail hb _
  exact ⟨blanks, hb, rfl⟩

theorem name (name : String) : Spells [.name name] name.toList := by
  intro blanks tail hb ht
  exact ⟨[], by simp [Blanks], blanks, tail, hb, rfl, ht, rfl⟩

theorem mark (c : Char) (h : Spells tokens text) : Spells (.mark c :: tokens) (c :: text) := by
  intro blanks tail hb ht
  obtain ⟨left, hl, hs⟩ := h [] tail (by simp [Blanks]) ht
  exact ⟨left, hl, blanks, text ++ tail, hb, rfl, trivial, hs⟩

theorem colons (h : Spells tokens text) : Spells (.colons :: tokens) (':' :: ':' :: text) := by
  intro blanks tail hb ht
  obtain ⟨left, hl, hs⟩ := h [] tail (by simp [Blanks]) ht
  exact ⟨left, hl, blanks, text ++ tail, hb, rfl, trivial, hs⟩

theorem space (h : Spells tokens text) : Spells tokens (' ' :: text) := by
  intro blanks tail hb ht
  have hspace : Blanks (blanks ++ [' ']) := by
    intro c hc
    rcases List.mem_append.mp hc with hc | hc
    · exact hb c hc
    · rw [List.mem_singleton.mp hc]
      decide
  obtain ⟨left, hl, hs⟩ := h (blanks ++ [' ']) tail hspace ht
  rw [List.append_assoc] at hs
  exact ⟨left, hl, hs⟩

theorem append (h : Spells tokens text) (hm : Spells more further)
    (hf : ∀ c ∈ further.head?, isNamePart c = false) :
    Spells (tokens ++ more) (text ++ further) := by
  intro blanks tail hb ht
  have hhead : ∀ c ∈ (further ++ tail).head?, isNamePart c = false := by
    cases further with
    | nil => exact ht
    | cons first rest => exact hf
  obtain ⟨mid, hmid, hs⟩ := h blanks (further ++ tail) hb hhead
  obtain ⟨left, hl, hs'⟩ := hm mid tail hmid ht
  rw [← List.append_assoc] at hs
  exact ⟨left, hl, Spelled.append_iff.mpr ⟨_, by simpa using hs, hs'⟩⟩

end Spells

theorem spells_commas (commas : Nat) {tokens : List Token} {text : List Char}
    (h : Spells tokens text) :
    Spells (List.replicate commas (.mark ',') ++ tokens) (List.replicate commas ',' ++ text) := by
  induction commas with
  | zero => exact h
  | succ commas ih => exact ih.mark ','

theorem spells_suffix (suffix : TypeSuffix) :
    Spells (suffixTokens suffix) suffix.render.toList := by
  cases suffix with
  | nullable => exact Spells.nil.mark '?'
  | pointer => exact Spells.nil.mark '*'
  | array commas =>
    have hclosing : Spells [.mark ']'] [']'] := Spells.nil.mark ']'
    simpa [suffixTokens, TypeSuffix.render] using (spells_commas commas hclosing).mark '['

theorem head_mark {c : Char} (hc : c ∈ marks) (text : List Char) :
    ∀ d ∈ (c :: text).head?, isNamePart d = false := by
  intro d hd
  obtain rfl : c = d := by simpa using hd
  exact (not_name_of_mem_marks hc).2

theorem head_suffix (suffix : TypeSuffix) :
    ∀ c ∈ suffix.render.toList.head?, isNamePart c = false := by
  cases suffix with
  | nullable => exact head_mark (by decide) []
  | pointer => exact head_mark (by decide) []
  | array commas =>
    have hmark := head_mark (c := '[') (by decide) (List.replicate commas ',' ++ [']'])
    simpa [TypeSuffix.render] using hmark

mutual

theorem spells_render (type : TypeText) : Spells type.tokens type.render.toList := by
  match type with
  | .named root segments =>
    have hsegments := spells_segments segments
    cases root with
    | none => simpa [tokens, render] using hsegments
    | some root =>
      have hcolons := (Spells.name root).append hsegments.colons (head_mark (by decide) _)
      simpa [tokens, render] using hcolons
  | .tuple elements =>
    have hclosing : Spells [.mark ')'] [')'] := Spells.nil.mark ')'
    have hinner := (spells_elements elements).append hclosing (head_mark (by decide) [])
    simpa [tokens, render] using hinner.mark '('
  | .suffixed element suffix =>
    have hsuffix := (spells_render element).append (spells_suffix suffix) (head_suffix suffix)
    simpa [tokens, render] using hsuffix

theorem spells_arguments (types : List TypeText) :
    Spells (argumentTokens types) (join ", " (renderAll types)).toList := by
  match types with
  | [] => exact Spells.nil
  | [type] => simpa [argumentTokens, renderAll] using spells_render type
  | type :: next :: types =>
    have hrest := (spells_arguments (next :: types)).space.mark ','
    have hall := (spells_render type).append hrest (head_mark (by decide) _)
    rw [renderAll, join_cons ", " _ (by simp [renderAll])]
    simpa [argumentTokens] using hall

theorem spells_segments (segments : List (String × List TypeText)) :
    Spells (segmentTokens segments) (join "." (renderSegments segments)).toList := by
  match segments with
  | [] => exact Spells.nil
  | (name, arguments) :: segments =>
    have hfirst : Spells (.name name ::
        (if arguments.isEmpty then [] else .mark '<' :: argumentTokens arguments ++ [.mark '>']))
        (name ++ renderArguments (renderAll arguments)).toList := by
      cases arguments with
      | nil => simpa [renderArguments, renderAll] using Spells.name name
      | cons type types =>
        have hclosing : Spells [.mark '>'] ['>'] := Spells.nil.mark '>'
        have hinner := (spells_arguments (type :: types)).append hclosing (head_mark (by decide) [])
        have hall := (Spells.name name).append (hinner.mark '<') (head_mark (by decide) _)
        simpa [renderArguments, renderAll] using hall
    cases segments with
    | nil => simpa [segmentTokens, renderSegments] using hfirst
    | cons next segments =>
      have hrest := (spells_segments (next :: segments)).mark '.'
      have hall := hfirst.append hrest (head_mark (by decide) _)
      rw [renderSegments, join_cons "." _ (by simp [renderSegments])]
      simpa [segmentTokens] using hall

theorem spells_elements (elements : List (TypeText × Option String)) :
    Spells (elementTokens elements) (join ", " (renderElements elements)).toList := by
  match elements with
  | [] => exact Spells.nil
  | (type, name) :: elements =>
    have hfirst : ∃ first,
        renderElements ((type, name) :: elements) = first :: renderElements elements ∧
        Spells (type.tokens ++ (name.map Token.name).toList) first.toList := by
      have htype := spells_render type
      cases name with
      | none => exact ⟨type.render, rfl, by simpa using htype⟩
      | some name =>
        have hspace : ∀ c ∈ (' ' :: name.toList).head?, isNamePart c = false := by
          intro c hc
          obtain rfl : ' ' = c := by simpa using hc
          exact (not_name_of_isBlank (by decide)).2
        have hnamed := htype.append (Spells.name name).space hspace
        exact ⟨type.render ++ " " ++ name, rfl, by simpa using hnamed⟩
    obtain ⟨first, hrender, hfirst⟩ := hfirst
    rw [hrender]
    cases elements with
    | nil => simpa [elementTokens, renderElements] using hfirst
    | cons next elements =>
      have hrest := (spells_elements (next :: elements)).space.mark ','
      have hall := hfirst.append hrest (head_mark (by decide) _)
      rw [join_cons ", " _ (by simp [renderElements])]
      simpa [elementTokens] using hall

end

end HookEvents.TypeText
