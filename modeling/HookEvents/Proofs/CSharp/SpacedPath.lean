import HookEvents.CSharp.TypeSpan
import HookEvents.Proofs.CSharp.Tokens
import HookEvents.Proofs.Hook.Reference

/-!
Names with dots between them and blanks around the dots. A reference is read without the blanks; to
collapse them is another thing, and leaves one space of each.
-/
namespace HookEvents.CSharp

open Text

structure Identifier where
  text : String
  isWord : IsWord text
  notReserved : text ∉ reservedWords

structure Blanks where
  text : String
  blank : ∀ c ∈ text.toList, isBlank c = true

structure PathStep where
  before : Blanks
  after : Blanks
  name : Identifier

structure SpacedPath where
  first : Identifier
  steps : List PathStep

def PathStep.text (step : PathStep) : String :=
  step.before.text ++ "." ++ (step.after.text ++ step.name.text)

namespace SpacedPath

def names (path : SpacedPath) : List String :=
  path.first.text :: path.steps.map (·.name.text)

def text (path : SpacedPath) : String :=
  path.first.text ++ String.join (path.steps.map PathStep.text)

def IsTight (path : SpacedPath) : Prop :=
  ∀ step ∈ path.steps, step.before.text = "" ∧ step.after.text = ""

instance : DecidablePred IsTight := fun path =>
  inferInstanceAs (Decidable (∀ step ∈ path.steps, step.before.text = "" ∧ step.after.text = ""))

end SpacedPath

namespace Identifier

variable (name : Identifier)

theorem forall_mem : ∀ c ∈ name.text.toList, isGap c = false ∧ 0x30 ≤ c.toNat := by
  obtain ⟨first, rest, htext, hfirst, hrest⟩ := name.isWord
  rw [htext]
  intro c hc
  rcases List.mem_cons.mp hc with rfl | hc
  · obtain ⟨hgap, hlow⟩ := of_isWordStart hfirst
    exact ⟨hgap, by omega⟩
  · exact of_isWordPart (hrest c hc)

theorem not_blank : ∀ c ∈ name.text.toList, isBlank c = false := by
  intro c hc
  have hgap := (name.forall_mem c hc).1
  rw [isGap, Bool.or_eq_false_iff] at hgap
  exact hgap.1

theorem dot_not_mem : '.' ∉ name.text.toList := by
  intro hc
  exact absurd (name.forall_mem '.' hc).2 (by decide)

theorem ne_empty : name.text ≠ "" := by
  obtain ⟨first, rest, htext, -⟩ := name.isWord
  intro he
  simp [he] at htext

theorem ne_of_reserved {word : String} (h : word ∈ reservedWords) : name.text ≠ word := by
  rintro rfl
  exact name.notReserved h

theorem trim_padded (front back : Blanks) :
    trim (front.text ++ (name.text ++ back.text)) = name.text := by
  have hpadded : front.text ++ (name.text ++ back.text) =
      String.ofList (front.text.toList ++ (name.text.toList ++ back.text.toList)) := by
    simp
  rw [hpadded]
  exact trim_eq front.blank back.blank (fun c hc => name.not_blank c (List.mem_of_head? hc))
    fun c hc => name.not_blank c (List.mem_of_getLast? hc)

end Identifier

theorem Blanks.gap (blanks : Blanks) : ∀ c ∈ blanks.text.toList, isGap c = true := by
  intro c hc
  simp [isGap, blanks.blank c hc]

theorem Blanks.dot_not_mem (blanks : Blanks) : '.' ∉ blanks.text.toList := by
  intro hc
  exact absurd (blanks.blank '.' hc) (by decide +kernel)

namespace SpacedPath

theorem map_trim_split (gap : Blanks) (first : Identifier) (steps : List PathStep) :
    (split '.' (gap.text ++ (first.text ++ String.join (steps.map PathStep.text)))).map trim =
      first.text :: steps.map (·.name.text) := by
  have hpiece (gap : Blanks) (name : Identifier) (back : Blanks) :
      '.' ∉ (gap.text ++ (name.text ++ back.text)).toList := by
    simp [gap.dot_not_mem, name.dot_not_mem, back.dot_not_mem]
  induction steps generalizing gap first with
  | nil =>
    have hlast := first.trim_padded gap ⟨"", by simp⟩
    rw [List.map_nil, String.join_nil, split_of_not_mem (hpiece gap first ⟨"", by simp⟩)]
    exact congrArg (List.cons · []) hlast
  | cons step steps ih =>
    have htext : gap.text ++ (first.text ++ String.join ((step :: steps).map PathStep.text)) =
        gap.text ++ (first.text ++ step.before.text) ++ "." ++
          (step.after.text ++ (step.name.text ++ String.join (steps.map PathStep.text))) := by
      simp [PathStep.text, String.append_assoc]
    rw [htext, split_append rfl, split_of_not_mem (hpiece gap first step.before), List.map_append,
      ih, List.map_singleton, first.trim_padded]
    rfl

variable (path : SpacedPath)

theorem head_not_blank : ∀ c ∈ path.text.toList.head?, isBlank c = false := by
  intro c hc
  obtain ⟨first, rest, htext, -⟩ := path.first.isWord
  rw [text, String.toList_append, htext, List.cons_append] at hc
  obtain rfl := Option.some.inj hc
  exact path.first.not_blank first (by simp [htext])

theorem exists_last : ∃ front c, path.text.toList = front ++ [c] ∧ isBlank c = false := by
  -- the text ends in a name: the last step's, or the first when there is no step
  have hname : ∃ front, ∃ name : Identifier, path.text = front ++ name.text := by
    rcases List.eq_nil_or_concat path.steps with hs | ⟨init, step, hs⟩
    · exact ⟨"", path.first, by simp [text, hs]⟩
    · refine ⟨path.first.text ++ (String.join (init.map PathStep.text) ++
        (step.before.text ++ "." ++ step.after.text)), step.name, ?_⟩
      simp [text, hs, PathStep.text, String.append_assoc]
  obtain ⟨front, name, htext⟩ := hname
  rcases List.eq_nil_or_concat name.text.toList with hnil | ⟨init, c, hname⟩
  · exact absurd (String.toList_inj.mp hnil) name.ne_empty
  · refine ⟨front.toList ++ init, c, ?_, name.not_blank c (by simp [hname])⟩
    simp [htext, hname]

theorem names_not_blank : ∀ c ∈ (join "." path.names).toList, isBlank c = false := by
  refine forall_mem_join dot_not_blank ?_
  intro name hn
  rcases List.mem_cons.mp hn with rfl | hn
  · exact path.first.not_blank
  · obtain ⟨step, -, rfl⟩ := List.mem_map.mp hn
    exact step.name.not_blank

theorem name_ne_empty : "" ∉ path.names := by
  intro hn
  rcases List.mem_cons.mp hn with he | hn
  · exact path.first.ne_empty he.symm
  · obtain ⟨step, -, he⟩ := List.mem_map.mp hn
    exact step.name.ne_empty he

theorem text_of_isTight (h : path.IsTight) : path.text = join "." path.names := by
  obtain ⟨first, steps⟩ := path
  suffices htext : ∀ front : String, front ++ String.join (steps.map PathStep.text) =
      join "." (front :: steps.map (·.name.text)) from htext first.text
  induction steps with
  | nil => simp
  | cons step steps ih =>
    intro front
    obtain ⟨hbefore, hafter⟩ := h step List.mem_cons_self
    have hrest := ih (fun other ho => h other (List.mem_cons_of_mem _ ho)) step.name.text
    rw [List.map_cons, List.map_cons, join_cons "." front (by simp), ← hrest, String.join_cons,
      PathStep.text, hbefore, hafter]
    simp [String.append_assoc]

theorem isTight_of_not_blank (h : ∀ c ∈ path.text.toList, isBlank c = false) : path.IsTight := by
  have hempty {blanks : Blanks} (hb : blanks.text.toList ⊆ path.text.toList) : blanks.text = "" := by
    rw [← String.toList_inj]
    apply List.eq_nil_iff_forall_not_mem.mpr
    intro c hc
    exact absurd (blanks.blank c hc) (by simp [h c (hb hc)])
  intro step hs
  have hsub : step.text.toList ⊆ path.text.toList := by
    intro c hc
    have hmem : ∃ part ∈ path.steps.map PathStep.text, c ∈ part.toList :=
      ⟨step.text, List.mem_map_of_mem hs, hc⟩
    simpa [text] using Or.inr hmem
  constructor
  · apply hempty
    intro c hc
    exact hsub (by simp [PathStep.text, hc])
  · apply hempty
    intro c hc
    exact hsub (by simp [PathStep.text, hc])

theorem collapse_text_cases :
    (path.IsTight ∧ collapse path.text = join "." path.names) ∨
      (¬path.IsTight ∧ ' ' ∈ (collapse path.text).toList) := by
  by_cases h : path.IsTight
  · left
    rw [path.text_of_isTight h]
    exact ⟨h, collapse_of_not_blank path.names_not_blank⟩
  · right
    have hblank : ∃ c ∈ path.text.toList, isBlank c = true := by
      apply Classical.byContradiction
      intro hnone
      apply h
      apply path.isTight_of_not_blank
      intro c hc
      exact Bool.eq_false_iff.mpr fun hb => hnone ⟨c, hc, hb⟩
    obtain ⟨c, hc, hb⟩ := hblank
    obtain ⟨front, last, htext, hlast⟩ := path.exists_last
    exact ⟨h, space_mem_collapse path.head_not_blank (by simp [htext, hlast]) hc hb⟩

theorem collapse_text_eq_iff : collapse path.text = join "." path.names ↔ path.IsTight := by
  rcases path.collapse_text_cases with ⟨htight, hcollapse⟩ | ⟨hloose, hspace⟩
  · exact ⟨fun _ => htight, fun _ => hcollapse⟩
  · refine ⟨fun h => ?_, fun h => absurd h hloose⟩
    rw [h] at hspace
    exact absurd (path.names_not_blank ' ' hspace) (by decide +kernel)

theorem collapse_text_ne_empty : collapse path.text ≠ "" := by
  rcases path.collapse_text_cases with ⟨htight, hcollapse⟩ | ⟨-, hspace⟩
  · obtain ⟨front, last, htext, -⟩ := path.exists_last
    rw [hcollapse, ← path.text_of_isTight htight]
    intro he
    simp [he] at htext
  · intro he
    simp [he] at hspace

theorem parse_reference (kind : HookKind) (gap : Blanks) {front : List String} {method : String}
    (hn : path.names = front ++ [method]) (hf : front ≠ []) :
    let text := kind.root ++ "." ++ (gap.text ++ path.text)
    HookReference.parse text = some ⟨kind, text, join "." front, method⟩ := by
  intro text
  have hnames := map_trim_split gap path.first path.steps
  change _ = path.names at hnames
  rw [hn] at hnames
  obtain ⟨pieces, ends, hsplit, hpieces, hends⟩ := List.map_eq_append_iff.mp hnames
  obtain ⟨last, rfl, rfl⟩ := List.map_eq_singleton_iff.mp hends
  have htrim : trim text = text := by
    obtain ⟨front, c, htext, hc⟩ := path.exists_last
    apply trim_eq_self
    · cases kind <;> simp [text, HookKind.root] <;> decide +kernel
    · simp [text, htext, List.getLast?_cons, hc]
  have hne : ∀ piece ∈ pieces ++ [last], trim piece ≠ "" := by
    intro piece hp he
    have hname : "" ∈ path.names := by
      rw [hn, ← hpieces, ← he, ← List.map_singleton, ← List.map_append]
      exact List.mem_map_of_mem hp
    exact path.name_ne_empty hname
  rw [HookReference.parse_of_split htrim hsplit (by rintro rfl; exact hf hpieces.symm) hne, hpieces]

end SpacedPath

end HookEvents.CSharp
