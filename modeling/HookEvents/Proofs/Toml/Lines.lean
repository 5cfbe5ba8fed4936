import HookEvents.Proofs.Toml.Document

/-!
Documents with comments. Empty lines and lines that hold a comment alone change nothing, so a
document is read as its headers and settings say.
-/
namespace HookEvents.Toml

open Text

variable {document next : Document}

def isFiller (line : String) : Bool :=
  match line.toList with
  | [] => true
  | c :: cs => c = '#' && cs.all isPlain

def lineChars (lines : List String) : List Char := lines.flatMap fun line => line.toList ++ ['\n']

theorem endLine_comment {cs rest : List Char} (h : ∀ c ∈ cs, isPlain c = true) :
    endLine ('#' :: (cs ++ '\n' :: rest)) = some rest := by
  have hend : ∀ c ∈ ('\n' :: rest).head?, isPlain c = false := by
    intro c hc
    exact Option.some.inj hc ▸ rfl
  have hcomment : dropComment ('#' :: (cs ++ '\n' :: rest)) = some ('\n' :: rest) := by
    simp only [dropComment, dropWhile_exact h hend]
    rfl
  rw [endLine, List.dropWhile_cons_of_neg (by decide), hcomment]
  rfl

theorem reads_filler {line : String} (h : isFiller line = true) (document : Document) :
    Reads document (line.toList ++ ['\n']) document := by
  unfold isFiller at h
  split at h
  next hempty =>
    rw [hempty]
    exact reads_newline document
  next c cs hline =>
    rw [Bool.and_eq_true, decide_eq_true_eq, List.all_eq_true] at h
    obtain ⟨rfl, hplain⟩ := h
    rw [hline]
    refine ⟨1, by simp, fun fuel rest => ?_⟩
    have hstep (tail : List Char) : readDocument (fuel + 1) document ('#' :: tail) =
        (endLine ('#' :: tail)).bind (readDocument fuel document) := rfl
    rw [List.cons_append, List.cons_append, List.append_assoc, List.singleton_append, hstep,
      endLine_comment hplain]
    rfl

inductive Row where
  | header (name : String) (bare : IsBare name)
  | entry (setting : Setting)

namespace Row

def text : Row → String
  | header name _ => "[" ++ name ++ "]"
  | entry setting => setting.key ++ " = " ++ setting.text

def next? (document : Document) : Row → Option Document
  | header name _ => document.begin ⟨[], name, false⟩
  | entry setting => document.set [] setting.key setting.value

theorem reads {row : Row} (h : row.next? document = some next) :
    Reads document (row.text.toList ++ ['\n']) next := by
  cases row with
  | header name bare => simpa [text] using reads_header bare h
  | entry setting => simpa [text] using reads_entry setting.bare setting.denotes h

end Row

def Table.rows (table : Table) : List Row :=
  .header table.name table.bare :: table.settings.map .entry

theorem reads_lines {lines : List String} {rows : List Row}
    (hrows : lines.filter (!isFiller ·) = rows.map Row.text)
    (h : rows.foldlM Row.next? document = some next) :
    Reads document (lineChars lines) next := by
  induction lines generalizing rows document with
  | nil =>
    obtain rfl : rows = [] := List.map_eq_nil_iff.mp hrows.symm
    obtain rfl := Option.some.inj h
    exact Reads.refl document
  | cons line lines ih =>
    rw [lineChars, List.flatMap_cons]
    by_cases hline : isFiller line = true
    · rw [List.filter_cons_of_neg (by simp [hline])] at hrows
      exact (reads_filler hline document).trans (ih hrows h)
    · -- the line is kept, so it is the first row
      rw [List.filter_cons_of_pos (by simpa using hline)] at hrows
      obtain ⟨row, rows, rfl, hrow, hrest⟩ := List.map_eq_cons_iff.mp hrows.symm
      obtain ⟨mid, hmid, hothers⟩ := Option.bind_eq_some_iff.mp h
      rw [← hrow]
      exact (Row.reads hmid).trans (ih hrest.symm hothers)

end HookEvents.Toml
