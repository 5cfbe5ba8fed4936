import HookEvents.Generation.Unit

namespace HookEvents

open Text

/-- A block in braces: the headers of the blocks around it from the outside, its own, and the lines
directly in it, all without the spaces at their start. -/
structure TextBlock where
  around : List String
  header : String
  lines : List String
  deriving DecidableEq, Repr

def TextBlock.isEvent (block : TextBlock) : Bool := startsWith "public static event " block.header

def TextBlock.under (headers : List String) (block : TextBlock) : TextBlock :=
  { block with around := headers ++ block.around }

theorem TextBlock.under_under (outer inner : List String) (block : TextBlock) :
    (block.under inner).under outer = block.under (outer ++ inner) := by
  simp [under]

/-- The blocks that are open, from the inside, each with its header and the lines found in it. -/
structure BlockReader where
  stack : List (String × List String) := []
  previous : String := ""
  blocks : List TextBlock := []
  /-- The lines read, each with the number of blocks around it. -/
  depths : List (Nat × String) := []
  deriving DecidableEq, Repr

namespace BlockReader

def addLines (lines : List String) :
    List (String × List String) → List (String × List String)
  | [] => []
  | (header, known) :: outer => (header, known ++ lines) :: outer

def headers (reader : BlockReader) : List String := (reader.stack.map (·.1)).reverse

/-- Nothing if a brace closes a block where none is open. -/
def step (reader : BlockReader) (line : String) : Option BlockReader :=
  let text := dropStartWhile ' ' line
  if text = openBrace then
    some { reader with
      stack := (reader.previous, []) :: reader.stack
      previous := text
      depths := reader.depths ++ [(reader.stack.length, line)] }
  else if text = closeBrace then
    match reader.stack with
    | [] => none
    | (header, lines) :: outer =>
      some {
        stack := outer
        previous := text
        blocks := reader.blocks ++ [{ around := (outer.map (·.1)).reverse, header, lines }]
        depths := reader.depths ++ [(outer.length, line)] }
  else
    some { reader with
      stack := addLines [text] reader.stack
      previous := text
      depths := reader.depths ++ [(reader.stack.length, line)] }

def run (reader : BlockReader) (lines : List String) : Option BlockReader :=
  lines.foldlM step reader

theorem run_cons {reader next : BlockReader} {line : String} (h : reader.step line = some next)
    (lines : List String) : reader.run (line :: lines) = next.run lines := by
  rw [run, List.foldlM_cons, h]
  rfl

theorem run_append {reader middle : BlockReader} {lines : List String}
    (h : reader.run lines = some middle) (more : List String) :
    reader.run (lines ++ more) = middle.run more := by
  rw [run] at h
  rw [run, List.foldlM_append, h]
  rfl

theorem addLines_nil (stack : List (String × List String)) : addLines [] stack = stack := by
  cases stack <;> simp [addLines]

theorem addLines_append (lines more : List String) (stack : List (String × List String)) :
    addLines more (addLines lines stack) = addLines (lines ++ more) stack := by
  cases stack <;> simp [addLines]

theorem map_fst_addLines (lines : List String) (stack : List (String × List String)) :
    (addLines lines stack).map (·.1) = stack.map (·.1) := by
  cases stack <;> simp [addLines]

theorem step_depths {reader next : BlockReader} {line : String} (h : reader.step line = some next) :
    next.depths.map (·.2) = reader.depths.map (·.2) ++ [line] := by
  rw [step] at h
  split at h
  · obtain rfl := Option.some.inj h
    simp
  · split at h
    · split at h
      · exact absurd h (by simp)
      · obtain rfl := Option.some.inj h
        simp
    · obtain rfl := Option.some.inj h
      simp

theorem run_depths {reader last : BlockReader} {lines : List String}
    (h : reader.run lines = some last) :
    last.depths.map (·.2) = reader.depths.map (·.2) ++ lines := by
  induction lines generalizing reader with
  | nil =>
    obtain rfl := Option.some.inj h
    simp
  | cons line lines ih =>
    obtain ⟨next, hs, hr⟩ := Option.bind_eq_some_iff.mp h
    rw [ih hr, step_depths hs, List.append_assoc]
    rfl

end BlockReader

def Indented (width : Nat) (placed : Nat × String) : Prop :=
  placed.2 ≠ "" → ∃ c rest, c ≠ ' ' ∧
    placed.2.toList = List.replicate (placed.1 * width) ' ' ++ c :: rest

def isPlain (line : String) : Bool :=
  line.toList.head?.all fun c => c ≠ ' ' && c ≠ '{' && c ≠ '}'

theorem toList_indentLine {line : String} (h : line ≠ "") (width : Nat) :
    (indentLine width line).toList = List.replicate width ' ' ++ line.toList := by
  simp [indentLine, h]

theorem indentLine_indentLine (outer inner : Nat) (line : String) :
    indentLine outer (indentLine inner line) = indentLine (outer + inner) line := by
  by_cases h : line = ""
  · simp [indentLine, h]
  · have hi : indentLine inner line ≠ "" := by
      intro he
      have hl := congrArg String.toList he
      simp [toList_indentLine h, h] at hl
    rw [← String.toList_inj, toList_indentLine hi, toList_indentLine h, toList_indentLine h,
      ← List.append_assoc, List.replicate_append_replicate]

theorem dropStartWhile_indentLine {line : String} (h : line.toList.head? ≠ some ' ')
    (width : Nat) : dropStartWhile ' ' (indentLine width line) = line := by
  by_cases he : line = ""
  · subst he
    rfl
  · obtain ⟨c, cs, hl⟩ : ∃ c cs, line.toList = c :: cs := by
      cases hl : line.toList with
      | nil => simp_all
      | cons c cs => exact ⟨c, cs, rfl⟩
    have hc : c ≠ ' ' := by simpa [hl] using h
    have hdrop : (List.replicate width ' ' ++ c :: cs).dropWhile (· = ' ') = c :: cs := by
      induction width with
      | zero => simp [hc]
      | succ width ih => simpa [List.replicate_succ] using ih
    rw [dropStartWhile, toList_indentLine he, hl, hdrop, ← hl, String.ofList_toList]

theorem indented_indentLine {line : String} (h : line.toList.head? ≠ some ' ') (width depth : Nat) :
    Indented width (depth, indentLine (depth * width) line) := by
  intro hne
  have he : line ≠ "" := by
    rintro rfl
    exact hne rfl
  cases hl : line.toList with
  | nil => simp_all
  | cons c cs => exact ⟨c, cs, by simpa [hl] using h, by rw [toList_indentLine he, hl]⟩

/-- What lines do at any depth: they add lines to the block around them and bring events, in
blocks that they open and close themselves. -/
def Reads (width : Nat) (lines direct : List String) (events : List TextBlock) : Prop :=
  ∀ reader : BlockReader, ∃ last,
    reader.run (lines.map (indentLine (reader.stack.length * width))) = some last ∧
    last.stack = BlockReader.addLines direct reader.stack ∧
    last.blocks.filter TextBlock.isEvent =
      reader.blocks.filter TextBlock.isEvent ++ events.map (TextBlock.under reader.headers) ∧
    ((∀ placed ∈ reader.depths, Indented width placed) →
      ∀ placed ∈ last.depths, Indented width placed)

namespace Reads

variable {width : Nat}

theorem nil : Reads width [] [] [] := fun reader =>
  ⟨reader, rfl, (BlockReader.addLines_nil _).symm, by simp, fun h => h⟩

theorem append {lines more direct direct' : List String} {events events' : List TextBlock}
    (h : Reads width lines direct events) (h' : Reads width more direct' events') :
    Reads width (lines ++ more) (direct ++ direct') (events ++ events') := by
  intro reader
  obtain ⟨middle, hr, hs, he, hd⟩ := h reader
  obtain ⟨last, hr', hs', he', hd'⟩ := h' middle
  have hfst : middle.stack.map (·.1) = reader.stack.map (·.1) := by
    rw [hs, BlockReader.map_fst_addLines]
  have hlen : middle.stack.length = reader.stack.length := by
    simpa using congrArg List.length hfst
  have hheaders : middle.headers = reader.headers := by
    rw [BlockReader.headers, hfst]
    rfl
  refine ⟨last, ?_, ?_, ?_, fun h => hd' (hd h)⟩
  · rw [hlen] at hr'
    rw [List.map_append, BlockReader.run_append hr, hr']
  · rw [hs', hs, BlockReader.addLines_append]
  · rw [he', he, hheaders, List.map_append, List.append_assoc]

theorem isPlain_head {line : String} (h : isPlain line = true) :
    line.toList.head? ≠ some ' ' ∧ line ≠ openBrace ∧ line ≠ closeBrace := by
  refine ⟨?_, ?_, ?_⟩
  · intro hc
    simp [isPlain, hc] at h
  · rintro rfl
    exact absurd h (by decide)
  · rintro rfl
    exact absurd h (by decide)

theorem step_plain {line : String} (h : isPlain line = true) (reader : BlockReader) (depth : Nat) :
    reader.step (indentLine depth line) = some { reader with
      stack := BlockReader.addLines [line] reader.stack
      previous := line
      depths := reader.depths ++ [(reader.stack.length, indentLine depth line)] } := by
  obtain ⟨hspace, hopen, hclose⟩ := isPlain_head h
  rw [BlockReader.step]
  simp only [dropStartWhile_indentLine hspace, hopen, hclose, ↓reduceIte]

theorem line {line : String} (h : isPlain line = true) : Reads width [line] [line] [] := by
  intro reader
  have hstep := step_plain h reader (reader.stack.length * width)
  refine ⟨_, BlockReader.run_cons hstep [], rfl, by simp, ?_⟩
  intro hd placed hp
  rcases List.mem_append.mp hp with hp | hp
  · exact hd placed hp
  · rw [List.mem_singleton.mp hp]
    exact indented_indentLine (isPlain_head h).1 _ _

theorem lines {lines : List String} (h : ∀ line ∈ lines, isPlain line = true) :
    Reads width lines lines [] := by
  induction lines with
  | nil => exact nil
  | cons first rest ih =>
    exact (line (h first (by simp))).append (ih fun other ho => h other (by simp [ho]))

theorem step_open (reader : BlockReader) (depth : Nat) :
    reader.step (indentLine depth openBrace) = some { reader with
      stack := (reader.previous, []) :: reader.stack
      previous := openBrace
      depths := reader.depths ++ [(reader.stack.length, indentLine depth openBrace)] } := by
  have hspace : openBrace.toList.head? ≠ some ' ' := by decide
  rw [BlockReader.step]
  simp only [dropStartWhile_indentLine hspace, ↓reduceIte]

theorem step_close {reader : BlockReader} {header : String} {lines : List String}
    {outer : List (String × List String)} (hs : reader.stack = (header, lines) :: outer)
    (depth : Nat) :
    reader.step (indentLine depth closeBrace) = some {
      stack := outer
      previous := closeBrace
      blocks := reader.blocks ++ [{ around := (outer.map (·.1)).reverse, header, lines }]
      depths := reader.depths ++ [(outer.length, indentLine depth closeBrace)] } := by
  have hspace : closeBrace.toList.head? ≠ some ' ' := by decide
  have hne : closeBrace ≠ openBrace := by decide
  rw [BlockReader.step]
  simp only [dropStartWhile_indentLine hspace, hs, hne, ↓reduceIte]

theorem map_block (header : String) (body : List String) (depth : Nat) :
    (HookEvents.block width header body).map (indentLine (depth * width)) =
      indentLine (depth * width) header :: indentLine (depth * width) openBrace ::
        body.map (indentLine ((depth + 1) * width)) ++ [indentLine (depth * width) closeBrace] := by
  have hbody : (body.map (indentLine width)).map (indentLine (depth * width)) =
      body.map (indentLine ((depth + 1) * width)) := by
    simp only [List.map_map, Function.comp_def, indentLine_indentLine, Nat.succ_mul]
  simp only [HookEvents.block, List.map_cons, List.map_append, List.map_nil, List.cons_append,
    hbody]

theorem block {body direct : List String} {events : List TextBlock}
    (hb : Reads width body direct events) {header : String} (hh : isPlain header = true) :
    Reads width (HookEvents.block width header body) [header]
      (events.map (TextBlock.under [header]) ++
        [{ around := [], header, lines := direct }].filter TextBlock.isEvent) := by
  intro reader
  let opened : BlockReader := { reader with
    stack := (header, []) :: BlockReader.addLines [header] reader.stack
    previous := openBrace
    depths := reader.depths ++
      [(reader.stack.length, indentLine (reader.stack.length * width) header),
        (reader.stack.length, indentLine (reader.stack.length * width) openBrace)] }
  have hfst := BlockReader.map_fst_addLines [header] reader.stack
  have hlen : (BlockReader.addLines [header] reader.stack).length = reader.stack.length := by
    simpa using congrArg List.length hfst
  obtain ⟨middle, hr, hs, he, hd⟩ := hb opened
  have hclose := step_close hs (reader.stack.length * width)
  rw [hfst, hlen] at hclose
  have hdepth : opened.stack.length = reader.stack.length + 1 := by simp [opened, hlen]
  have hheaders : opened.headers = reader.headers ++ [header] := by
    simp [opened, BlockReader.headers, hfst]
  refine ⟨{ stack := BlockReader.addLines [header] reader.stack
            previous := closeBrace
            blocks := middle.blocks ++ [{ around := reader.headers, header, lines := direct }]
            depths := middle.depths ++
              [(reader.stack.length, indentLine (reader.stack.length * width) closeBrace)] },
    ?_, rfl, ?_, ?_⟩
  · have hopen : BlockReader.step { reader with
        stack := BlockReader.addLines [header] reader.stack
        previous := header
        depths := reader.depths ++
          [(reader.stack.length, indentLine (reader.stack.length * width) header)] }
        (indentLine (reader.stack.length * width) openBrace) = some opened := by
      rw [step_open, hlen, List.append_assoc]
      rfl
    rw [hdepth] at hr
    rw [map_block, List.cons_append, BlockReader.run_cons (step_plain hh reader _),
      List.cons_append, BlockReader.run_cons hopen, BlockReader.run_append hr,
      BlockReader.run_cons hclose]
    rfl
  · rw [List.filter_append, he, hheaders, List.map_append, List.map_map, List.append_assoc]
    simp only [Function.comp_def, TextBlock.under_under]
    cases hevent : startsWith "public static event " header <;>
      simp [opened, TextBlock.isEvent, TextBlock.under, hevent]
  · intro hreader placed hp
    have hopened : ∀ placed ∈ opened.depths, Indented width placed := by
      intro placed hp
      rcases List.mem_append.mp hp with hp | hp
      · exact hreader placed hp
      · simp only [List.mem_cons, List.not_mem_nil, or_false] at hp
        rcases hp with rfl | rfl
        · exact indented_indentLine (isPlain_head hh).1 _ _
        · exact indented_indentLine (by decide) _ _
    rcases List.mem_append.mp hp with hp | hp
    · exact hd hopened placed hp
    · rw [List.mem_singleton.mp hp]
      exact indented_indentLine (by decide) _ _

theorem run_top {lines direct : List String} {events : List TextBlock}
    (h : Reads width lines direct events) :
    ∃ last, BlockReader.run {} lines = some last ∧ last.stack = [] ∧
      last.depths.map (·.2) = lines ∧ (∀ placed ∈ last.depths, Indented width placed) ∧
      last.blocks.filter TextBlock.isEvent = events := by
  obtain ⟨last, hr, hs, he, hd⟩ := h {}
  have hlines : lines.map (indentLine (0 * width)) = lines := by
    refine (List.map_congr_left fun line _ => ?_).trans (List.map_id _)
    simp [indentLine]
  have hunder : TextBlock.under (BlockReader.headers {}) = id := rfl
  rw [List.length_nil, hlines] at hr
  rw [hunder, List.map_id, List.filter_nil, List.nil_append] at he
  have hdepths := BlockReader.run_depths hr
  rw [List.map_nil, List.nil_append] at hdepths
  exact ⟨last, hr, hs, hdepths, hd (by simp), he⟩

end Reads
end HookEvents
