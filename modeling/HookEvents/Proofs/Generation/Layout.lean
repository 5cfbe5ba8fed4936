import HookEvents.Proofs.Generation.Blocks
import HookEvents.Proofs.Text.Split

namespace HookEvents

open Text

section LineWise

variable {p : String → Prop}

theorem forall_mem_block {width : Nat} {header : String} {body : List String} (hh : p header)
    (ho : p openBrace) (hc : p closeBrace) (hb : ∀ line ∈ body, p (indentLine width line)) :
    ∀ line ∈ block width header body, p line := by
  intro line hl
  simp only [block, List.cons_append, List.mem_cons, List.mem_append, List.mem_map,
    List.not_mem_nil, or_false] at hl
  rcases hl with rfl | rfl | ⟨inner, hi, rfl⟩ | rfl
  · exact hh
  · exact ho
  · exact hb inner hi
  · exact hc

theorem forall_mem_separated {groups : List (List String)} (he : p "")
    (h : ∀ lines ∈ groups, ∀ line ∈ lines, p line) : ∀ line ∈ separated groups, p line := by
  fun_induction separated groups with
  | case1 => simp
  | case2 lines => exact h lines (by simp)
  | case3 lines rest _ ih =>
    intro line hl
    rcases List.mem_append.mp hl with hl | hl
    · exact h lines (by simp) line hl
    · rcases List.mem_cons.mp hl with rfl | hl
      · exact he
      · exact ih (fun other ho => h other (by simp [ho])) line hl

end LineWise

def OneLine (s : String) : Prop := '\n' ∉ s.toList

instance : DecidablePred OneLine := fun s => inferInstanceAs (Decidable ('\n' ∉ s.toList))

namespace OneLine

theorem append_iff {s t : String} : OneLine (s ++ t) ↔ OneLine s ∧ OneLine t := by
  simp [OneLine]

theorem append {s t : String} (hs : OneLine s) (ht : OneLine t) : OneLine (s ++ t) :=
  append_iff.mpr ⟨hs, ht⟩

theorem join {sep : String} {parts : List String} (hs : OneLine sep)
    (hp : ∀ part ∈ parts, OneLine part) : OneLine (join sep parts) := by
  induction parts with
  | nil => exact List.not_mem_nil
  | cons part parts ih =>
    have hpart := hp part (by simp)
    have hrest := ih fun other ho => hp other (by simp [ho])
    by_cases he : parts = []
    · simpa [he] using hpart
    · rw [join_cons sep part he]
      exact (hpart.append hs).append hrest

theorem dropStartWhile {s : String} (h : OneLine s) (c : Char) : OneLine (dropStartWhile c s) := by
  rw [OneLine, Text.dropStartWhile, String.toList_ofList]
  exact fun hm => h ((List.dropWhile_sublist _).mem hm)

theorem dropEndWhile {s : String} (h : OneLine s) (c : Char) : OneLine (dropEndWhile c s) := by
  rw [OneLine, Text.dropEndWhile, String.toList_ofList, List.mem_reverse]
  exact fun hm => h (List.mem_reverse.mp ((List.dropWhile_sublist _).mem hm))

theorem globalPath {path : String} (h : OneLine path) : OneLine (globalPath path) := by
  have hp := (h.dropStartWhile '.').dropEndWhile '.'
  rw [HookEvents.globalPath]
  split
  · exact hp
  · exact append (by decide) hp

theorem indentLine {line : String} (h : OneLine line) (width : Nat) :
    OneLine (indentLine width line) := by
  rw [HookEvents.indentLine]
  split
  · decide
  · refine append ?_ h
    rw [OneLine, String.toList_ofList]
    exact fun hm => absurd (List.mem_replicate.mp hm).2 (by decide)

theorem block {width : Nat} {header : String} {body : List String} (hh : OneLine header)
    (hb : ∀ line ∈ body, OneLine line) : ∀ line ∈ block width header body, OneLine line :=
  forall_mem_block hh (by decide) (by decide) fun line hl => (hb line hl).indentLine width

theorem separated {groups : List (List String)}
    (h : ∀ lines ∈ groups, ∀ line ∈ lines, OneLine line) :
    ∀ line ∈ separated groups, OneLine line :=
  forall_mem_separated (by decide) h

end OneLine

structure GeneratorConfig.NoNewline (config : GeneratorConfig) : Prop where
  runtimeNamespace : OneLine config.runtimeNamespace
  endpointManager : OneLine config.endpointManager
  manipulatorType : OneLine config.manipulatorType

structure Method.NoNewline (method : Method) : Prop where
  name : OneLine method.name
  parameters : ∀ parameter ∈ method.parameters, OneLine parameter
  returnType : ∀ result ∈ method.returnType, OneLine result

structure HookGroup.NoNewline (group : HookGroup) : Prop where
  usings : ∀ target ∈ group.declaringType.usings, OneLine target
  namespaceName : ∀ name ∈ group.declaringType.namespaceName, OneLine name
  levels : ∀ level ∈ group.declaringType.nestingChain, OneLine level
  methods : ∀ method ∈ group.methods, method.NoNewline

theorem CallbackSignature.oneLine_callbackType {config : GeneratorConfig} (hc : config.NoNewline)
    {signature : CallbackSignature} (hs : ∀ type ∈ signature.types, OneLine type)
    (kind : HookKind) :
    OneLine (signature.callbackType config kind) := by
  have hhead : OneLine signature.head := by
    rw [head]
    split <;> decide
  have hlist : ∀ types : List String, (∀ type ∈ types, OneLine type) →
      OneLine (signature.head ++ "<" ++ join ", " types ++ ">") := by
    intro types ht
    have hjoin : OneLine (join ", " types) := OneLine.join (by decide) ht
    simp only [OneLine.append_iff, hhead, hjoin, true_and]
    decide
  cases kind with
  | transform => exact hc.manipulatorType.globalPath
  | subscribe =>
    have hdelegate : OneLine signature.methodDelegate := by
      rw [methodDelegate]
      split
      · decide
      · exact hlist _ hs
    refine hlist _ fun type ht => ?_
    rcases List.mem_cons.mp ht with rfl | ht
    · exact hdelegate
    · exact hs type ht

theorem TypeSymbol.oneLine_qualifiedName {symbol : TypeSymbol}
    (hn : ∀ name ∈ symbol.namespaceName, OneLine name)
    (hl : ∀ level ∈ symbol.nestingChain, OneLine level) : OneLine symbol.qualifiedName := by
  refine OneLine.join (by decide) fun part hp => ?_
  rcases List.mem_append.mp hp with hp | hp
  · exact hn part (Option.mem_toList.mp hp)
  · exact hl part hp

theorem oneLine_bindingFlags : OneLine bindingFlags := by
  refine OneLine.join (by decide) fun part hp => ?_
  obtain ⟨flag, hf, rfl⟩ := List.mem_map.mp hp
  have hflags : ∀ flag ∈ ["Public", "NonPublic", "Static", "Instance"], OneLine flag := by decide
  exact OneLine.append (by decide) (hflags flag hf)

theorem methodLookup_eq (symbol : TypeSymbol) (method : Method) :
    methodLookup symbol method = "typeof(global::" ++ symbol.qualifiedName ++ ").GetMethod(\"" ++
      method.name ++ "\", " ++ bindingFlags ++ ")" := rfl

theorem eventLines_eq (config : GeneratorConfig) (kind : HookKind) (symbol : TypeSymbol)
    (method : Method) :
    eventLines config kind symbol method =
      block config.indent ("public static event " ++
          (CallbackSignature.ofMethod symbol method).callbackType config kind ++ " " ++ method.name)
        [accessorLine config "add" kind.operations.1 (methodLookup symbol method),
          accessorLine config "remove" kind.operations.2 (methodLookup symbol method)] := rfl

namespace HookGroup

variable {config : GeneratorConfig} {group : HookGroup}

theorem oneLine_eventLines (hc : config.NoNewline) (hg : group.NoNewline) {method : Method}
    (hm : method.NoNewline) :
    ∀ line ∈ eventLines config group.kind group.declaringType method, OneLine line := by
  have hname := TypeSymbol.oneLine_qualifiedName hg.namespaceName hg.levels
  have htypes : ∀ type ∈ (CallbackSignature.ofMethod group.declaringType method).types,
      OneLine type := by
    intro type ht
    rcases List.mem_append.mp ht with ht | ht
    · rcases List.mem_append.mp ht with ht | ht
      · split at ht
        · exact absurd ht List.not_mem_nil
        · rw [List.mem_singleton.mp ht]
          exact OneLine.append (by decide) hname
      · exact hm.parameters type ht
    · exact hm.returnType type (Option.mem_toList.mp ht)
  have htarget : OneLine (methodLookup group.declaringType method) := by
    simp only [methodLookup_eq, OneLine.append_iff, hname, hm.name, oneLine_bindingFlags,
      and_true]
    decide
  have hpath : OneLine config.endpointManagerPath :=
    ((hc.runtimeNamespace.append (by decide)).append hc.endpointManager).globalPath
  have hoperations : OneLine group.kind.operations.1 ∧
      OneLine group.kind.operations.2 := by
    cases group.kind <;> decide
  have hcallback := CallbackSignature.oneLine_callbackType hc htypes group.kind
  rw [eventLines_eq]
  refine OneLine.block ?_ ?_
  · simp only [OneLine.append_iff, hcallback, hm.name, and_true]
    decide
  · intro line hl
    simp only [List.mem_cons, List.not_mem_nil, or_false] at hl
    rcases hl with rfl | rfl
    · simp only [accessorLine, OneLine.append_iff, hpath, htarget, hoperations.1, and_true]
      decide
    · simp only [accessorLine, OneLine.append_iff, hpath, htarget, hoperations.2, and_true]
      decide

theorem oneLine_classLines (hc : config.NoNewline) (hg : group.NoNewline) :
    ∀ line ∈ group.classLines config, OneLine line := by
  have hlevels := hg.levels
  rw [classLines]
  generalize group.declaringType.nestingChain = chain at hlevels ⊢
  induction chain with
  | nil =>
    refine OneLine.separated fun lines hl => ?_
    obtain ⟨method, hm, rfl⟩ := List.mem_map.mp hl
    exact oneLine_eventLines hc hg (hg.methods method hm)
  | cons level chain ih =>
    refine OneLine.block (OneLine.append (by decide) (hlevels level (by simp))) ?_
    exact ih fun other ho => hlevels other (by simp [ho])

theorem oneLine_lines (hc : config.NoNewline) (hg : group.NoNewline) :
    ∀ line ∈ group.lines config, OneLine line := by
  have hroot : OneLine group.kind.root := by cases group.kind <;> decide
  have hnamespace : OneLine group.namespaceName := by
    rw [namespaceName]
    split
    next name hn => exact (hroot.append (by decide)).append (hg.namespaceName name hn)
    · exact hroot
  intro line hl
  rcases List.mem_append.mp hl with hl | hl
  · rcases List.mem_append.mp hl with hl | hl
    · split at hl
      · have hheader : ∀ line ∈ headerLines, OneLine line := by decide
        exact hheader line hl
      · exact absurd hl List.not_mem_nil
    · simp only [usingLines] at hl
      split at hl
      · exact absurd hl List.not_mem_nil
      · rcases List.mem_append.mp hl with hl | hl
        · obtain ⟨target, ht, rfl⟩ := List.mem_map.mp hl
          exact (OneLine.append (by decide) (hg.usings target ht)).append (by decide)
        · rw [List.mem_singleton.mp hl]
          decide
  · exact OneLine.block (OneLine.append (by decide) hnamespace) (oneLine_classLines hc hg) line hl

end HookGroup

theorem dropStartChars_append (start rest : List Char) :
    dropStartChars start (start ++ rest) = some rest := by
  induction start with
  | nil => rfl
  | cons c start ih => simp [dropStartChars, ih]

theorem startsWith_append (start rest : String) : startsWith start (start ++ rest) = true := by
  simp [startsWith, dropStartChars_append]

theorem isPlain_append {start : String} (h : isPlain start = true) (hne : start ≠ "")
    (rest : String) : isPlain (start ++ rest) = true := by
  cases hs : start.toList with
  | nil => simp_all
  | cons c cs => simpa [isPlain, hs] using h

/-- The block that stands for a method: in the namespace of its kind and the classes of its type,
with one accessor for each operation. -/
def HookGroup.eventBlock (config : GeneratorConfig) (group : HookGroup) (method : Method) :
    TextBlock :=
  let symbol := group.declaringType
  let callback := (CallbackSignature.ofMethod symbol method).callbackType config group.kind
  { around :=
      ("namespace " ++ join "." (group.kind.root :: symbol.namespaceName.toList)) ::
        symbol.nestingChain.map ("public static partial class " ++ ·)
    header := "public static event " ++ callback ++ " " ++ method.name
    lines := [("add", group.kind.operations.1), ("remove", group.kind.operations.2)].map
      fun (accessor, operation) =>
        accessor ++ " => " ++ config.endpointManagerPath ++ "." ++ operation ++
          "(typeof(global::" ++ symbol.qualifiedName ++ ").GetMethod(\"" ++ method.name ++ "\", " ++
            bindingFlags ++ "), value);" }

theorem HookGroup.eventLines_eq_block (config : GeneratorConfig) (group : HookGroup)
    (method : Method) :
    eventLines config group.kind group.declaringType method =
      block config.indent (group.eventBlock config method).header
        (group.eventBlock config method).lines := by
  have hopen : "(typeof(global::" = "(" ++ "typeof(global::" := rfl
  have hclose : "), value);" = ")" ++ ", value);" := rfl
  simp only [eventLines_eq, eventBlock, List.map_cons, List.map_nil, accessorLine, methodLookup_eq,
    String.append_assoc, hopen, hclose, -String.reduceAppend]

theorem HookGroup.namespaceName_eq (group : HookGroup) :
    group.namespaceName =
      join "." (group.kind.root :: group.declaringType.namespaceName.toList) := by
  rw [namespaceName]
  cases group.declaringType.namespaceName with
  | none => exact (join_singleton _ _).symm
  | some name =>
    rw [Option.toList_some, join_cons _ _ (by simp), join_singleton]

namespace Reads

variable {width : Nat}

theorem outer_block {body direct : List String} {events : List TextBlock}
    (hb : Reads width body direct events) {start : String} (hp : isPlain start = true)
    (hne : start ≠ "") (name : String)
    (he : startsWith "public static event " (start ++ name) = false) :
    Reads width (HookEvents.block width (start ++ name) body) [start ++ name]
      (events.map (TextBlock.under [start ++ name])) := by
  have hblock := hb.block (isPlain_append hp hne name)
  simpa [TextBlock.isEvent, he] using hblock

theorem event (config : GeneratorConfig) (group : HookGroup) (method : Method) :
    Reads config.indent (eventLines config group.kind group.declaringType method)
      [(group.eventBlock config method).header]
      [⟨[], (group.eventBlock config method).header, (group.eventBlock config method).lines⟩] := by
  have hheader : isPlain (group.eventBlock config method).header = true := by
    simp only [HookGroup.eventBlock, String.append_assoc]
    exact isPlain_append (by decide) (by decide) _
  have hevent :
      startsWith "public static event " (group.eventBlock config method).header = true := by
    simp only [HookGroup.eventBlock, String.append_assoc]
    exact startsWith_append _ _
  have hlines : ∀ line ∈ (group.eventBlock config method).lines, isPlain line = true := by
    intro line hl
    obtain ⟨⟨accessor, operation⟩, ha, rfl⟩ := List.mem_map.mp hl
    simp only [List.mem_cons, Prod.mk.injEq, List.not_mem_nil, or_false] at ha
    simp only [String.append_assoc]
    rcases ha with ⟨rfl, -⟩ | ⟨rfl, -⟩ <;> exact isPlain_append (by decide) (by decide) _
  have hread : Reads config.indent _ _ [] := Reads.lines hlines
  have hblock := hread.block hheader
  rw [HookGroup.eventLines_eq_block]
  simpa [TextBlock.isEvent, hevent] using hblock

theorem separated {α : Type} {items : List α} {lines direct : α → List String}
    {event : α → TextBlock}
    (h : ∀ item ∈ items, Reads width (lines item) (direct item) [event item]) :
    ∃ direct, Reads width (separated (items.map lines)) direct (items.map event) := by
  induction items with
  | nil => exact ⟨[], nil⟩
  | cons item items ih =>
    have hitem := h item (by simp)
    obtain ⟨direct', hrest⟩ := ih fun other ho => h other (by simp [ho])
    cases items with
    | nil => exact ⟨_, hitem⟩
    | cons next items => exact ⟨_, hitem.append ((line (by decide)).append hrest)⟩

theorem classes {body direct : List String} {events : List TextBlock}
    (hb : Reads width body direct events) (chain : List String) :
    ∃ direct, Reads width
      (chain.foldr
        (fun level body => HookEvents.block width ("public static partial class " ++ level) body)
        body)
      direct
      (events.map (TextBlock.under (chain.map ("public static partial class " ++ ·)))) := by
  induction chain with
  | nil =>
    have hunder : TextBlock.under [] = id := rfl
    exact ⟨direct, by rwa [List.map_nil, hunder, List.map_id]⟩
  | cons level chain ih =>
    obtain ⟨direct', hchain⟩ := ih
    have hnot :
        startsWith "public static event " ("public static partial class " ++ level) = false := by
      simp [startsWith, dropStartChars]
    have hblock := hchain.outer_block (by decide) (by decide) level hnot
    simp only [List.map_map, Function.comp_def, TextBlock.under_under] at hblock
    exact ⟨_, hblock⟩

theorem unit (config : GeneratorConfig) (group : HookGroup) :
    ∃ direct, Reads config.indent (group.lines config) direct
      (group.methods.map (group.eventBlock config)) := by
  obtain ⟨direct, hevents⟩ := separated fun method (_ : method ∈ group.methods) =>
    event config group method
  obtain ⟨direct', hclasses⟩ := hevents.classes group.declaringType.nestingChain
  have hnot : startsWith "public static event " ("namespace " ++ group.namespaceName) = false := by
    simp [startsWith, dropStartChars]
  have hspace := hclasses.outer_block (by decide) (by decide) group.namespaceName hnot
  have hheader : ∀ line ∈ if config.header then headerLines else [], isPlain line = true := by
    split
    · decide
    · simp
  have husings : ∀ line ∈ group.usingLines, isPlain line = true := by
    intro line hl
    simp only [HookGroup.usingLines] at hl
    split at hl
    · exact absurd hl List.not_mem_nil
    · rcases List.mem_append.mp hl with hl | hl
      · obtain ⟨target, -, rfl⟩ := List.mem_map.mp hl
        rw [String.append_assoc]
        exact isPlain_append (by decide) (by decide) _
      · rw [List.mem_singleton.mp hl]
        decide
  have hblock : ∀ method, (TextBlock.mk [] (group.eventBlock config method).header
      (group.eventBlock config method).lines).under (("namespace " ++ group.namespaceName) ::
        group.declaringType.nestingChain.map ("public static partial class " ++ ·)) =
      group.eventBlock config method := by
    intro method
    rw [group.namespaceName_eq, TextBlock.under, List.append_nil]
    rfl
  have hunit := ((Reads.lines hheader).append (Reads.lines husings)).append hspace
  simp only [List.map_map, Function.comp_def, TextBlock.under_under, List.singleton_append,
    hblock, List.nil_append] at hunit
  exact ⟨_, hunit⟩

end Reads

def eventBlocks (lines : List String) : List TextBlock :=
  ((BlockReader.run {} lines).map fun last => last.blocks.filter TextBlock.isEvent).getD []

theorem HookGroup.eventBlocks_lines (config : GeneratorConfig) (group : HookGroup) :
    eventBlocks (group.lines config) = group.methods.map (group.eventBlock config) := by
  obtain ⟨direct, hunit⟩ := Reads.unit config group
  obtain ⟨last, hrun, -, -, -, hevents⟩ := hunit.run_top
  rw [eventBlocks, hrun, Option.map_some, Option.getD_some, hevents]

/-- Reading a generated file never closes a block where none is open and ends with none open; each
line is indented by the blocks around it, and the events are those of the methods, in order. -/
theorem HookGroup.emit_layout (config : GeneratorConfig) (group : HookGroup) (hc : config.NoNewline)
    (hg : group.NoNewline) :
    ∃ last, BlockReader.run {} (split '\n' (group.emit config).text) = some last ∧
      last.stack = [] ∧
      last.depths.map (·.2) = split '\n' (group.emit config).text ∧
      (∀ placed ∈ last.depths, Indented config.indent placed) ∧
      last.blocks.filter TextBlock.isEvent = group.methods.map (group.eventBlock config) := by
  have hsplit : split '\n' (group.emit config).text = group.lines config ++ [""] :=
    split_lines rfl (group.oneLine_lines hc hg)
  obtain ⟨direct, hunit⟩ := Reads.unit config group
  have hread := (hunit.append (Reads.line (by decide : isPlain "" = true))).run_top
  rw [List.append_nil, ← hsplit] at hread
  exact hread

theorem HookGroup.emit_layout_nested :
    let config : GeneratorConfig := { indent := 2 }
    let group : HookGroup :=
      { kind := .subscribe
        declaringType :=
          { name := "Inner", namespaceName := some "Game", containingTypes := ["Outer"]
            usings := ["System"] }
        methods := [{ name := "Reset", isStatic := true },
          { name := "Hurt", parameters := ["int"], returnType := some "bool" }] }
    config.NoNewline ∧ group.NoNewline ∧
      ∃ last, BlockReader.run {} (split '\n' (group.emit config).text) = some last ∧
        last.stack = [] ∧
        last.depths.map (·.2) = split '\n' (group.emit config).text ∧
        (∀ placed ∈ last.depths, Indented config.indent placed) ∧
        last.blocks.filter TextBlock.isEvent = group.methods.map (group.eventBlock config) := by
  intro config group
  have hc : config.NoNewline := ⟨by decide, by decide, by decide⟩
  have hg : group.NoNewline := by
    refine ⟨by decide, by decide, by decide, fun method hm => ?_⟩
    rcases List.mem_cons.mp hm with rfl | hm
    · exact ⟨by decide, by decide, by decide⟩
    · rw [List.mem_singleton.mp hm]
      exact ⟨by decide, by decide, by decide⟩
  exact ⟨hc, hg, emit_layout config group hc hg⟩

end HookEvents
