import HookEvents.Proofs.CSharp.Usings
import HookEvents.Proofs.Generation.Layout
import HookEvents.Proofs.Symbol.ClosedForm
import Mathlib.Data.List.Nodup
import Mathlib.Data.List.Pairwise

namespace HookEvents

open Text CSharp

def importLine (target : String) : String := "using " ++ target ++ ";"

def isImport (line : String) : Bool := startsWith "using " line

def aliasIn? (text : String) : Option String := (splitFirst '=' text).map fun cut => trim cut.1

def importAlias? (line : String) : Option String := (dropStart "using " line).bind aliasIn?

def unspaced (s : String) : String := String.ofList (s.toList.filter (!isBlank ·))

section Lines

theorem isImport_eq_false {line : String} (h : line.toList.head? ≠ some 'u') :
    isImport line = false := by
  rw [isImport, startsWith]
  cases hl : line.toList with
  | nil => rfl
  | cons c cs =>
    have hc : 'u' ≠ c := by
      rintro rfl
      simp [hl] at h
    simp [dropStartChars, hc]

theorem isImport_append {front : String} (hne : front ≠ "") (h : front.toList.head? ≠ some 'u')
    (rest : String) : isImport (front ++ rest) = false := by
  apply isImport_eq_false
  rw [String.toList_append, List.head?_append_of_ne_nil _ (by simpa using hne)]
  exact h

theorem isImport_indentLine {line : String} (h : isImport line = false) (width : Nat) :
    isImport (indentLine width line) = false := by
  rw [indentLine]
  split
  · decide
  · cases width with
    | zero => simpa using h
    | succ width =>
      apply isImport_append
      · simp [List.replicate_succ]
      · simp [List.replicate_succ]

theorem isImport_block {header : String} {body : List String} (hh : isImport header = false)
    (hb : ∀ line ∈ body, isImport line = false) (width : Nat) :
    ∀ line ∈ block width header body, isImport line = false :=
  forall_mem_block hh (by decide) (by decide) fun line hl => isImport_indentLine (hb line hl) width

theorem isImport_classLines (config : GeneratorConfig) (group : HookGroup) :
    ∀ line ∈ group.classLines config, isImport line = false := by
  rw [HookGroup.classLines]
  induction group.declaringType.nestingChain with
  | nil =>
    refine forall_mem_separated (by decide) ?_
    intro lines hl
    obtain ⟨method, -, rfl⟩ := List.mem_map.mp hl
    rw [eventLines_eq]
    simp only [accessorLine, String.append_assoc]
    apply isImport_block
    · exact isImport_append (by decide) (by decide) _
    · intro line hm
      simp only [List.mem_cons, List.not_mem_nil, or_false] at hm
      rcases hm with rfl | rfl <;> exact isImport_append (by decide) (by decide) _
  | cons level chain ih =>
    exact isImport_block (isImport_append (by decide) (by decide) level) ih config.indent

theorem filter_isImport_lines (config : GeneratorConfig) (group : HookGroup) :
    (group.lines config).filter isImport = group.declaringType.usings.map importLine := by
  have hheader : (if config.header then headerLines else []).filter isImport = [] := by
    split <;> decide
  have husings : group.usingLines.filter isImport = group.declaringType.usings.map importLine := by
    have hline : ∀ line ∈ group.declaringType.usings.map importLine, isImport line = true := by
      intro line hl
      obtain ⟨target, -, rfl⟩ := List.mem_map.mp hl
      rw [importLine, String.append_assoc]
      exact startsWith_append _ _
    rw [HookGroup.usingLines]
    split
    next hnil => rw [List.isEmpty_iff.mp hnil]; rfl
    next =>
      rw [List.filter_append]
      exact (List.append_nil _).trans (List.filter_eq_self.mpr hline)
  have hblock : (block config.indent ("namespace " ++ group.namespaceName)
      (group.classLines config)).filter isImport = [] := by
    apply List.filter_eq_nil_iff.mpr
    intro line hl
    rw [isImport_block (isImport_append (by decide) (by decide) _)
      (isImport_classLines config group) config.indent line hl]
    simp
  rw [HookGroup.lines, List.filter_append, List.filter_append, hheader, husings, hblock,
    List.nil_append, List.append_nil]

end Lines

section Targets

theorem aliasIn?_append {tail : String} (h : '=' ∉ tail.toList) (text : String) :
    aliasIn? (text ++ tail) = aliasIn? text := by
  by_cases hm : '=' ∈ text.toList
  · obtain ⟨before, after, hchars, hb⟩ := List.eq_append_cons_of_mem hm
    have htext : text = String.ofList before ++ "=" ++ String.ofList after := by
      rw [← String.toList_inj, hchars]
      simp
    have hbefore : '=' ∉ (String.ofList before).toList := by simpa using hb
    have hlonger : text ++ tail =
        String.ofList before ++ "=" ++ (String.ofList after ++ tail) := by
      rw [htext, String.append_assoc]
    have heq : "=".toList = ['='] := rfl
    rw [aliasIn?, aliasIn?, hlonger, htext, splitFirst_append heq hbefore,
      splitFirst_append heq hbefore]
    rfl
  · have hboth : '=' ∉ (text ++ tail).toList := by simp [hm, h]
    rw [aliasIn?, aliasIn?, splitFirst_of_not_mem hm, splitFirst_of_not_mem hboth]

theorem importAlias?_importLine (target : String) :
    importAlias? (importLine target) = aliasIn? target := by
  have hdrop : dropStart "using " (importLine target) = some (target ++ ";") :=
    dropStart_eq_some.mpr String.append_assoc
  rw [importAlias?, hdrop, Option.bind_some, aliasIn?_append (by decide)]

theorem unspaced_importLine {target other : String} :
    unspaced (importLine target) = unspaced (importLine other) ↔
      unspaced target = unspaced other := by
  simp only [unspaced, importLine, String.toList_append, List.filter_append, ← String.toList_inj,
    String.toList_ofList, List.append_left_inj, List.append_right_inj]

theorem importLine_injective : Function.Injective importLine := by
  intro target other h
  simpa [importLine] using h

end Targets

section Lists

variable {α β : Type}

theorem eq_of_nodup_filterMap {f : α → Option β} {items : List α} (h : (items.filterMap f).Nodup)
    {a b : α} (ha : a ∈ items) (hb : b ∈ items) (hsome : f a ≠ none) (heq : f a = f b) : a = b := by
  let apart (a b : α) : Prop := ∀ value, f a = some value → f b ≠ some value
  have hsymm : Std.Symm apart := ⟨fun a b hab value hb ha => hab value ha hb⟩
  have hpair : items.Pairwise apart := by
    refine (List.pairwise_filterMap.mp h).imp ?_
    intro a b hdistinct value hfa hfb
    exact hdistinct value hfa value hfb rfl
  obtain ⟨value, hv⟩ := Option.ne_none_iff_exists'.mp hsome
  by_contra hne
  exact hpair.forall ha hb hne value hv (heq ▸ hv)

theorem nodup_filterMap_iff {f : α → Option β} {items : List α} (hn : items.Nodup) :
    (items.filterMap f).Nodup ↔
      ∀ a ∈ items, ∀ b ∈ items, f a ≠ none → f a = f b → a = b := by
  constructor
  · intro h a ha b hb
    exact eq_of_nodup_filterMap h ha hb
  · intro h
    refine List.pairwise_filterMap.mpr (hn.imp_of_mem ?_)
    rintro a b ha hb hne value hv _ hv' rfl
    exact hne (h a ha b hb (by simp [hv]) (hv.trans hv'.symm))

theorem eraseDups_flatMap [BEq β] [LawfulBEq β] (f : α → List β) (items : List α) :
    (items.flatMap fun item => (f item).eraseDups).eraseDups = (items.flatMap f).eraseDups := by
  induction items with
  | nil => rfl
  | cons item items ih =>
    rw [List.flatMap_cons, List.flatMap_cons, eraseDups_eraseDups_append,
      ← eraseDups_append_eraseDups, ih, eraseDups_append_eraseDups]

end Lists

def directivesFor (trees : List Node) (name : String) : List String :=
  (declarationsOf trees name).flatMap (·.place.directives)

section Table

variable {trees : List Node}

theorem TypeSymbol.absorbAll_usings_eq_eraseDups {first : TypeSymbol} (h : first.usings.Nodup)
    (rest : List TypeSymbol) :
    (first.absorbAll rest).usings = ((first :: rest).flatMap (·.usings)).eraseDups := by
  rw [absorbAll_usings, addUsings_eq, List.flatMap_cons, List.eraseDups_append,
    eraseDups_of_nodup h]
  simp [List.removeAll]

theorem usings_of_mem_collectedIn {tree : Node} {found : Collected} (h : found ∈ collectedIn tree) :
    found.symbol.usings = found.place.directives.eraseDups :=
  (Place.symbolFrom?_eq_some (mem_collectedIn.mp h).2.2).2

theorem usings_of_mem_tableOf {symbol : TypeSymbol} (h : symbol ∈ (tableOf trees).types) :
    symbol.usings = (directivesFor trees symbol.qualifiedName).eraseDups := by
  obtain ⟨first, rest, hfilter, hentry⟩ := get?_tableOf_eq_some (TypeTable.get?_qualifiedName h)
  have hdeclared : ∀ found ∈ declarationsOf trees symbol.qualifiedName,
      found.symbol.usings = found.place.directives.eraseDups := by
    intro found hf
    obtain ⟨⟨tree, -, ht⟩, -⟩ := mem_declarationsOf.mp hf
    exact usings_of_mem_collectedIn ht
  have hfirst : first.usings.Nodup := by
    have hm : first ∈ (declarationsOf trees symbol.qualifiedName).map (·.symbol) := by
      simp [hfilter]
    obtain ⟨found, hf, rfl⟩ := List.mem_map.mp hm
    rw [hdeclared found hf]
    exact nodup_eraseDups _
  calc symbol.usings
      = (first.absorbAll rest).usings := by rw [hentry, TypeSymbol.qualifyTypes]
    _ = ((first :: rest).flatMap (·.usings)).eraseDups :=
        TypeSymbol.absorbAll_usings_eq_eraseDups hfirst rest
    _ = ((declarationsOf trees symbol.qualifiedName).flatMap (·.symbol.usings)).eraseDups := by
        rw [← hfilter, List.flatMap_map]
    _ = (directivesFor trees symbol.qualifiedName).eraseDups := by
        rw [List.flatMap_congr hdeclared, eraseDups_flatMap, directivesFor]

end Table

/-- The nodes of each scope: a namespace for the rest of a file begins another. -/
def scopeParts (tree : Node) : List (List Node) :=
  tree.nodes.flatMap fun node => node.children.splitOnP (·.kind = .fileScopedNamespace)

def AliasesValid (tree : Node) : Prop :=
  ∀ part ∈ scopeParts tree, ((directivesIn part).filterMap aliasIn?).Nodup

instance : DecidablePred AliasesValid := fun tree =>
  inferInstanceAs (Decidable (∀ part ∈ scopeParts tree,
    ((directivesIn part).filterMap aliasIn?).Nodup))

def SameScope (trees : List Node) (first second : String) : Prop :=
  ∃ tree ∈ trees, ∃ part ∈ scopeParts tree, first ∈ directivesIn part ∧ second ∈ directivesIn part

theorem SameScope.eq_of_alias {trees : List Node} (hv : ∀ tree ∈ trees, AliasesValid tree)
    {first second : String} (h : SameScope trees first second) (hsome : aliasIn? first ≠ none)
    (heq : aliasIn? first = aliasIn? second) : first = second := by
  obtain ⟨tree, ht, part, hp, hf, hs⟩ := h
  exact eq_of_nodup_filterMap (hv tree ht part hp) hf hs hsome heq

namespace HookGroup

def imports (config : GeneratorConfig) (group : HookGroup) : List String :=
  (group.lines config).filter isImport

/-- The imports of a file are the directives of all declarations of its type. An alias is defined
twice exactly if two scopes give it different meanings, and a directive repeated up to blanks
exactly if it is spelled in two ways. -/
theorem imports_clash_iff {trees : List Node} (hv : ∀ tree ∈ trees, AliasesValid tree)
    {group : HookGroup} (hg : group.declaringType ∈ (tableOf trees).types)
    (config : GeneratorConfig) :
    (group.emit config).text = String.join ((group.lines config).map (· ++ "\n")) ∧
    group.imports config =
      (directivesFor trees group.declaringType.qualifiedName).eraseDups.map importLine ∧
    (group.imports config).Nodup ∧
    (((group.imports config).filterMap importAlias?).Nodup ↔
      ∀ first ∈ directivesFor trees group.declaringType.qualifiedName,
      ∀ second ∈ directivesFor trees group.declaringType.qualifiedName,
        ¬SameScope trees first second → aliasIn? first ≠ none →
          aliasIn? first = aliasIn? second → first = second) ∧
    (((group.imports config).map unspaced).Nodup ↔
      ∀ first ∈ directivesFor trees group.declaringType.qualifiedName,
      ∀ second ∈ directivesFor trees group.declaringType.qualifiedName,
        unspaced first = unspaced second → first = second) := by
  have himports : group.imports config =
      (directivesFor trees group.declaringType.qualifiedName).eraseDups.map importLine := by
    rw [imports, filter_isImport_lines, usings_of_mem_tableOf hg]
  generalize directivesFor trees group.declaringType.qualifiedName = targets at himports ⊢
  have hnodup := nodup_eraseDups targets
  have halias : importAlias? ∘ importLine = aliasIn? := funext importAlias?_importLine
  refine ⟨rfl, himports, ?_, ?_, ?_⟩
  · rw [himports]
    exact hnodup.map importLine_injective
  · rw [himports, List.filterMap_map, halias, nodup_filterMap_iff hnodup]
    simp only [List.mem_eraseDups]
    constructor
    · intro h first hf second hs _
      exact h first hf second hs
    · intro h first hf second hs
      by_cases hscope : SameScope trees first second
      · exact hscope.eq_of_alias hv
      · exact h first hf second hs hscope
  · rw [himports, List.map_map, List.nodup_map_iff_inj_on hnodup]
    simp only [List.mem_eraseDups, Function.comp_apply, unspaced_importLine]

def importingPart (directives : List String) : Node :=
  .mk .compilationUnit none ""
    (directives.map (.mk .usingDirective none · []) ++ [sampleType "T" [] []])

def agreeingParts : List Node :=
  [importingPart ["using A = X.B;", "using System.IO;"],
    importingPart ["using System.IO;", "using C = X.B;"]]

def clashingParts : List Node :=
  [importingPart ["using A = X.B;", "using System.IO;"],
    importingPart ["using A = Y.B;", "using System . IO;"]]

def groupFor (symbol : TypeSymbol) : HookGroup := { kind := .subscribe, declaringType := symbol }

theorem imports_clash_iff_agreeing :
    (∀ tree ∈ agreeingParts, AliasesValid tree) ∧
    ∃ symbol ∈ (tableOf agreeingParts).types,
      (groupFor symbol).imports {} = ["A = X.B", "System.IO", "C = X.B"].map importLine ∧
      (((groupFor symbol).imports {}).filterMap importAlias?).Nodup ∧
      (((groupFor symbol).imports {}).map unspaced).Nodup := by
  have hvalid : ∀ tree ∈ agreeingParts, AliasesValid tree := by decide +kernel
  have hsymbol : ∃ symbol ∈ (tableOf agreeingParts).types, symbol.qualifiedName = "T" := by
    decide +kernel
  have hdirectives :
      directivesFor agreeingParts "T" = ["A = X.B", "System.IO", "System.IO", "C = X.B"] := by
    decide +kernel
  have hdistinct : ∀ first ∈ directivesFor agreeingParts "T",
      ∀ second ∈ directivesFor agreeingParts "T",
        (aliasIn? first ≠ none → aliasIn? first = aliasIn? second → first = second) ∧
        (unspaced first = unspaced second → first = second) := by
    rw [hdirectives]
    decide +kernel
  obtain ⟨symbol, hs, hname⟩ := hsymbol
  have hgroup : (groupFor symbol).declaringType ∈ (tableOf agreeingParts).types := hs
  have hgroupName : (groupFor symbol).declaringType.qualifiedName = "T" := hname
  obtain ⟨-, himports, -, halias, hspace⟩ := imports_clash_iff hvalid hgroup {}
  rw [hgroupName] at himports halias hspace
  refine ⟨hvalid, symbol, hs, ?_, halias.mpr ?_, hspace.mpr ?_⟩
  · rw [himports, hdirectives]
    rfl
  · intro first hf second hs _
    exact (hdistinct first hf second hs).1
  · intro first hf second hs
    exact (hdistinct first hf second hs).2

/-- Two parts of a type may give an alias two meanings, and spell one directive in two ways. -/
theorem imports_of_parts_clash :
    (∀ tree ∈ clashingParts, AliasesValid tree) ∧
    (tableOf clashingParts).types.map (fun symbol => (groupFor symbol).imports {}) =
      [["using A = X.B;", "using System.IO;", "using A = Y.B;", "using System . IO;"]] ∧
    importAlias? "using A = X.B;" = importAlias? "using A = Y.B;" ∧
    unspaced "using System.IO;" = unspaced "using System . IO;" := by
  decide +kernel

end HookGroup

end HookEvents
