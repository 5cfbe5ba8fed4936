import HookEvents.CSharp.Types
import HookEvents.Proofs.CSharp.SpacedPath

/-!
Files with one namespace, a class in it, and a method in the class that takes nothing and returns
nothing.
-/
namespace HookEvents.CSharp

open Text TokenTree

theorem gap_space : ∀ c ∈ " ".toList, isGap c = true := by
  have hspace : isGap ' ' = true := by decide
  simpa using hspace

def wordTree (leading text : String) : TokenTree := .leaf ⟨.word, leading, text⟩

def parentheses : TokenTree := .group ⟨.opening, "", "("⟩ [] (some ⟨.closing, "", ")"⟩)

def braces (inner : List TokenTree) : TokenTree :=
  .group ⟨.opening, " ", String.singleton '{'⟩ inner (some ⟨.closing, " ", String.singleton '}'⟩)

section Trees

variable (leading text symbol : String)

@[simp] theorem isSymbol_wordTree : (wordTree leading text).isSymbol symbol = false := by
  simp [wordTree, isSymbol]

@[simp] theorem isWord_wordTree :
    (wordTree leading text).isWord symbol = decide (text = symbol) := by
  simp [wordTree, isWord]

@[simp] theorem word?_wordTree : (wordTree leading text).word? = some text := rfl

@[simp] theorem isName_wordTree : (wordTree leading text).isName = true := rfl

@[simp] theorem isGroup_wordTree : (wordTree leading text).isGroup symbol = false := rfl

@[simp] theorem isDirective_wordTree : (wordTree leading text).isDirective = false := rfl

@[simp] theorem isTypeSuffix_wordTree : isTypeSuffix (wordTree leading text) = false := rfl

@[simp] theorem isBody_braces (inner : List TokenTree) : isBody (braces inner) = true := rfl

@[simp] theorem isSymbol_parentheses : parentheses.isSymbol symbol = false := rfl

@[simp] theorem isGroup_parentheses : parentheses.isGroup symbol = decide ("(" = symbol) := rfl

end Trees

theorem consumed_nil (start : List TokenTree) : consumed start [] = start := by
  simp [consumed]

section Reading

variable {fuel : Nat} {inType : Bool} {rest : List TokenTree}

theorem declarations_word (leading text : String) :
    declarations (fuel + 1) inType (wordTree leading text :: rest) =
      (declaration fuel inType (wordTree leading text :: rest)).1 ::
        declarations fuel inType (declaration fuel inType (wordTree leading text :: rest)).2 := by
  simp [declarations, isDirectiveNamed, isGlobalAttribute, wordTree, isDirective, isSymbol]

theorem takeHeader_word {text : String} (h : text ∈ ["namespace", "class", "void"])
    (leading : String) :
    takeHeader (fuel + 1) inType false (wordTree leading text :: rest) =
      ([], wordTree leading text :: rest) := by
  have hm : isModifier inType text rest = false := by
    simp only [List.mem_cons, List.not_mem_nil, or_false] at h
    rcases h with rfl | rfl | rfl <;> rfl
  simp [takeHeader, hm]

theorem declaration_namespace (leading : String) :
    declaration (fuel + 2) false (wordTree leading "namespace" :: rest) =
      namespaceDeclaration (fuel + 1) rest := by
  cases rest with
  | nil => simp [declaration, takeHeader_word, takeTypeKeyword]
  | cons next rest => simp [declaration, takeHeader_word, takeTypeKeyword]

theorem declaration_class (leading : String) (name : TokenTree) :
    declaration (fuel + 2) inType (wordTree leading "class" :: name :: rest) =
      typeDeclaration (fuel + 1) [] [wordTree leading "class"] (name :: rest) := by
  simp [declaration, takeHeader_word, takeTypeKeyword]

theorem declaration_void (leading : String) :
    declaration (fuel + 2) true (wordTree leading "void" :: rest) =
      memberNode (fuel + 1) [] (wordTree leading "void" :: rest) := by
  cases rest with
  | nil => simp [declaration, takeHeader_word, takeTypeKeyword]
  | cons next rest => simp [declaration, takeHeader_word, takeTypeKeyword]

end Reading

section Method

def methodTrees (method : Identifier) : List TokenTree :=
  [wordTree " " "void", wordTree " " method.text, parentheses, braces []]

variable (method : Identifier) (fuel : Nat)

theorem codeNodes_nil : codeNodes fuel [] = [] := by
  cases fuel <;> rfl

theorem codeNodes_braces :
    codeNodes (fuel + 2) [braces []] = [.mk .other none (sourceText [braces []]) []] := by
  simp [codeNodes, braces, isHeaderWord, word?, isSymbol, takeOperand, treeNode, codeNodes_nil]

theorem sourceText_word (leading text : String) : sourceText [wordTree leading text] = text := by
  simp [sourceText, tokensOf, tokensOfAllBefore, tokensBefore, wordTree]

theorem plainText_nameNode (leading : String) :
    plainText (nameNode (wordTree leading method.text)) = method.text := by
  have htext : (nameNode (wordTree leading method.text)).text = method.text :=
    sourceText_word leading method.text
  rw [plainText, htext, collapse_of_not_blank method.not_blank]

def methodNode : Node :=
  .mk .methodDeclaration none (sourceText (methodTrees method))
    [typeNode .returns [wordTree " " "void"], nameNode (wordTree " " method.text),
      .mk .parameterList (some .parameters) (sourceText [parentheses]) [],
      .mk .other none (sourceText [braces []]) []]

theorem memberNode_method :
    memberNode (fuel + 2) [] (methodTrees method) = (methodNode method, []) := by
  have hthis : method.text ≠ "this" := method.ne_of_reserved (by decide)
  have hoperator : method.text ≠ "operator" := method.ne_of_reserved (by decide)
  have htype : takeType (fuel + 2) (methodTrees method) =
      some ([wordTree " " "void"], [wordTree " " method.text, parentheses, braces []]) := by
    simp [methodTrees, takeType, typeModifiers, reservedWords, takePath, withSuffixes]
  -- no dot follows the name, which would make it the qualifier of an explicit implementation
  have hqualifier : takeQualifier (fuel + 2) [wordTree " " method.text, parentheses, braces []] =
      ([], [wordTree " " method.text, parentheses, braces []]) := by
    simp [takeQualifier]
  have hparameters : parameterListNode (fuel + 2) parentheses =
      .mk .parameterList (some .parameters) (sourceText [parentheses]) [] := rfl
  rw [methodTrees] at htype ⊢
  simp [memberNode, htype, typedMember, hqualifier, hthis, hoperator, takeTypeParameters,
    takeMember, hparameters, codeNodes_braces, methodNode, methodTrees, consumed_nil]

theorem membersOf_methodNode :
    membersOf (methodNode method) = [.method { name := method.text }] := by
  have hname : textFor? (methodNode method) .name = some method.text := by
    have hchild : (methodNode method).childFor? .name =
        some (nameNode (wordTree " " method.text)) := rfl
    simp [textFor?, hchild, plainText_nameNode, method.ne_empty]
  have hresult : textFor? (methodNode method) .returns = some "void" := by
    have hchild : (methodNode method).childFor? .returns =
        some (typeNode .returns [wordTree " " "void"]) := rfl
    have hvoid : plainText (typeNode .returns [wordTree " " "void"]) = "void" := by decide +kernel
    simp [textFor?, hchild, hvoid]
  have hvoid : Method.returnTypeOf "void" = none := by decide +kernel
  have hmethod : method? (methodNode method) = some { name := method.text } := by
    rw [method?, hname, hresult, Option.some_or, Option.getD_some, Option.map_some]
    simp only [Method.withReturnType, hvoid]
    rfl
  have hkind : (methodNode method).kind = .methodDeclaration := rfl
  rw [membersOf, hkind, hmethod]
  rfl

theorem declarations_method :
    declarations (fuel + 4) true (methodTrees method) = [methodNode method] := by
  have hmember := memberNode_method method fuel
  rw [methodTrees] at hmember ⊢
  rw [declarations_word, declaration_void, hmember]
  rfl

end Method

section Class

variable (type method : Identifier) (fuel : Nat)

def classTrees : List TokenTree :=
  [wordTree " " "class", wordTree " " type.text, braces (methodTrees method)]

def classNode : Node :=
  .mk .typeDeclaration none (sourceText (classTrees type method))
    [.mk .other none "class" [], nameNode (wordTree " " type.text),
      .mk .declarationList (some .body) (sourceText [braces (methodTrees method)])
        [methodNode method]]

theorem typeDeclaration_class :
    typeDeclaration (fuel + 5) [] [wordTree " " "class"]
        [wordTree " " type.text, braces (methodTrees method)] = (classNode type method, []) := by
  have hbody := declarations_method method fuel
  have hkeyword : treeNode (fuel + 4) (wordTree " " "class") = .mk .other none "class" [] := by
    simp [wordTree, treeNode, leafNode, reservedWords]
  rw [classNode, ← hbody, typeDeclaration]
  simp [takeTypeParameters, hkeyword, codeNodes_nil, classTrees, consumed_nil, braces, isBody,
    isGroup, isSymbol]

def classSymbol (name : String) : TypeSymbol :=
  TypeSymbol.inNamespace
    { name := type.text
      members := [.method { name := method.text }] } name

theorem typesOf_classNode (outer : Option String) (name : String) :
    typesOf ⟨outer, some name, [], []⟩ (classNode type method) =
      [classSymbol type method name] := by
  have hname : (classNode type method).childFor? .name =
      some (nameNode (wordTree " " type.text)) := rfl
  have hbody : body? (classNode type method) = some
      (.mk .declarationList (some .body) (sourceText [braces (methodTrees method)])
        [methodNode method]) := rfl
  have hparameters : typeParametersOf (classNode type method) = [] := rfl
  have hsymbol : symbolOf ⟨outer, some name, [], []⟩ type.text (classNode type method) =
      classSymbol type method name := by
    rw [symbolOf, hbody, hparameters]
    simp [Node.children, membersOf_methodNode, classSymbol, TypeSymbol.inNamespace,
      TypeSymbol.nestedIn, TypeSymbol.withTypeParameters, TypeSymbol.withUsings]
  rw [classNode] at hname hsymbol ⊢
  rw [typesOf.eq_def]
  dsimp only
  rw [hname]
  dsimp only
  rw [plainText_nameNode, hsymbol]
  simp [nestedInBody, isBodyAmong, nestedWithin, nestedIn, nameNode, plainNode, Node.withRole,
    Node.role, methodNode, Node.kind]

theorem typesIn_class (outer : Option String) (name : String) :
    typesIn ⟨outer, some name, [], []⟩ (declarations (fuel + 8) false (classTrees type method)) =
      [classSymbol type method name] := by
  have hclass := typeDeclaration_class type method (fuel + 1)
  rw [classTrees, declarations_word, declaration_class, hclass]
  simp [typesIn, typesOf_classNode, declarations]

def bracesText (inner : String) : String :=
  " " ++ String.singleton '{' ++ inner ++ " " ++ String.singleton '}'

def classText : String :=
  "class " ++ type.text ++ bracesText (" void " ++ method.text ++ "()" ++ bracesText "")

theorem spelled_class (rest : List Token) :
    spelled (tokensOfAllBefore (classTrees type method) rest) =
      " " ++ classText type method ++ spelled rest := by
  rw [← String.toList_inj]
  simp [classText, bracesText, spelled, tokensOfAllBefore, tokensBefore, classTrees, methodTrees,
    wordTree, parentheses, braces]

theorem allPaired_class : AllPaired (classTrees type method) := by
  simp [classTrees, methodTrees, wordTree, parentheses, braces, AllPaired, Paired]

theorem readable_class {rest : List Token} (h : Readable rest) :
    Readable (tokensOfAllBefore (classTrees type method) rest) := by
  have hnone : ∀ c ∈ "".toList, isGap c = true := by simp
  have hends {token : Token} (ht : token.leading = " ") (tokens : List Token) :
      EndsWord (spelled (token :: tokens)).toList := by
    have hone : token.leading.toList = [' '] := by simp [ht]
    exact endsWord_leading hone (gap_space ' ' (by simp)) tokens
  exact ⟨gap_space, .word (by decide +kernel) (hends rfl _),
    gap_space, .word type.isWord (hends rfl _),
    gap_space, .opening rfl (Or.inr rfl),
    gap_space, .word (by decide +kernel) (hends rfl _),
    gap_space, .word method.isWord (endsWord_mark hnone rfl (by decide) _),
    hnone, .opening rfl (Or.inl rfl),
    hnone, .closing rfl (Or.inl rfl),
    gap_space, .opening rfl (Or.inr rfl),
    gap_space, .closing rfl (Or.inr rfl),
    gap_space, .closing rfl (Or.inr rfl), h⟩

end Class

section Namespace

def PathStep.trees (step : PathStep) : List TokenTree :=
  [.leaf ⟨.symbol, step.before.text, "."⟩, wordTree step.after.text step.name.text]

def SpacedPath.trees (path : SpacedPath) : List TokenTree :=
  wordTree " " path.first.text :: path.steps.flatMap PathStep.trees

variable (path : SpacedPath) (type method : Identifier) (fuel : Nat)

theorem SpacedPath.plain_of_mem_trees {tree : TokenTree} (h : tree ∈ path.trees) :
    (!(isBody tree || tree.isSymbol ";")) = true := by
  rcases List.mem_cons.mp h with rfl | h
  · simp [isBody]
  · obtain ⟨step, -, h⟩ := List.mem_flatMap.mp h
    simp only [PathStep.trees, List.mem_cons, List.not_mem_nil, or_false] at h
    rcases h with rfl | rfl
    · simp [isBody, isGroup, isSymbol]
    · simp [isBody]

theorem spelled_steps (steps : List PathStep) (rest : List Token) :
    spelled (tokensOfAllBefore (steps.flatMap PathStep.trees) rest) =
      String.join (steps.map PathStep.text) ++ spelled rest := by
  induction steps with
  | nil => simp [tokensOfAllBefore]
  | cons step steps ih =>
    rw [spelled] at ih
    simp [PathStep.trees, wordTree, tokensOfAllBefore, tokensBefore, spelled, PathStep.text, ih,
      String.append_assoc]

theorem PathStep.name_follows (step : PathStep) (rest : List Char) :
    ∀ c ∈ (step.after.text.toList ++ (step.name.text.toList ++ rest)).head?,
      c ≠ '.' ∧ c.isDigit = false := by
  have hrange {c : Char} (h : c.toNat < 0x2E ∨ 0x3A ≤ c.toNat) : c ≠ '.' ∧ c.isDigit = false := by
    constructor
    · rintro rfl
      exact absurd h (by decide)
    · rw [Bool.eq_false_iff]
      intro hdigit
      have hbounds := toNat_of_isDigit hdigit
      omega
  intro c hc
  cases hafter : step.after.text.toList with
  | nil =>
    obtain ⟨first, more, hname, hfirst, -⟩ := step.name.isWord
    rw [hafter, hname] at hc
    obtain rfl := Option.some.inj hc
    exact hrange (Or.inr (Nat.le_trans (by decide) (of_isWordStart hfirst).2))
  | cons d more =>
    rw [hafter] at hc
    obtain rfl := Option.some.inj hc
    have hgap := toNat_of_isGap (step.after.gap d (by simp [hafter]))
    exact hrange (by omega)

theorem readable_steps (steps : List PathStep) {rest : List Token} (h : Readable rest)
    (he : EndsWord (spelled rest).toList) :
    Readable (tokensOfAllBefore (steps.flatMap PathStep.trees) rest) ∧
      EndsWord (spelled (tokensOfAllBefore (steps.flatMap PathStep.trees) rest)).toList := by
  induction steps with
  | nil => exact ⟨h, he⟩
  | cons step steps ih =>
    obtain ⟨hreadable, hends⟩ := ih
    generalize hmore : tokensOfAllBefore (steps.flatMap PathStep.trees) rest = more
      at hreadable hends
    have htokens : tokensOfAllBefore ((step :: steps).flatMap PathStep.trees) rest =
        ⟨.symbol, step.before.text, "."⟩ :: ⟨.word, step.after.text, step.name.text⟩ :: more := by
      rw [← hmore]
      rfl
    rw [htokens]
    constructor
    · refine ⟨step.before.gap, .symbol rfl (Or.inl rfl) fun _ => ?_, step.after.gap,
        .word step.name.isWord hends, hreadable⟩
      rw [toList_spelled_cons]
      exact step.name_follows _
    · have hdot : ".".toList = ['.'] := rfl
      exact endsWord_mark step.before.gap hdot (by decide) _

theorem allPaired_steps (steps : List PathStep) {rest : List TokenTree} (h : AllPaired rest) :
    AllPaired (steps.flatMap PathStep.trees ++ rest) := by
  induction steps with
  | nil => exact h
  | cons step steps ih => exact ⟨⟨nofun, nofun⟩, ⟨nofun, nofun⟩, ih⟩

theorem SpacedPath.sourceText_trees : sourceText path.trees = path.text := by
  have htokens : tokensOf path.trees = ⟨.word, " ", path.first.text⟩ ::
      tokensOfAllBefore (path.steps.flatMap PathStep.trees) [] := rfl
  have hsteps := spelled_steps path.steps []
  rw [spelled, spelled, List.map_nil, String.join_nil, String.append_empty] at hsteps
  rw [sourceText, htokens]
  dsimp only
  rw [String.join_cons, hsteps, text]

theorem takeWhile_trees {tree : TokenTree} (rest : List TokenTree)
    (h : (!(isBody tree || tree.isSymbol ";")) = false) :
    (path.trees ++ tree :: rest).takeWhile (fun tree => !(isBody tree || tree.isSymbol ";")) =
      path.trees := by
  rw [List.takeWhile_append_of_pos fun tree ht => path.plain_of_mem_trees ht,
    List.takeWhile_cons_of_neg (by simp [h]), List.append_nil]

def SpacedPath.node : Node := .mk .qualifiedName (some .name) path.text []

theorem namespaceDeclaration_braces (inner : List TokenTree) :
    namespaceDeclaration (fuel + 1) (path.trees ++ [braces inner]) =
      (.mk .namespaceDeclaration none (sourceText (path.trees ++ [braces inner]))
        [path.node, .mk .declarationList (some .body) (sourceText [braces inner])
          (declarations fuel false inner)], []) := by
  have hname : (path.trees ++ [braces inner]).takeWhile
      (fun tree => !(isBody tree || tree.isSymbol ";")) = path.trees := takeWhile_trees path [] rfl
  rw [namespaceDeclaration, hname]
  dsimp only
  rw [List.drop_left, braces]
  simp [plainNode, path.sourceText_trees, SpacedPath.node, Node.withRole, consumed_nil]

theorem namespaceDeclaration_semicolon (rest : List TokenTree) :
    namespaceDeclaration (fuel + 1) (path.trees ++ .leaf ⟨.symbol, "", ";"⟩ :: rest) =
      (.mk .fileScopedNamespace none path.text [path.node], rest) := by
  have hname : (path.trees ++ .leaf ⟨.symbol, "", ";"⟩ :: rest).takeWhile
      (fun tree => !(isBody tree || tree.isSymbol ";")) = path.trees :=
    takeWhile_trees path rest rfl
  rw [namespaceDeclaration, hname]
  dsimp only
  rw [List.drop_left]
  simp [plainNode, path.sourceText_trees, SpacedPath.node, Node.withRole]

theorem namespaceIn?_node (kind : NodeKind) (text : String) (children : List Node) :
    namespaceIn? none (.mk kind none text (path.node :: children)) = some (collapse path.text) := by
  have hchild : (Node.mk kind none text (path.node :: children)).childFor? .name =
      some path.node := rfl
  have htext : plainText path.node = collapse path.text := rfl
  simp [namespaceIn?, textFor?, hchild, htext, path.collapse_text_ne_empty, TypeSymbol.qualifyIn]

theorem typesOf_braces (text body : String) (nodes : List Node) :
    typesOf ⟨none, none, [], []⟩ (.mk .namespaceDeclaration none text
        [path.node, .mk .declarationList (some .body) body nodes]) =
      typesIn ⟨some (collapse path.text), some (collapse path.text), [], []⟩ nodes := by
  rw [typesOf.eq_def]
  dsimp only
  rw [namespaceIn?_node]
  simp [typesInBody, isBodyAmong, SpacedPath.node, Node.role, typesWithin, Scope.inNamespace]

theorem typesOf_semicolon (text : String) :
    typesOf ⟨none, none, [], []⟩ (.mk .fileScopedNamespace none text [path.node]) = [] ∧
      Scope.after ⟨none, none, [], []⟩ (.mk .fileScopedNamespace none text [path.node]) =
        ⟨none, some (collapse path.text), [], []⟩ := by
  constructor
  · rw [typesOf.eq_def]
    dsimp only
    rw [namespaceIn?_node]
    simp [typesIn, typesOf, SpacedPath.node]
  · rw [Scope.after]
    simp [Node.kind, namespaceIn?_node]

end Namespace

inductive NamespaceForm where
  | braced
  | fileScoped

namespace NamespaceForm

variable (form : NamespaceForm) (space : SpacedPath) (type method : Identifier)

def source : String :=
  match form with
  | .braced => "namespace " ++ space.text ++ bracesText (" " ++ classText type method)
  | .fileScoped => "namespace " ++ space.text ++ "; " ++ classText type method

def body : List TokenTree :=
  match form with
  | .braced => [braces (classTrees type method)]
  | .fileScoped => .leaf ⟨.symbol, "", ";"⟩ :: classTrees type method

def trees : List TokenTree := wordTree "" "namespace" :: (space.trees ++ form.body type method)

theorem typesIn_trees (fuel : Nat) :
    typesIn ⟨none, none, [], []⟩ (declarations (fuel + 12) false (form.trees space type method)) =
      [classSymbol type method (collapse space.text)] := by
  cases form with
  | braced =>
    rw [trees, body, declarations_word, declaration_namespace, namespaceDeclaration_braces, typesIn,
      typesOf_braces, typesIn_class]
    simp [declarations, typesIn]
  | fileScoped =>
    have htypes := typesOf_semicolon space space.text
    rw [trees, body, declarations_word, declaration_namespace, namespaceDeclaration_semicolon,
      typesIn, htypes.1, htypes.2, typesIn_class, List.nil_append]

theorem tokensOf_trees : tokensOf (form.trees space type method) =
    ⟨.word, "", "namespace"⟩ :: ⟨.word, " ", space.first.text⟩ ::
      tokensOfAllBefore (space.steps.flatMap PathStep.trees) (tokensOf (form.body type method)) := by
  rw [tokensOf, trees, tokensOfAllBefore, SpacedPath.trees, List.cons_append, tokensOfAllBefore,
    tokensOfAllBefore_append]
  rfl

theorem spelled_body : "namespace " ++ space.text ++ spelled (tokensOf (form.body type method)) =
    form.source space type method := by
  have hclass := spelled_class type method
  cases form with
  | braced =>
    have hbody : spelled (tokensOf [braces (classTrees type method)]) =
        " " ++ String.singleton '{' ++ spelled (tokensOfAllBefore (classTrees type method)
          [⟨.closing, " ", String.singleton '}'⟩]) := rfl
    rw [body, hbody, hclass, source, ← String.toList_inj]
    simp [bracesText, spelled]
  | fileScoped =>
    have hbody : spelled (tokensOf (.leaf ⟨.symbol, "", ";"⟩ :: classTrees type method)) =
        ";" ++ spelled (tokensOfAllBefore (classTrees type method) []) := rfl
    rw [body, hbody, hclass, source, ← String.toList_inj]
    simp [spelled]

theorem spelled_trees :
    spelled (tokensOf (form.trees space type method)) = form.source space type method := by
  have hsteps := spelled_steps space.steps (tokensOf (form.body type method))
  rw [tokensOf_trees, ← spelled_body, ← String.toList_inj, toList_spelled_cons, toList_spelled_cons,
    hsteps]
  simp [SpacedPath.text]

theorem readable_body : Readable (tokensOf (form.body type method)) ∧
    EndsWord (spelled (tokensOf (form.body type method))).toList := by
  have hnone : ∀ c ∈ "".toList, isGap c = true := by simp
  cases form with
  | braced =>
    refine ⟨⟨gap_space, .opening rfl (Or.inr rfl), ?_⟩, endsWord_mark gap_space rfl (by decide) _⟩
    apply readable_class
    exact ⟨gap_space, .closing rfl (Or.inr rfl), trivial⟩
  | fileScoped =>
    refine ⟨⟨hnone, .symbol rfl (Or.inr rfl) ?_, ?_⟩, endsWord_mark hnone rfl (by decide) _⟩
    · intro hdot
      exact absurd hdot (by decide)
    · exact readable_class type method trivial

theorem readable_trees : Readable (tokensOf (form.trees space type method)) := by
  obtain ⟨hbody, hends⟩ := form.readable_body type method
  obtain ⟨hsteps, hends⟩ := readable_steps space.steps hbody hends
  have hone : " ".toList = [' '] := rfl
  rw [tokensOf_trees]
  exact ⟨by simp, .word (by decide +kernel) (endsWord_leading hone (gap_space ' ' (by simp)) _),
    gap_space, .word space.first.isWord hends, hsteps⟩

theorem allPaired_trees : AllPaired (form.trees space type method) := by
  have hbody : AllPaired (form.body type method) := by
    have hclass := allPaired_class type method
    cases form with
    | braced => exact ⟨⟨rfl, ⟨_, rfl, rfl⟩, hclass⟩, trivial⟩
    | fileScoped => exact ⟨⟨nofun, nofun⟩, hclass⟩
  exact ⟨⟨nofun, nofun⟩, ⟨nofun, nofun⟩, allPaired_steps space.steps hbody⟩

theorem collectTypes_parse : collectTypes (parse (form.source space type method)) =
    [classSymbol type method (collapse space.text)] := by
  have htokens := tokenize_spelled (form.readable_trees space type method)
  rw [spelled_trees] at htokens
  have htrees := ofTokens_tokensOf (form.allPaired_trees space type method)
  rw [parse, collectTypes, htokens, htrees]
  -- four times the number of tokens and sixteen is more than the nesting of the file takes
  exact form.typesIn_trees space type method _

end NamespaceForm

end HookEvents.CSharp
