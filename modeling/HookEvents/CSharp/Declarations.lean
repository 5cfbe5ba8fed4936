import HookEvents.CSharp.Code

namespace HookEvents.CSharp

open TokenTree

def codeNode (fuel : Nat) (kind : NodeKind) (trees : List TokenTree) : Node :=
  .mk kind none (sourceText trees) (codeNodes fuel trees)

def plainNode (kind : NodeKind) (trees : List TokenTree) : Node :=
  .mk kind none (sourceText trees) []

def isBody (tree : TokenTree) : Bool := tree.isGroup (String.singleton '{')

def takeThrough (last : TokenTree → Bool) : List TokenTree → Taken
  | [] => ([], [])
  | tree :: rest =>
    if last tree then ([tree], rest)
    else
      let (taken, rest) := takeThrough last rest
      (tree :: taken, rest)

def takeLine (trees : List TokenTree) : Taken := takeThrough (isSymbol ";") trees

/-- Through the body in braces, the expression body or the semicolon that ends a member. -/
def takeMember : List TokenTree → Taken
  | [] => ([], [])
  | tree :: rest =>
    if isBody tree || tree.isSymbol ";" then ([tree], rest)
    else
      let (taken, rest) := if tree.isSymbol "=>" then takeLine rest else takeMember rest
      (tree :: taken, rest)

def takeStatement (trees : List TokenTree) : Taken :=
  takeThrough (fun tree => isBody tree || tree.isSymbol ";") trees

/-- The trees of a conditional block through the directive that ends it, inside `depth` others. -/
def takeConditional (depth : Nat) : List TokenTree → Taken
  | [] => ([], [])
  | tree :: rest =>
    if tree.isDirectiveNamed "endif" && depth ≤ 1 then ([tree], rest)
    else
      let depth :=
        if tree.isDirectiveNamed "if" then depth + 1
        else if tree.isDirectiveNamed "endif" then depth - 1
        else depth
      let (taken, rest) := takeConditional depth rest
      (tree :: taken, rest)

def plainModifiers : List String :=
  ["abstract", "const", "extern", "internal", "override", "private", "protected", "public",
    "readonly", "sealed", "static", "unsafe", "virtual", "volatile"]

def contextualModifiers : List String := ["async", "file", "partial", "required"]

def isModifier (inType : Bool) (word : String) (rest : List TokenTree) : Bool :=
  if plainModifiers.contains word then true
  else if contextualModifiers.contains word then
    match rest with
    | next :: after :: _ =>
      next.isName || (next.isGroup "(" && (after.isName || isTypeSuffix after))
    | [next] => next.isName
    | [] => false
  else if word = "new" then inType
  else if word = "fixed" then inType && !rest.head?.any (isGroup "(")
  else if word = "ref" then
    ((rest.dropWhile (isWord "partial")).head?.map (isWord "struct")).getD false
  else false

def isGlobalAttribute : TokenTree → Bool
  | .group opening (target :: mark :: _) _ =>
    opening.text = "[" && (target.isWord "assembly" || target.isWord "module") && mark.isSymbol ":"
  | _ => false

def takeHeader : Nat → Bool → Bool → List TokenTree → List Node × List TokenTree
  | 0, _, _, trees => ([], trees)
  | _ + 1, _, _, [] => ([], [])
  | fuel + 1, inType, started, tree :: rest =>
    let continueWith (node : Node) (rest : List TokenTree) : List Node × List TokenTree :=
      let (nodes, rest) := takeHeader fuel inType true rest
      (node :: nodes, rest)
    if tree.isGroup "[" then continueWith (treeNode fuel tree) rest
    else if started && tree.isDirectiveNamed "if" then
      let (block, rest) := takeConditional 0 (tree :: rest)
      continueWith (codeNode fuel .conditional block) rest
    else match tree.word? with
      | some word =>
        if isModifier inType word rest then continueWith (plainNode .modifier [tree]) rest
        else ([], tree :: rest)
      | none => ([], tree :: rest)

def nameNode (tree : TokenTree) : Node := (plainNode .identifier [tree]).withRole .name

def typeNode (role : Role) (type : List TokenTree) : Node :=
  (plainNode .other type).withRole role

def typeParameterNode (fuel : Nat) (trees : List TokenTree) : Node :=
  let before := trees.takeWhile fun tree => tree.isGroup "[" || tree.isWord "in" || tree.isWord "out"
  let rest := trees.drop before.length
  .mk .typeParameter none (sourceText trees)
    (before.map (treeNode fuel) ++ (rest.take 1).map nameNode ++ codeNodes fuel (rest.drop 1))

def takeTypeParameters (fuel : Nat) (trees : List TokenTree) : List Node × List TokenTree :=
  match trees with
  | mark :: rest =>
    if mark.isSymbol "<" then
      let (taken, after) := takeAngles 1 rest
      let parts := commaParts fuel taken.dropLast
      ([.mk .typeParameterList (some .typeParameters) (sourceText (mark :: taken))
        (parts.map (typeParameterNode fuel))], after)
    else ([], trees)
  | [] => ([], [])

def parameterModifiers : List String := ["this", "ref", "out", "in", "params", "readonly"]

def takeParameterModifiers (fuel : Nat) : List TokenTree → Taken
  | [] => ([], [])
  | tree :: rest =>
    let isScoped := tree.isWord "scoped" &&
      ((takeType fuel rest).map fun (_, rest) => rest.head?.any isName).getD false
    if isScoped || tree.word?.any parameterModifiers.contains then
      let (taken, rest) := takeParameterModifiers fuel rest
      (tree :: taken, rest)
    else ([], tree :: rest)

/-- The nodes of one parameter. The parts of a parameter array stand in the list by themselves. -/
def parameterNodes (fuel : Nat) (trees : List TokenTree) : List Node :=
  let attributes := trees.takeWhile (isGroup "[")
  let (modifiers, rest) := takeParameterModifiers fuel (trees.drop attributes.length)
  match takeType fuel rest with
  | none => [codeNode fuel .other trees]
  | some (type, rest) =>
    let name := rest.take 1
    let nodes := attributes.map (treeNode fuel) ++ modifiers.map (fun m => plainNode .modifier [m]) ++
      typeNode .type type :: name.map nameNode ++ codeNodes fuel (rest.drop 1)
    if modifiers.any (isWord "params") || (name.isEmpty && trees.any (isWord "__arglist")) then nodes
    else [.mk .parameter none (sourceText trees) nodes]

def parameterListNode (fuel : Nat) (tree : TokenTree) : Node :=
  let inner := match tree with
    | .group _ inner _ => inner
    | .leaf _ => []
  .mk .parameterList (some .parameters) (sourceText [tree])
    ((commaParts fuel inner).map (parameterNodes fuel)).flatten

def takeQualifier : Nat → List TokenTree → Taken
  | 0, trees => ([], trees)
  | fuel + 1, trees =>
    match trees with
    | name :: rest =>
      if name.isName then
        let (arguments, rest) :=
          if rest.head?.any (isSymbol "<") then
            let (taken, rest) := takeAngles 0 rest
            (taken, rest)
          else ([], rest)
        match rest with
        | dot :: rest =>
          if dot.isSymbol "." || dot.isSymbol "::" then
            let (taken, rest) := takeQualifier fuel rest
            (name :: arguments ++ dot :: taken, rest)
          else ([], trees)
        | [] => ([], trees)
      else ([], trees)
    | [] => ([], [])

def declaratorNode (fuel : Nat) (trees : List TokenTree) : Node :=
  .mk .variableDeclarator none (sourceText trees)
    ((trees.take 1).map nameNode ++ codeNodes fuel (trees.drop 1))

def variablesNode (fuel : Nat) (type trees : List TokenTree) : Node :=
  .mk .variableDeclaration none (sourceText (type ++ trees))
    (typeNode .type type :: (commaParts fuel trees).map (declaratorNode fuel))

abbrev Declared := Node × List TokenTree

/-- The trees of `start` that are no longer in `rest`. -/
def consumed (start rest : List TokenTree) : List TokenTree :=
  start.take (start.length - rest.length)

def fieldsNode (fuel : Nat) (kind : NodeKind) (header : List Node) (type trees : List TokenTree) :
    Declared :=
  let (line, rest) := takeLine trees
  let declared := line.filter fun tree => !tree.isSymbol ";"
  (.mk kind none (sourceText (type ++ line)) (header ++ [variablesNode fuel type declared]), rest)

def accessorsNode (fuel : Nat) (kind : NodeKind) (parts : List Node) (trees : List TokenTree) :
    Declared :=
  let (body, rest) := takeMember trees
  let (value, rest) :=
    if rest.head?.any (isSymbol "=") && kind = .propertyDeclaration then takeLine rest else ([], rest)
  (.mk kind none (sourceText (body ++ value)) (parts ++ codeNodes fuel (body ++ value)), rest)

def otherMember (fuel : Nat) (header : List Node) (trees : List TokenTree) : Declared :=
  let (taken, rest) := takeMember trees
  (.mk .other none (sourceText taken) (header ++ codeNodes fuel taken), rest)

def typedMember (fuel : Nat) (header : List Node) (type trees : List TokenTree) : Declared :=
  let (qualifier, named) := takeQualifier fuel trees
  let fallback := otherMember fuel header (type ++ trees)
  match named with
  | [] => fallback
  | name :: rest =>
    if name.isWord "this" then
      accessorsNode fuel .indexerDeclaration (header ++ [typeNode .type type]) rest
    else if name.isWord "operator" || !name.isName then fallback
    else
      let qualifierNodes := if qualifier.isEmpty then [] else [plainNode .other qualifier]
      let (typeParameters, afterName) := takeTypeParameters fuel rest
      match afterName with
      | [] => fallback
      | next :: after =>
        if next.isGroup "(" then
          let (body, rest) := takeMember after
          (.mk .methodDeclaration none (sourceText (type ++ consumed trees rest))
            (header ++ [typeNode .returns type] ++ qualifierNodes ++ [nameNode name] ++
              typeParameters ++ [parameterListNode fuel next] ++ codeNodes fuel body), rest)
        else if isBody next || next.isSymbol "=>" then
          accessorsNode fuel .propertyDeclaration
            (header ++ [typeNode .type type] ++ qualifierNodes ++ [nameNode name]) afterName
        else fieldsNode fuel .fieldDeclaration header type trees

def eventMember (fuel : Nat) (header : List Node) (trees : List TokenTree) : Declared :=
  match takeType fuel trees with
  | none => otherMember fuel header trees
  | some (type, rest) =>
    let (qualifier, named) := takeQualifier fuel rest
    match named with
    | name :: body :: after =>
      if isBody body then
        let qualifierNodes := if qualifier.isEmpty then [] else [plainNode .other qualifier]
        accessorsNode fuel .eventDeclaration
          (header ++ [typeNode .type type] ++ qualifierNodes ++ [nameNode name]) (body :: after)
      else fieldsNode fuel .eventFieldDeclaration header type rest
    | _ => fieldsNode fuel .eventFieldDeclaration header type rest

def memberNode (fuel : Nat) (header : List Node) (trees : List TokenTree) : Declared :=
  match trees with
  | first :: next :: _ =>
    if first.isSymbol "~" || first.isWord "implicit" || first.isWord "explicit" then
      otherMember fuel header trees
    else if first.isName && next.isGroup "(" then otherMember fuel header trees
    else match takeType fuel trees with
      | some (type, rest) => typedMember fuel header type rest
      | none => otherMember fuel header trees
  | _ => otherMember fuel header trees

def isUsingDirective (fuel : Nat) (trees : List TokenTree) : Bool :=
  match trees with
  | first :: next :: _ =>
    first.isWord "static" || first.isWord "unsafe" || (first.isName && next.isSymbol "=") ||
      ((takeType fuel trees).map fun (_, rest) => rest.head?.any (isSymbol ";")).getD false
  | _ => false

def takeTypeKeyword (trees : List TokenTree) : Option Taken :=
  match trees with
  | first :: next :: _ =>
    if first.isWord "class" || first.isWord "struct" || first.isWord "interface" ||
        first.isWord "enum" then some ([first], trees.drop 1)
    else if first.isWord "record" && (next.isWord "struct" || next.isWord "class") then
      some ([first, next], trees.drop 2)
    else if first.isWord "record" && next.isName then some ([first], trees.drop 1)
    else none
  | _ => none

mutual

def declarations : Nat → Bool → List TokenTree → List Node
  | 0, _, _ => []
  | _ + 1, _, [] => []
  | fuel + 1, inType, tree :: rest =>
    if tree.isDirectiveNamed "if" then
      let (block, rest) := takeConditional 0 (tree :: rest)
      codeNode fuel .conditional block :: declarations fuel inType rest
    else if tree.isDirective || tree.isSymbol ";" || isGlobalAttribute tree then
      treeNode fuel tree :: declarations fuel inType rest
    else
      let (node, rest) := declaration fuel inType (tree :: rest)
      node :: declarations fuel inType rest

def declaration : Nat → Bool → List TokenTree → Declared
  | 0, _, trees => (plainNode .other trees, [])
  | fuel + 1, inType, trees =>
    let (header, rest) := takeHeader fuel inType false trees
    match takeTypeKeyword rest with
    | some (keywords, rest) => typeDeclaration fuel header keywords rest
    | none =>
      match rest with
      | [] => (.mk .other none (sourceText trees) header, [])
      | first :: after =>
        if first.isDirective then (.mk .other none (sourceText (consumed trees rest)) header, rest)
        else if first.isWord "delegate" && !after.head?.any (isSymbol "*") then
          let (line, rest) := takeLine rest
          (.mk .other none (sourceText line) (header ++ codeNodes fuel line), rest)
        else if first.isWord "event" then eventMember fuel header after
        else if inType then memberNode fuel header rest
        else if first.isWord "namespace" then namespaceDeclaration fuel after
        else if (first.isWord "using" && isUsingDirective fuel after) ||
            (first.isWord "global" && after.head?.any (isWord "using")) then
          let (line, rest) := takeLine rest
          (plainNode .usingDirective line, rest)
        else
          let (taken, rest) := takeStatement rest
          (.mk .other none (sourceText taken) (header ++ codeNodes fuel taken), rest)

/-- A type from its name on. The body of an enum is read as code. -/
def typeDeclaration : Nat → List Node → List TokenTree → List TokenTree → Declared
  | 0, header, _, rest => (.mk .other none "" header, rest)
  | fuel + 1, header, keywords, trees =>
    match trees with
    | [] => (.mk .other none (sourceText keywords) header, [])
    | name :: rest =>
      let (typeParameters, rest) := takeTypeParameters fuel rest
      let head := rest.takeWhile fun tree => !(isBody tree || tree.isSymbol ";")
      let after := rest.drop head.length
      let inEnum := keywords.any (isWord "enum")
      let body : List Node := match after.head? with
        | some (.group opening inner closing) =>
          let text := sourceText [.group opening inner closing]
          if inEnum then [.mk .other (some .body) text (codeNodes fuel inner)]
          else [.mk .declarationList (some .body) text (declarations fuel true inner)]
        | _ => []
      let rest := after.drop 1
      (.mk .typeDeclaration none (sourceText (keywords ++ consumed trees rest))
        (header ++ keywords.map (treeNode fuel) ++ [nameNode name] ++ typeParameters ++
          codeNodes fuel head ++ body), rest)

/-- A namespace from its name on. One without braces has no body: it holds all that follows. -/
def namespaceDeclaration : Nat → List TokenTree → Declared
  | 0, rest => (.mk .other none "" [], rest)
  | fuel + 1, trees =>
    let name := trees.takeWhile fun tree => !(isBody tree || tree.isSymbol ";")
    let rest := trees.drop name.length
    let named := (plainNode .qualifiedName name).withRole .name
    match rest with
    | .group opening inner closing :: rest =>
      let body := .mk .declarationList (some .body) (sourceText [.group opening inner closing])
        (declarations fuel false inner)
      (.mk .namespaceDeclaration none (sourceText (consumed trees rest)) [named, body], rest)
    | _ => (.mk .fileScopedNamespace none (sourceText name) [named], rest.drop 1)

end

def parse (source : String) : Node :=
  let tokens := tokenize source
  .mk .compilationUnit none source
    (declarations (4 * tokens.length + 16) false (TokenTree.ofTokens tokens))

end HookEvents.CSharp
