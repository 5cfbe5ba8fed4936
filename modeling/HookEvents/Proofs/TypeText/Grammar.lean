import HookEvents.TypeText.Reader

/-!
The grammar of type texts over tokens, and what it is to spell tokens:

  Type ::= (Tuple | Named) Suffix*
  Suffix ::= '?' | '*' | '[' ','* ']'
  Tuple ::= '(' Element (',' Element)* ')'
  Element ::= Type Identifier?
  Named ::= (Identifier '::')? Segment ('.' Segment)*
  Segment ::= Identifier ('<' Type (',' Type)* '>')?
-/
namespace HookEvents.TypeText

open Text

inductive Token where
  | name (text : String)
  | colons
  | mark (c : Char)
  deriving DecidableEq, Repr

def Token.chars : Token → List Char
  | .name text => text.toList
  | .colons => [':', ':']
  | .mark c => [c]

def IsIdentifier (name : String) : Prop :=
  ∃ c cs, name.toList = c :: cs ∧ isNameStart c = true ∧ ∀ d ∈ cs, isNamePart d = true

def suffixTokens : TypeSuffix → List Token
  | .nullable => [.mark '?']
  | .pointer => [.mark '*']
  | .array commas => .mark '[' :: List.replicate commas (.mark ',') ++ [.mark ']']

mutual

def tokens : TypeText → List Token
  | .named root segments =>
    (root.map fun name => [.name name, .colons]).getD [] ++ segmentTokens segments
  | .tuple elements => .mark '(' :: elementTokens elements ++ [.mark ')']
  | .suffixed element suffix => element.tokens ++ suffixTokens suffix

def segmentTokens : List (String × List TypeText) → List Token
  | [] => []
  | (name, arguments) :: segments =>
    .name name ::
      (if arguments.isEmpty then [] else .mark '<' :: argumentTokens arguments ++ [.mark '>'])
      ++ (if segments.isEmpty then [] else .mark '.' :: segmentTokens segments)

def argumentTokens : List TypeText → List Token
  | [] => []
  | type :: types =>
    type.tokens ++ if types.isEmpty then [] else .mark ',' :: argumentTokens types

def elementTokens : List (TypeText × Option String) → List Token
  | [] => []
  | (type, name) :: elements =>
    type.tokens ++ (name.map Token.name).toList ++
      if elements.isEmpty then [] else .mark ',' :: elementTokens elements

end

inductive Nonterminal where
  | type
  | suffixes
  | elements
  | element
  | path
  | segment
  | arguments

inductive Derives : Nonterminal → List Token → Prop where
  | tuple {elements suffixes : List Token} :
    Derives .elements elements → Derives .suffixes suffixes →
      Derives .type (.mark '(' :: elements ++ .mark ')' :: suffixes)
  | named {path suffixes : List Token} :
    Derives .path path → Derives .suffixes suffixes → Derives .type (path ++ suffixes)
  | aliased {root : String} {path suffixes : List Token} :
    IsIdentifier root → Derives .path path → Derives .suffixes suffixes →
      Derives .type (.name root :: .colons :: path ++ suffixes)
  | noSuffix : Derives .suffixes []
  | suffix (suffix : TypeSuffix) {suffixes : List Token} :
    Derives .suffixes suffixes → Derives .suffixes (suffixTokens suffix ++ suffixes)
  | lastElement {element : List Token} : Derives .element element → Derives .elements element
  | moreElements {element elements : List Token} :
    Derives .element element → Derives .elements elements →
      Derives .elements (element ++ .mark ',' :: elements)
  | plainElement {type : List Token} : Derives .type type → Derives .element type
  | namedElement {type : List Token} {name : String} :
    Derives .type type → IsIdentifier name → Derives .element (type ++ [.name name])
  | lastSegment {segment : List Token} : Derives .segment segment → Derives .path segment
  | moreSegments {segment path : List Token} :
    Derives .segment segment → Derives .path path → Derives .path (segment ++ .mark '.' :: path)
  | plainSegment {name : String} : IsIdentifier name → Derives .segment [.name name]
  | genericSegment {name : String} {arguments : List Token} :
    IsIdentifier name → Derives .arguments arguments →
      Derives .segment (.name name :: .mark '<' :: arguments ++ [.mark '>'])
  | lastArgument {type : List Token} : Derives .type type → Derives .arguments type
  | moreArguments {type arguments : List Token} :
    Derives .type type → Derives .arguments arguments →
      Derives .arguments (type ++ .mark ',' :: arguments)

def Blanks (cs : List Char) : Prop := ∀ c ∈ cs, isBlank c = true

/-- The tokens one after the other, with blanks before each of them, and then the rest. What stands
right behind a token is subject to `joint`. -/
def Spelled (joint : Token → List Char → Prop) : List Token → List Char → List Char → Prop
  | [], cs, rest => cs = rest
  | token :: tokens, cs, rest => ∃ blanks tail, Blanks blanks ∧
    cs = blanks ++ (token.chars ++ tail) ∧ joint token tail ∧ Spelled joint tokens tail rest

def IsTypeText (text : String) : Prop :=
  ∃ tokens rest, Derives .type tokens ∧ Spelled (fun _ _ => True) tokens text.toList rest ∧
    Blanks rest

def Token.EndsAt : Token → List Char → Prop
  | .name _, tail => ∀ c ∈ tail.head?, isNamePart c = false
  | _, _ => True

namespace Spelled

variable {joint : Token → List Char → Prop} {tokens more : List Token} {cs rest : List Char}

theorem nil : Spelled joint [] cs cs := rfl

theorem append_iff : Spelled joint (tokens ++ more) cs rest ↔
    ∃ mid, Spelled joint tokens cs mid ∧ Spelled joint more mid rest := by
  induction tokens generalizing cs with
  | nil => simp [Spelled]
  | cons token tokens ih =>
    constructor
    · rintro ⟨blanks, tail, hb, hc, hj, hs⟩
      obtain ⟨mid, hs, hm⟩ := ih.mp hs
      exact ⟨mid, ⟨blanks, tail, hb, hc, hj, hs⟩, hm⟩
    · rintro ⟨mid, ⟨blanks, tail, hb, hc, hj, hs⟩, hm⟩
      exact ⟨blanks, tail, hb, hc, hj, ih.mpr ⟨mid, hs, hm⟩⟩

theorem mono {joint' : Token → List Char → Prop}
    (hj : ∀ token tail, joint token tail → joint' token tail)
    (h : Spelled joint tokens cs rest) : Spelled joint' tokens cs rest := by
  induction tokens generalizing cs with
  | nil => exact h
  | cons token tokens ih =>
    obtain ⟨blanks, tail, hb, hc, ht, hs⟩ := h
    exact ⟨blanks, tail, hb, hc, hj token tail ht, ih hs⟩

theorem blanks_append {blanks : List Char} (hb : Blanks blanks) (hne : tokens ≠ [])
    (h : Spelled joint tokens cs rest) : Spelled joint tokens (blanks ++ cs) rest := by
  cases tokens with
  | nil => exact absurd rfl hne
  | cons token tokens =>
    obtain ⟨more, tail, hm, rfl, hj, hs⟩ := h
    refine ⟨blanks ++ more, tail, ?_, (List.append_assoc _ _ _).symm, hj, hs⟩
    intro c hc
    exact (List.mem_append.mp hc).elim (hb c) (hm c)

end Spelled

end HookEvents.TypeText
