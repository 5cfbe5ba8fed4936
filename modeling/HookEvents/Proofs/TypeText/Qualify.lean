import HookEvents.Proofs.TypeText.Exact
import HookEvents.Proofs.TypeText.Rendering
import HookEvents.TypeText.Qualify

namespace HookEvents

open Text

/-- Where a name may be looked up from: the whole name of the declaring type, what stands before one
of its dots, or nothing. -/
def IsScope (qualified scope : String) : Prop :=
  scope = qualified ∨ (∃ rest, qualified = scope ++ "." ++ rest) ∨ scope = ""

theorem mem_enclosingScopes {qualified scope : String} :
    scope ∈ enclosingScopes qualified ↔ IsScope qualified scope := by
  have hjoin : join "." (split '.' qualified) = qualified := join_split rfl qualified
  have hpos := List.length_pos_iff.mpr (split_ne_nil '.' qualified)
  simp only [enclosingScopes, List.mem_append, List.mem_map, List.mem_range, List.mem_singleton]
  constructor
  · rintro (⟨i, hi, rfl⟩ | rfl)
    · by_cases hz : i = 0
      · left
        rw [hz, Nat.sub_zero, List.take_length, hjoin]
      · right
        left
        have hfront : (split '.' qualified).take ((split '.' qualified).length - i) ≠ [] := by
          rw [← List.length_pos_iff, List.length_take]
          omega
        have hback : (split '.' qualified).drop ((split '.' qualified).length - i) ≠ [] := by
          rw [← List.length_pos_iff, List.length_drop]
          omega
        refine ⟨join "." ((split '.' qualified).drop ((split '.' qualified).length - i)), ?_⟩
        rw [← join_append "." hfront hback, List.take_append_drop, hjoin]
    · exact Or.inr (Or.inr rfl)
  · rintro (rfl | ⟨rest, rfl⟩ | rfl)
    · exact Or.inl ⟨0, hpos, by rw [Nat.sub_zero, List.take_length, hjoin]⟩
    · left
      have hscope := List.length_pos_iff.mpr (split_ne_nil '.' scope)
      have hparts : split '.' (scope ++ "." ++ rest) = split '.' scope ++ split '.' rest :=
        split_append rfl scope rest
      refine ⟨(split '.' rest).length, ?_, ?_⟩
      · rw [hparts, List.length_append]
        omega
      · rw [hparts, List.length_append, Nat.add_sub_cancel, List.take_left', join_split rfl]
        rfl
    · exact Or.inr rfl

theorem length_join_take (sep : String) (parts : List String) {m n : Nat} (h : m ≤ n) :
    (join sep (parts.take m)).length ≤ (join sep (parts.take n)).length := by
  have htake : (parts.take n).take m = parts.take m := by
    rw [List.take_take, Nat.min_eq_left h]
  have hsplit : parts.take n = parts.take m ++ (parts.take n).drop m := by
    rw [← htake, List.take_append_drop]
  by_cases hf : parts.take m = []
  · rw [hf]
    exact Nat.zero_le _
  by_cases hb : (parts.take n).drop m = []
  · apply Nat.le_of_eq
    rw [hsplit, hb, List.append_nil]
  · rw [hsplit, join_append sep hf hb]
    simp only [String.length_append]
    omega

theorem pairwise_enclosingScopes (qualified : String) :
    (enclosingScopes qualified).Pairwise fun inner outer => outer.length ≤ inner.length := by
  rw [enclosingScopes, List.pairwise_append]
  refine ⟨?_, List.pairwise_singleton _ _, ?_⟩
  · rw [List.pairwise_map]
    apply List.pairwise_lt_range.imp
    intro i j hij
    exact length_join_take "." _ (by omega)
  · intro inner _ outer ho
    rw [List.mem_singleton.mp ho]
    exact Nat.zero_le _

namespace TypeText

/-- Segments that spell a dotted name with arguments, if any, on the last segment only. -/
def DottedName (segments : List (String × List TypeText)) (path : String) (arity : Nat) : Prop :=
  ∃ front last arguments, segments = front ++ [(last, arguments)] ∧
    (∀ segment ∈ front, segment.2 = []) ∧ path = join "." (front.map (·.1) ++ [last]) ∧
    arity = arguments.length

def Declares (table : TypeTable) (scope path : String) (arity : Nat) : Prop :=
  ∃ symbol, table.get? (if scope = "" then path else scope ++ "." ++ path) = some symbol ∧
    symbol.typeParameters.length = arity

def FoundIn (table : TypeTable) (qualified path : String) (arity : Nat) (scope : String) : Prop :=
  IsScope qualified scope ∧ Declares table scope path arity

def scopeTokens (scope : String) : List Token :=
  if scope = "" then [] else (split '.' scope).flatMap fun part => [.name part, .mark '.']

inductive Inserted (table : TypeTable) (qualified : String)
    (segments : List (String × List TypeText)) : List Token → Prop
  | longest {path : String} {arity : Nat} {scope : String} (hd : DottedName segments path arity)
    (hf : FoundIn table qualified path arity scope)
    (hl : ∀ other, FoundIn table qualified path arity other → other.length ≤ scope.length) :
    Inserted table qualified segments (.name "global" :: .colons :: scopeTokens scope)
  | nothing
    (h : ∀ path arity scope, DottedName segments path arity →
      ¬FoundIn table qualified path arity scope) :
    Inserted table qualified segments []

mutual

/-- The tokens of a type, with others before each name that has no alias. -/
def tokensWith (before : List (String × List TypeText) → List Token) : TypeText → List Token
  | .named (some root) segments =>
    .name root :: .colons :: segmentTokensWith before segments
  | .named none segments => before segments ++ segmentTokensWith before segments
  | .tuple elements => .mark '(' :: elementTokensWith before elements ++ [.mark ')']
  | .suffixed element suffix => element.tokensWith before ++ suffixTokens suffix

def segmentTokensWith (before : List (String × List TypeText) → List Token) :
    List (String × List TypeText) → List Token
  | [] => []
  | (name, arguments) :: segments =>
    .name name ::
      (if arguments.isEmpty then []
        else .mark '<' :: argumentTokensWith before arguments ++ [.mark '>'])
      ++ (if segments.isEmpty then [] else .mark '.' :: segmentTokensWith before segments)

def argumentTokensWith (before : List (String × List TypeText) → List Token) :
    List TypeText → List Token
  | [] => []
  | type :: types =>
    type.tokensWith before ++
      if types.isEmpty then [] else .mark ',' :: argumentTokensWith before types

def elementTokensWith (before : List (String × List TypeText) → List Token) :
    List (TypeText × Option String) → List Token
  | [] => []
  | (type, name) :: elements =>
    type.tokensWith before ++ (name.map Token.name).toList ++
      if elements.isEmpty then [] else .mark ',' :: elementTokensWith before elements

end

theorem lookupKey_concat {front : List (String × List TypeText)} (last : String)
    (arguments : List TypeText) (h : ∀ segment ∈ front, segment.2 = []) :
    lookupKey (front ++ [(last, arguments)]) =
      some (join "." (front.map (·.1) ++ [last]), arguments.length) := by
  induction front with
  | nil => simp [lookupKey]
  | cons segment front ih =>
    obtain ⟨name, none⟩ := segment
    obtain rfl : none = [] := h (name, none) (by simp)
    have hrest := ih fun other ho => h other (by simp [ho])
    have hstep : lookupKey ((name, []) :: (front ++ [(last, arguments)])) =
        (lookupKey (front ++ [(last, arguments)])).map fun key =>
          (name ++ "." ++ key.1, key.2) := by
      cases front <;> rfl
    rw [List.cons_append, hstep, hrest, List.map_cons, List.cons_append,
      join_cons "." name (by simp)]
    rfl

theorem lookupKey_eq_some_iff {segments : List (String × List TypeText)} {path : String}
    {arity : Nat} : lookupKey segments = some (path, arity) ↔ DottedName segments path arity := by
  constructor
  · intro h
    induction segments generalizing path with
    | nil => exact absurd h (by simp [lookupKey])
    | cons segment rest ih =>
      obtain ⟨name, arguments⟩ := segment
      cases rest with
      | nil =>
        obtain ⟨rfl, rfl⟩ : name = path ∧ arguments.length = arity := by simpa [lookupKey] using h
        exact ⟨[], name, arguments, rfl, by simp, by simp, rfl⟩
      | cons next rest =>
        rw [lookupKey] at h
        · by_cases ha : arguments = []
          · rw [ha] at h ⊢
            obtain ⟨⟨inner, innerArity⟩, hi, hp⟩ := Option.map_eq_some_iff.mp h
            obtain ⟨rfl, rfl⟩ := Prod.mk.inj hp
            obtain ⟨front, last, lastArguments, hs, hf, rfl, ha⟩ := ih hi
            refine ⟨(name, []) :: front, last, lastArguments, by rw [hs]; rfl, ?_, ?_, ha⟩
            · exact List.forall_mem_cons.mpr ⟨rfl, hf⟩
            · rw [List.map_cons, List.cons_append, join_cons "." name (by simp)]
          · simp [ha] at h
        · simp
  · rintro ⟨front, last, arguments, rfl, hf, rfl, rfl⟩
    exact lookupKey_concat last arguments hf

def scopeOf? (table : TypeTable) (qualified : String) (segments : List (String × List TypeText)) :
    Option String :=
  (lookupKey segments).bind fun (path, arity) =>
    (enclosingScopes qualified).find? fun scope =>
      (table.get? (TypeSymbol.qualifyIn scope path)).any fun symbol =>
        symbol.typeParameters.length = arity

def insertion (table : TypeTable) (qualified : String) (segments : List (String × List TypeText)) :
    List Token :=
  match scopeOf? table qualified segments with
  | some scope => .name "global" :: .colons :: scopeTokens scope
  | none => []

theorem declares_iff {table : TypeTable} {scope path : String} {arity : Nat} :
    (table.get? (TypeSymbol.qualifyIn scope path)).any
      (fun symbol => symbol.typeParameters.length = arity) = true ↔
        Declares table scope path arity := by
  simp only [Declares, TypeSymbol.qualifyIn, Option.any_eq_true, decide_eq_true_eq]

theorem find?_scope (table : TypeTable) (qualified path : String) (arity : Nat) :
    let found := (enclosingScopes qualified).find? fun scope =>
      (table.get? (TypeSymbol.qualifyIn scope path)).any fun symbol =>
        symbol.typeParameters.length = arity
    (found = none ∧ ∀ scope, ¬FoundIn table qualified path arity scope) ∨
      ∃ scope, found = some scope ∧ FoundIn table qualified path arity scope ∧
        ∀ other, FoundIn table qualified path arity other → other.length ≤ scope.length := by
  intro found
  cases hfind : found with
  | none =>
    refine Or.inl ⟨rfl, ?_⟩
    rintro scope ⟨hscope, hdeclares⟩
    exact List.find?_eq_none.mp hfind scope (mem_enclosingScopes.mpr hscope)
      (declares_iff.mpr hdeclares)
  | some scope =>
    obtain ⟨hscope, inner, outer, hsplit, hinner⟩ := List.find?_eq_some_iff_append.mp hfind
    have hmem : scope ∈ enclosingScopes qualified := by simp [hsplit]
    refine Or.inr ⟨scope, rfl, ⟨mem_enclosingScopes.mp hmem, declares_iff.mp hscope⟩, ?_⟩
    -- an inner scope is not one of the name, and outer ones are shorter
    rintro other ⟨ho, hdeclares⟩
    have hsorted := pairwise_enclosingScopes qualified
    have hother := mem_enclosingScopes.mpr ho
    rw [hsplit] at hsorted hother
    rcases List.mem_append.mp hother with hother | hother
    · have hnot := hinner other hother
      rw [declares_iff.mpr hdeclares] at hnot
      exact absurd hnot (by simp)
    · rcases List.mem_cons.mp hother with rfl | hother
      · exact Nat.le_refl _
      · exact (List.pairwise_cons.mp (List.pairwise_append.mp hsorted).2.1).1 other hother

theorem inserted_insertion (table : TypeTable) (qualified : String)
    (segments : List (String × List TypeText)) :
    Inserted table qualified segments (insertion table qualified segments) := by
  unfold insertion scopeOf?
  cases hkey : lookupKey segments with
  | none =>
    apply Inserted.nothing
    intro path arity scope hd
    rw [lookupKey_eq_some_iff.mpr hd] at hkey
    exact absurd hkey (by simp)
  | some key =>
    obtain ⟨path, arity⟩ := key
    have hdotted := lookupKey_eq_some_iff.mp hkey
    rw [Option.bind_some]
    dsimp only
    rcases find?_scope table qualified path arity with ⟨hfind, hnone⟩ | ⟨scope, hfind, hfound, hl⟩
    · rw [hfind]
      apply Inserted.nothing
      intro other otherArity scope hd
      obtain ⟨rfl, rfl⟩ : path = other ∧ arity = otherArity := by
        simpa [hkey] using lookupKey_eq_some_iff.mpr hd
      exact hnone scope
    · rw [hfind]
      exact .longest hdotted hfound hl

theorem lookup_cases (table : TypeTable) (qualified path : String) (arity : Nat) :
    (table.lookup (enclosingScopes qualified) path arity = none ∧
      ∀ scope, ¬FoundIn table qualified path arity scope) ∨
    ∃ scope, table.lookup (enclosingScopes qualified) path arity =
        some (TypeSymbol.qualifyIn scope path) ∧
      FoundIn table qualified path arity scope ∧
      ∀ other, FoundIn table qualified path arity other → other.length ≤ scope.length := by
  rw [TypeTable.lookup, List.find?_map]
  rcases find?_scope table qualified path arity with ⟨hfind, hnone⟩ | ⟨scope, hfind, hfound, hl⟩
  · exact Or.inl ⟨congrArg (Option.map _) hfind, hnone⟩
  · exact Or.inr ⟨scope, congrArg (Option.map _) hfind, hfound, hl⟩

theorem lookup_eq (table : TypeTable) (qualified : String)
    (segments : List (String × List TypeText)) {path : String} {arity : Nat}
    (h : lookupKey segments = some (path, arity)) :
    table.lookup (enclosingScopes qualified) path arity =
      (scopeOf? table qualified segments).map (TypeSymbol.qualifyIn · path) := by
  rw [TypeTable.lookup, List.find?_map, scopeOf?, h]
  rfl

theorem qualifyAll_eq_map (lookup : Lookup) (types : List TypeText) :
    qualifyAll lookup types = types.map (qualify lookup) := by
  induction types with
  | nil => rfl
  | cons type types ih => rw [qualifyAll, ih, List.map_cons]

theorem qualifySegments_eq_map (lookup : Lookup) (segments : List (String × List TypeText)) :
    qualifySegments lookup segments =
      segments.map fun segment => (segment.1, qualifyAll lookup segment.2) := by
  induction segments with
  | nil => rfl
  | cons segment segments ih => rw [qualifySegments, ih, List.map_cons]

theorem withArguments_concat (arguments : List TypeText) (names : List String) (last : String) :
    withArguments arguments (names ++ [last]) =
      names.map (fun name => (name, [])) ++ [(last, arguments)] := by
  induction names with
  | nil => rfl
  | cons name names ih =>
    rw [List.cons_append, withArguments, ih]
    · rfl
    · simp

theorem segmentTokens_append (names : List String) {segments : List (String × List TypeText)}
    (h : segments ≠ []) :
    segmentTokens (names.map (fun name => (name, [])) ++ segments) =
      names.flatMap (fun name => [.name name, .mark '.']) ++ segmentTokens segments := by
  induction names with
  | nil => rfl
  | cons name names ih => simp [segmentTokens, ih, h]

theorem split_qualifyIn (scope : String) {names : List String} (hne : names ≠ [])
    (h : ∀ name ∈ names, '.' ∉ name.toList) :
    split '.' (TypeSymbol.qualifyIn scope (join "." names)) =
      (if scope = "" then [] else split '.' scope) ++ names := by
  have hnames : split '.' (join "." names) = names := split_join_of_not_mem rfl hne h
  by_cases hs : scope = ""
  · rw [TypeSymbol.qualifyIn, if_pos hs, if_pos hs, hnames, List.nil_append]
  · rw [TypeSymbol.qualifyIn, if_neg hs, if_neg hs, split_append rfl, hnames]

theorem tokens_qualifiedName (table : TypeTable) (qualified : String)
    (segments : List (String × List TypeText))
    (h : ∀ segment ∈ segments, '.' ∉ segment.1.toList) :
    (qualify (table.lookup (enclosingScopes qualified)) (.named none segments)).tokens =
      insertion table qualified segments ++
        segmentTokens (qualifySegments (table.lookup (enclosingScopes qualified)) segments) := by
  rw [qualify, insertion]
  cases hkey : lookupKey segments with
  | none =>
    have hscope : scopeOf? table qualified segments = none := by rw [scopeOf?, hkey]; rfl
    rw [hscope]
    rfl
  | some key =>
    obtain ⟨path, arity⟩ := key
    rw [Option.bind_some]
    dsimp only
    rw [lookup_eq table qualified segments hkey]
    cases hscope : scopeOf? table qualified segments with
    | none => rfl
    | some scope =>
      obtain ⟨front, last, arguments, rfl, hf, rfl, -⟩ := lookupKey_eq_some_iff.mp hkey
      generalize table.lookup (enclosingScopes qualified) = lookup
      have hplain : front.map (fun segment => (segment.1, qualifyAll lookup segment.2)) =
          (front.map (·.1)).map fun name => (name, []) := by
        rw [List.map_map]
        apply List.map_congr_left
        intro segment hs
        rw [hf segment hs]
        rfl
      have hsegments : qualifySegments lookup (front ++ [(last, arguments)]) =
          (front.map (·.1)).map (fun name => (name, [])) ++ [(last, qualifyAll lookup arguments)] := by
        rw [qualifySegments_eq_map, List.map_append, hplain]
        rfl
      have hnames : ∀ name ∈ front.map (·.1) ++ [last], '.' ∉ name.toList := by
        intro name hn
        simp only [List.mem_append, List.mem_map, List.mem_singleton] at hn
        rcases hn with ⟨segment, hs, rfl⟩ | rfl
        · exact h segment (by simp [hs])
        · exact h (name, arguments) (by simp)
      rw [Option.map_some, qualifiedName, split_qualifyIn scope (by simp) hnames, hsegments,
        List.getLast?_concat, Option.map_some, Option.getD_some, ← List.append_assoc,
        withArguments_concat, List.map_append, List.append_assoc, tokens,
        segmentTokens_append _ (by simp)]
      by_cases hempty : scope = "" <;> simp [hempty, scopeTokens]

def Undotted (tokens : List Token) : Prop := ∀ name, .name name ∈ tokens → '.' ∉ name.toList

theorem Undotted.left {front back : List Token} (h : Undotted (front ++ back)) : Undotted front :=
  fun name hn => h name (List.mem_append_left back hn)

theorem Undotted.right {front back : List Token} (h : Undotted (front ++ back)) : Undotted back :=
  fun name hn => h name (List.mem_append_right front hn)

theorem Undotted.tail {token : Token} {rest : List Token} (h : Undotted (token :: rest)) :
    Undotted rest := fun name hn => h name (List.mem_cons_of_mem token hn)

theorem Derives.undotted {nonterminal : Nonterminal} {tokens : List Token}
    (h : Derives nonterminal tokens) : Undotted tokens := by
  have hidentifiers : ∀ name, .name name ∈ tokens → IsIdentifier name := by
    induction h with
    | suffix suffix _ ih =>
      intro name hn
      rcases List.mem_append.mp hn with hn | hn
      · cases suffix <;> simp [suffixTokens] at hn
      · exact ih name hn
    | _ => grind
  exact fun name hn => (hidentifiers name hn).not_mem_of_mem_marks (by decide)

theorem name_mem_segmentTokens {segments : List (String × List TypeText)} :
    ∀ segment ∈ segments, .name segment.1 ∈ segmentTokens segments := by
  induction segments with
  | nil => simp
  | cons first segments ih =>
    intro segment hs
    rw [segmentTokens]
    rcases List.mem_cons.mp hs with rfl | hs
    · simp
    · have hne : segments ≠ [] := List.ne_nil_of_mem hs
      simp [hne, ih segment hs]

section

variable (table : TypeTable) (qualified : String)

mutual

theorem tokens_qualify (type : TypeText) (h : Undotted type.tokens) :
    (type.qualify (table.lookup (enclosingScopes qualified))).tokens =
      type.tokensWith (insertion table qualified) := by
  match type with
  | .named (some root) segments =>
    have hsegments := tokens_qualifySegments segments h.tail.tail
    simp [qualify, tokens, tokensWith, hsegments]
  | .named none segments =>
    have hsegments := tokens_qualifySegments segments h
    rw [tokens_qualifiedName table qualified segments, hsegments, tokensWith]
    intro segment hs
    exact h segment.1 (name_mem_segmentTokens segment hs)
  | .tuple elements =>
    have helements := tokens_qualifyElements elements h.tail.left
    simp [qualify, tokens, tokensWith, helements]
  | .suffixed element suffix =>
    rw [qualify, tokens, tokens_qualify element h.left, tokensWith]

theorem tokens_qualifyAll (types : List TypeText) (h : Undotted (argumentTokens types)) :
    argumentTokens (qualifyAll (table.lookup (enclosingScopes qualified)) types) =
      argumentTokensWith (insertion table qualified) types := by
  match types with
  | [] => rfl
  | type :: types =>
    have hrest : Undotted (argumentTokens types) := by
      cases types with
      | nil => exact fun _ hn => absurd hn List.not_mem_nil
      | cons next types => exact h.right.tail
    rw [qualifyAll, argumentTokens, argumentTokensWith, tokens_qualify type h.left,
      tokens_qualifyAll types hrest, qualifyAll_eq_map, List.isEmpty_map]

theorem tokens_qualifySegments (segments : List (String × List TypeText))
    (h : Undotted (segmentTokens segments)) :
    segmentTokens (qualifySegments (table.lookup (enclosingScopes qualified)) segments) =
      segmentTokensWith (insertion table qualified) segments := by
  match segments with
  | [] => rfl
  | (name, arguments) :: segments =>
    have harguments : Undotted (argumentTokens arguments) := by
      cases arguments with
      | nil => exact fun _ hn => absurd hn List.not_mem_nil
      | cons type types => exact h.left.tail.tail.left
    have hrest : Undotted (segmentTokens segments) := by
      cases segments with
      | nil => exact fun _ hn => absurd hn List.not_mem_nil
      | cons next segments => exact h.right.tail
    rw [qualifySegments, segmentTokens, segmentTokensWith, tokens_qualifyAll arguments harguments,
      tokens_qualifySegments segments hrest, qualifyAll_eq_map, qualifySegments_eq_map,
      List.isEmpty_map, List.isEmpty_map]

theorem tokens_qualifyElements (elements : List (TypeText × Option String))
    (h : Undotted (elementTokens elements)) :
    elementTokens (qualifyElements (table.lookup (enclosingScopes qualified)) elements) =
      elementTokensWith (insertion table qualified) elements := by
  match elements with
  | [] => rfl
  | (type, name) :: elements =>
    have hrest : Undotted (elementTokens elements) := by
      cases elements with
      | nil => exact fun _ hn => absurd hn List.not_mem_nil
      | cons next elements => exact h.right.tail
    have hempty : (qualifyElements (table.lookup (enclosingScopes qualified)) elements).isEmpty =
        elements.isEmpty := by
      cases elements <;> rfl
    rw [qualifyElements, elementTokens, elementTokensWith, tokens_qualify type h.left.left,
      tokens_qualifyElements elements hrest, hempty]

end

end

mutual

theorem tokensWith_nil (type : TypeText) : type.tokensWith (fun _ => []) = type.tokens := by
  match type with
  | .named (some root) segments => simp [tokensWith, tokens, segmentTokensWith_nil segments]
  | .named none segments => simp [tokensWith, tokens, segmentTokensWith_nil segments]
  | .tuple elements => rw [tokensWith, tokens, elementTokensWith_nil elements]
  | .suffixed element suffix => rw [tokensWith, tokens, tokensWith_nil element]

theorem argumentTokensWith_nil (types : List TypeText) :
    argumentTokensWith (fun _ => []) types = argumentTokens types := by
  match types with
  | [] => rfl
  | type :: types =>
    rw [argumentTokensWith, argumentTokens, tokensWith_nil type, argumentTokensWith_nil types]

theorem segmentTokensWith_nil (segments : List (String × List TypeText)) :
    segmentTokensWith (fun _ => []) segments = segmentTokens segments := by
  match segments with
  | [] => rfl
  | (name, arguments) :: segments =>
    rw [segmentTokensWith, segmentTokens, argumentTokensWith_nil arguments,
      segmentTokensWith_nil segments]

theorem elementTokensWith_nil (elements : List (TypeText × Option String)) :
    elementTokensWith (fun _ => []) elements = elementTokens elements := by
  match elements with
  | [] => rfl
  | (type, name) :: elements =>
    rw [elementTokensWith, elementTokens, tokensWith_nil type, elementTokensWith_nil elements]

end

/-- The result is the text with other blanks and, before each name without an alias, what is to be
inserted there. -/
def InsertsScopes (table : TypeTable) (qualified text result : String) : Prop :=
  ∃ (type : TypeText) (before : List (String × List TypeText) → List Token),
    parse? text = some type ∧
    (∀ segments, Inserted table qualified segments (before segments)) ∧
    (∃ rest, Spelled Token.EndsAt (type.tokensWith fun _ => []) text.toList rest ∧ Blanks rest) ∧
    ∃ rest, Spelled Token.EndsAt (type.tokensWith before) result.toList rest ∧ Blanks rest

/-- Qualification keeps the tokens of a type text and inserts `global::` and the longest scope in
which the table has the name. -/
theorem qualifyText_inserts (table : TypeTable) (symbol : TypeSymbol) {text : String}
    (h : IsTypeText text) :
    InsertsScopes table symbol.qualifiedName text
      (qualifyText (table.lookup (enclosingScopes symbol.qualifiedName)) text) := by
  obtain ⟨type, hparse⟩ := exists_parse? h
  obtain ⟨hderives, hspelled⟩ := parse?_tokens hparse
  have hqualified := tokens_qualify table symbol.qualifiedName type hderives.undotted
  have hspells :=
    spells_render (type.qualify (table.lookup (enclosingScopes symbol.qualifiedName)))
  obtain ⟨left, hleft, hresult⟩ := hspells [] [] (by simp [Blanks]) (by simp)
  rw [hqualified] at hresult
  refine ⟨type, insertion table symbol.qualifiedName, hparse, inserted_insertion _ _, ?_, left, ?_,
    hleft⟩
  · rwa [tokensWith_nil]
  · simpa [qualifyText, hparse] using hresult

def nestedTypes : TypeTable := .ofList
  [{ name := "A", namespaceName := some "N" }, { name := "D", namespaceName := some "N" },
   { name := "B", namespaceName := some "N", containingTypes := ["A"], typeParameters := ["T", "U"] },
   { name := "D" }, { name := "F" }]

/-- In the tuple, `B` is found only with two arguments, `x::D` has an alias, and in `A<F>.B` an inner
segment has arguments. -/
theorem qualifyText_inserts_nested :
    InsertsScopes nestedTypes "N.A"
      " ( B<D, F ? >[ , ] b , x :: D , A . B , A<F> . B<D*, F> ) "
      "(global::N.A.B<global::N.D, global::F?>[,] b, x::D, A.B, A<global::F>.B<global::N.D*, global::F>)"
    := by
  have htext : IsTypeText " ( B<D, F ? >[ , ] b , x :: D , A . B , A<F> . B<D*, F> ) " :=
    isTypeText_iff.mpr (by decide +kernel)
  have hinserts := qualifyText_inserts nestedTypes { name := "A", namespaceName := some "N" } htext
  have hname : TypeSymbol.qualifiedName { name := "A", namespaceName := some "N" } = "N.A" := by
    decide +kernel
  have hresult : qualifyText (nestedTypes.lookup (enclosingScopes "N.A"))
      " ( B<D, F ? >[ , ] b , x :: D , A . B , A<F> . B<D*, F> ) " =
      "(global::N.A.B<global::N.D, global::F?>[,] b, x::D, A.B, A<global::F>.B<global::N.D*, global::F>)"
      := by decide +kernel
  rwa [hname, hresult] at hinserts

end TypeText

end HookEvents
