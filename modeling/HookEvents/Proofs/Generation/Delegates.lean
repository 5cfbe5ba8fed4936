import HookEvents.Generation.Signature
import HookEvents.Proofs.TypeText.Brackets
import HookEvents.Proofs.TypeText.Idempotent

namespace HookEvents

open Text

namespace TypeText

theorem Spelled.append_tail {tokens : List Token} {cs rest tail : List Char}
    (h : Spelled Token.EndsAt tokens cs rest) (ht : ∀ c ∈ tail.head?, isNamePart c = false) :
    Spelled Token.EndsAt tokens (cs ++ tail) (rest ++ tail) := by
  induction tokens generalizing cs with
  | nil =>
    obtain rfl : cs = rest := h
    exact Spelled.nil
  | cons token tokens ih =>
    obtain ⟨blanks, after, hb, rfl, hend, hs⟩ := h
    refine ⟨blanks, after ++ tail, hb, by simp, ?_, ih hs⟩
    cases token with
    | name name =>
      cases after with
      | nil => exact ht
      | cons c after => exact hend
    | colons => trivial
    | mark c => trivial

theorem spells_of_parse? {text : String} {type : TypeText} (h : parse? text = some type) :
    Spells type.tokens text.toList := by
  intro blanks tail hb ht
  obtain ⟨hd, rest, hs, hrest⟩ := parse?_tokens h
  exact ⟨rest, hrest, (hs.append_tail ht).blanks_append hb (hd.ne_nil (by simp))⟩

def ReadAs (texts : List String) (types : List TypeText) : Prop :=
  texts.map parse? = types.map some

section ReadAs

variable {texts : List String} {types : List TypeText} {text : String} {type : TypeText}

theorem readAs_cons : ReadAs (text :: texts) (type :: types) ↔
    parse? text = some type ∧ ReadAs texts types := by
  simp [ReadAs]

theorem ReadAs.length_eq (h : ReadAs texts types) : texts.length = types.length := by
  have hlengths := congrArg List.length h
  simpa using hlengths

theorem exists_readAs (h : ∀ text ∈ texts, (parse? text).isSome = true) :
    ∃ types, ReadAs texts types := by
  induction texts with
  | nil => exact ⟨[], rfl⟩
  | cons text texts ih =>
    obtain ⟨type, ht⟩ := Option.isSome_iff_exists.mp (h text (by simp))
    obtain ⟨types, hts⟩ := ih fun other ho => h other (List.mem_cons_of_mem text ho)
    exact ⟨type :: types, readAs_cons.mpr ⟨ht, hts⟩⟩

theorem ReadAs.proper (h : ReadAs texts types) : ProperAll types := by
  induction types generalizing texts with
  | nil => trivial
  | cons type types ih =>
    cases texts with
    | nil => exact absurd h.length_eq (by simp)
    | cons text texts =>
      obtain ⟨ht, hts⟩ := readAs_cons.mp h
      exact ⟨parse?_proper ht, ih hts⟩

theorem ReadAs.passes (h : ReadAs texts types) (depth : Nat) :
    ∀ text ∈ texts, Passes depth text.toList := by
  intro text ht
  have hm : parse? text ∈ types.map some := h ▸ List.mem_map_of_mem ht
  obtain ⟨type, -, he⟩ := List.mem_map.mp hm
  exact passes_of_parse? he.symm depth

theorem ReadAs.spells (h : ReadAs texts types) :
    Spells (argumentTokens types) (join ", " texts).toList := by
  induction texts generalizing types with
  | nil =>
    cases types with
    | nil => exact Spells.nil
    | cons type types => exact absurd h.length_eq (by simp)
  | cons text texts ih =>
    cases types with
    | nil => exact absurd h.length_eq (by simp)
    | cons type types =>
      obtain ⟨ht, hts⟩ := readAs_cons.mp h
      have hfirst := spells_of_parse? ht
      cases texts with
      | nil =>
        obtain rfl : types = [] := List.length_eq_zero_iff.mp hts.length_eq.symm
        simpa [argumentTokens] using hfirst
      | cons next texts =>
        have hne : types ≠ [] := fun he => absurd hts.length_eq (by simp [he])
        have hall := hfirst.append ((ih hts).space.mark ',') (head_mark (by decide) _)
        rw [join_cons ", " text (by simp)]
        simpa [argumentTokens, hne] using hall

theorem ReadAs.spells_part (h : ReadAs texts types) :
    Spells (argumentPart types) (renderArguments texts).toList ∧
      ∀ c ∈ (renderArguments texts).toList.head?, isNamePart c = false := by
  match texts, types with
  | [], [] => exact ⟨Spells.nil, by simp [renderArguments]⟩
  | [], type :: types => exact absurd h.length_eq (by simp)
  | text :: texts, [] => exact absurd h.length_eq (by simp)
  | text :: texts, type :: types =>
    have hclosing : Spells [.mark '>'] ['>'] := Spells.nil.mark '>'
    have hinner := (h.spells.append hclosing (head_mark (by decide) [])).mark '<'
    have htext : (renderArguments (text :: texts)).toList =
        '<' :: ((join ", " (text :: texts)).toList ++ ['>']) := by
      simp [renderArguments]
    rw [htext]
    exact ⟨by simpa [argumentPart] using hinner, head_mark (by decide) _⟩

theorem spells_withArguments (h : ReadAs texts types) {names : List String} (hne : names ≠ []) :
    Spells (segmentTokens (withArguments types names))
      (join "." names ++ renderArguments texts).toList := by
  obtain ⟨hpart, hhead⟩ := h.spells_part
  induction names with
  | nil => exact absurd rfl hne
  | cons name names ih =>
    cases names with
    | nil =>
      have hlast := (Spells.name name).append hpart hhead
      rw [withArguments, segmentTokens_cons, join_singleton]
      simpa [segmentPart] using hlast
    | cons second names =>
      have hrest := (ih (by simp)).mark '.'
      have hall := (Spells.name name).append hrest (head_mark (by decide) _)
      rw [withArguments, segmentTokens_cons, join_cons "." name (by simp)]
      · simpa [argumentPart, segmentPart, withArguments_ne_nil types] using hall
      · simp

theorem parse?_applied {root : String} (hr : IsIdentifier root) {names : List String}
    (hne : names ≠ []) (hn : ∀ name ∈ names, IsIdentifier name) (h : ReadAs texts types) :
    parse? (root ++ "::" ++ join "." names ++ renderArguments texts) =
      some (.named (some root) (withArguments types names)) := by
  apply parse?_of_spells
  · exact ⟨by simpa using hr, withArguments_ne_nil types hne, proper_withArguments hn h.proper⟩
  · have hpath := spells_withArguments h hne
    have hall := (Spells.name root).append hpath.colons (head_mark (by decide) _)
    simpa [tokens, String.append_assoc] using hall

end ReadAs

end TypeText

open TypeText

def delegateName (method : Method) : String := if method.returnType.isSome then "Func" else "Action"

namespace CallbackSignature

variable (declaringType : TypeSymbol) (method : Method)

theorem types_ofMethod : (ofMethod declaringType method).types =
    (if method.isStatic then [] else ["global::" ++ declaringType.qualifiedName]) ++
      method.parameters ++ method.returnType.toList := rfl

theorem shape_ofMethod : (ofMethod declaringType method).shape =
    if (ofMethod declaringType method).types.isEmpty then .zero
    else if method.returnType.isSome then .withResult else .noResult := rfl

theorem head_ofMethod :
    (ofMethod declaringType method).head = "global::System." ++ delegateName method := by
  cases hr : method.returnType with
  | none =>
    have hhead : (ofMethod declaringType method).head = actionType := by
      rw [head, shape_ofMethod, hr]
      cases (ofMethod declaringType method).types.isEmpty <;> rfl
    rw [hhead, delegateName, hr]
    rfl
  | some result =>
    have hsome : (ofMethod declaringType method).types.isEmpty = false := by
      simp [types_ofMethod, hr]
    rw [head, shape_ofMethod, hsome, delegateName, hr]
    rfl

theorem methodDelegate_ofMethod : (ofMethod declaringType method).methodDelegate =
    (ofMethod declaringType method).head ++
      renderArguments (ofMethod declaringType method).types := by
  cases ht : (ofMethod declaringType method).types.isEmpty with
  | true =>
    rw [methodDelegate, head, shape_ofMethod, renderArguments, ht]
    rfl
  | false =>
    have hshape : (ofMethod declaringType method).shape ≠ .zero := by
      rw [shape_ofMethod, ht]
      cases method.returnType <;> simp
    rw [methodDelegate, renderArguments, ht]
    split
    next hz => exact absurd hz hshape
    next => simp only [Bool.false_eq_true, if_false, String.append_assoc]

theorem hookDelegate_eq (signature : CallbackSignature) : signature.hookDelegate =
    signature.head ++ renderArguments (signature.methodDelegate :: signature.types) := by
  simp [hookDelegate, renderArguments, String.append_assoc]

variable {declaringType method}

theorem readAs_types (hn : IsPath declaringType.qualifiedName)
    (ht : ∀ text ∈ method.typeTexts, (parse? text).isSome = true) :
    ∃ types, ReadAs (ofMethod declaringType method).types types := by
  apply exists_readAs
  intro text hm
  rw [types_ofMethod, List.append_assoc] at hm
  rcases List.mem_append.mp hm with hr | ht'
  · split at hr
    · exact absurd hr (by simp)
    · obtain ⟨names, hne, hnames, hname⟩ := hn
      obtain rfl := List.mem_singleton.mp hr
      have hglobal : IsIdentifier "global" := by decide
      have hread := parse?_applied hglobal hne hnames (show ReadAs [] [] from rfl)
      have htext : "global" ++ "::" ++ join "." names ++ renderArguments [] =
          "global::" ++ declaringType.qualifiedName := by
        rw [hname]
        simp [renderArguments]
      rw [← htext, hread, Option.isSome_some]
  · exact ht text ht'

variable (declaringType method)

theorem applied_head {texts : List String} {types : List TypeText} (h : ReadAs texts types) :
    parse? ((ofMethod declaringType method).head ++ renderArguments texts) =
        some (.named (some "global") [("System", []), (delegateName method, types)]) ∧
      cutApplied ((ofMethod declaringType method).head ++ renderArguments texts) =
        some ("global::System." ++ delegateName method, texts) := by
  have hname : IsIdentifier (delegateName method) := by
    rw [delegateName]
    split <;> decide
  have hhead : "global" ++ "::" ++ join "." ["System", delegateName method] =
      "global::System." ++ delegateName method := by
    rw [join_cons "." "System" (by simp), join_singleton]
    simp [← String.append_assoc]
  have hopen : '<' ∉ ("global::System." ++ delegateName method).toList := by
    rw [delegateName]
    split <;> decide
  rw [head_ofMethod]
  refine ⟨?_, cutApplied_renderArguments hopen (h.passes 0)⟩
  rw [← hhead]
  exact parse?_applied (by decide) (by simp) (by simpa using ⟨by decide, hname⟩) h

end CallbackSignature

/-- The delegates of a method are read as types to their end, with the types of the call as
arguments, and a cut at the commas outside brackets finds the texts of the same arguments. -/
theorem delegates_carry_signature {declaringType : TypeSymbol} {method : Method}
    (hn : IsPath declaringType.qualifiedName)
    (ht : ∀ text ∈ method.typeTexts, (parse? text).isSome = true) :
    let signature := CallbackSignature.ofMethod declaringType method
    signature.types =
        (if method.isStatic then [] else ["global::" ++ declaringType.qualifiedName]) ++
          method.parameters ++ method.returnType.toList ∧
      cutApplied signature.methodDelegate =
        some ("global::System." ++ delegateName method, signature.types) ∧
      cutApplied signature.hookDelegate = some ("global::System." ++ delegateName method,
        signature.methodDelegate :: signature.types) ∧
      ∃ types original, signature.types.map parse? = types.map some ∧
        parse? signature.methodDelegate = some original ∧
        original = .named (some "global") [("System", []), (delegateName method, types)] ∧
        parse? signature.hookDelegate =
          some (.named (some "global")
            [("System", []), (delegateName method, original :: types)]) := by
  intro signature
  obtain ⟨types, htypes⟩ := CallbackSignature.readAs_types hn ht
  have hmethod := CallbackSignature.applied_head declaringType method htypes
  rw [← CallbackSignature.methodDelegate_ofMethod] at hmethod
  have hhook := CallbackSignature.applied_head declaringType method
    (readAs_cons.mpr ⟨hmethod.1, htypes⟩)
  rw [← CallbackSignature.hookDelegate_eq] at hhook
  exact ⟨rfl, hmethod.2, hhook.2, types, _, htypes, hmethod.1, rfl, hhook.1⟩

def crowdedMethod : Method where
  name := "Store"
  parameters := ["Dictionary<string, List<int[,]>>", " (int a, Pair<A, B> b)? "]
  returnType := some "Pair < A , B > . Node [ , ]"

theorem delegates_carry_signature_crowded :
    IsPath "Game.Player" ∧ (∀ text ∈ crowdedMethod.typeTexts, (parse? text).isSome = true) ∧
      cutApplied (CallbackSignature.ofMethod { name := "Player", namespaceName := some "Game" }
          crowdedMethod).hookDelegate =
        some ("global::System.Func",
          [(CallbackSignature.ofMethod { name := "Player", namespaceName := some "Game" }
              crowdedMethod).methodDelegate,
            "global::Game.Player", "Dictionary<string, List<int[,]>>", " (int a, Pair<A, B> b)? ",
            "Pair < A , B > . Node [ , ]"]) := by
  have hpath : IsPath "Game.Player" := by decide +kernel
  have hread : ∀ text ∈ crowdedMethod.typeTexts, (parse? text).isSome = true := by decide +kernel
  exact ⟨hpath, hread, (delegates_carry_signature (by decide +kernel) hread).2.2.1⟩

end HookEvents
