import HookEvents.Proofs.Generation.Namesake
import HookEvents.Proofs.Symbol.Roundtrip
import HookEvents.Proofs.TypeText.Idempotent

namespace HookEvents.TypeText

open Text

def voidPath : List (String × List TypeText) := [("System", []), ("Void", [])]

/-- A text, read from inside a type, means the type without values: by its full name, by its full
name without an alias where no inner scope has such a name, or by its own name where the namespace
is the innermost scope that has it. -/
inductive MeansVoid (table : TypeTable) (qualified text : String) : Prop
  | aliased (h : parse? text = some (.named (some "global") voidPath))
  | full (h : parse? text = some (.named none voidPath))
    (ho : ∀ scope, FoundIn table qualified "System.Void" 0 scope → scope = "")
  | short (h : parse? text = some (.named none [("Void", [])]))
    (hf : FoundIn table qualified "Void" 0 "System")
    (hl : ∀ other, FoundIn table qualified "Void" 0 other → other.length ≤ "System".length)

def voidTexts : List String := ["", "void", "System.Void", "global::System.Void"]

theorem isVoidText_iff {text : String} :
    Method.isVoidText text = true ↔ trim text ∈ voidTexts := by
  simp [Method.isVoidText, Method.voidNames, voidTexts]

theorem not_isVoidText_of_mem {text : String} {c : Char} (hc : c ∈ text.toList)
    (hm : c ∈ ['(', '<', ']', '?', '*']) : Method.isVoidText text = false := by
  -- dots and colons are the only marks in the names of void
  have hmarks : ['(', '<', ']', '?', '*'].all (fun mark => !isBlank mark &&
      voidTexts.all fun name => !name.toList.contains mark) = true := by decide +kernel
  have hmark := List.all_eq_true.mp hmarks c hm
  rw [Bool.and_eq_true, Bool.not_eq_true', List.all_eq_true] at hmark
  rw [Bool.eq_false_iff]
  intro hvoid
  have hnone := hmark.2 _ (isVoidText_iff.mp hvoid)
  rw [Bool.not_eq_true', ← Bool.not_eq_true, List.contains_iff_mem] at hnone
  exact hnone (mem_trim hc hmark.1)

section Names

variable {names : List String}

theorem IsIdentifier.not_blank {name : String} (h : IsIdentifier name) :
    ∀ c ∈ name.toList, isBlank c = false := by
  obtain ⟨first, rest, hname, hfirst, hrest⟩ := h
  intro c hc
  rw [Bool.eq_false_iff]
  intro hb
  obtain ⟨hstart, hpart⟩ := not_name_of_isBlank hb
  rw [hname] at hc
  rcases List.mem_cons.mp hc with rfl | hc
  · exact absurd hfirst (by simp [hstart])
  · exact absurd (hrest c hc) (by simp [hpart])

theorem join_not_blank (h : ∀ name ∈ names, IsIdentifier name) :
    ∀ c ∈ (join "." names).toList, isBlank c = false :=
  forall_mem_join dot_not_blank fun name hn => (h name hn).not_blank

theorem split_join_identifiers (hne : names ≠ []) (h : ∀ name ∈ names, IsIdentifier name) :
    split '.' (join "." names) = names :=
  split_join_of_not_mem rfl hne fun name hn => (h name hn).not_mem_of_mem_marks (by decide)

theorem eq_of_isVoidText_join (hne : names ≠ []) (h : ∀ name ∈ names, IsIdentifier name)
    (hv : Method.isVoidText (join "." names) = true) :
    names = ["void"] ∨ names = ["System", "Void"] := by
  rw [isVoidText_iff, trim_of_not_blank (join_not_blank h)] at hv
  have hsplit : names ∈ voidTexts.map (split '.') := by
    rw [← split_join_identifiers hne h]
    exact List.mem_map_of_mem hv
  have hcases : voidTexts.map (split '.') =
      [[""], ["void"], ["System", "Void"], ["global::System", "Void"]] := by decide +kernel
  have hempty : ¬IsIdentifier "" := by
    rw [isIdentifier_iff]
    decide
  have hcolons : ¬IsIdentifier "global::System" := fun hi =>
    hi.not_mem_of_mem_marks (c := ':') (by decide) (by decide)
  rw [hcases] at hsplit
  simp only [List.mem_cons, List.not_mem_nil, or_false] at hsplit
  rcases hsplit with rfl | rfl | rfl | rfl
  · exact absurd (h "" (by simp)) hempty
  · exact Or.inl rfl
  · exact Or.inr rfl
  · exact absurd (h "global::System" (by simp)) hcolons

theorem eq_of_isVoidText_colons {root path : String} (hr : ':' ∉ root.toList)
    (hh : ∀ c ∈ (root ++ "::" ++ path).toList.head?, isBlank c = false)
    (hl : ∀ c ∈ (root ++ "::" ++ path).toList.getLast?, isBlank c = false)
    (hv : Method.isVoidText (root ++ "::" ++ path) = true) :
    root = "global" ∧ path = "System.Void" := by
  rw [isVoidText_iff, trim_eq_self hh hl] at hv
  have hcolon : ':' ∈ (root ++ "::" ++ path).toList := by simp
  have hname : root ++ "::" ++ path = "global::System.Void" := by
    have hothers : ∀ name ∈ voidTexts, ':' ∈ name.toList → name = "global::System.Void" := by decide
    exact hothers _ hv hcolon
  have hsplit : split ':' (root ++ ":" ++ ("" ++ ":" ++ path)) =
      split ':' root ++ (split ':' "" ++ split ':' path) := by
    rw [split_append rfl, split_append rfl]
  have hsame : root ++ ":" ++ ("" ++ ":" ++ path) = "global::System.Void" := by
    rw [← hname]
    simp [← String.toList_inj]
  have hcut : split ':' "global::System.Void" = ["global", "", "System.Void"] := by decide
  rw [hsame, hcut, split_of_not_mem hr] at hsplit
  obtain ⟨hroot, hrest⟩ := List.cons.inj hsplit
  have hpath : split ':' path = ["System.Void"] := (List.cons.inj hrest).2.symm
  have hjoin : join ":" (split ':' path) = path := join_split rfl path
  rw [hpath, join_singleton] at hjoin
  exact ⟨hroot.symm, hjoin.symm⟩

end Names

theorem mem_renderSegments {segment : String × List TypeText}
    {segments : List (String × List TypeText)} (h : segment ∈ segments) :
    segment.1 ++ renderArguments (renderAll segment.2) ∈ renderSegments segments := by
  induction segments with
  | nil => exact absurd h List.not_mem_nil
  | cons first segments ih =>
    rw [renderSegments]
    rcases List.mem_cons.mp h with rfl | h
    · exact List.mem_cons_self
    · exact List.mem_cons_of_mem _ (ih h)

theorem angle_mem_join {segment : String × List TypeText}
    {segments : List (String × List TypeText)} (h : segment ∈ segments) (ha : segment.2 ≠ []) :
    '<' ∈ (join "." (renderSegments segments)).toList := by
  apply mem_toList_join (mem_renderSegments h)
  cases hs : segment.2 with
  | nil => exact absurd hs ha
  | cons type types => simp [renderAll, renderArguments]

theorem eq_plain_of_arguments_nil {segments : List (String × List TypeText)}
    (h : ∀ segment ∈ segments, segment.2 = []) :
    segments = (segments.map (·.1)).map fun name => (name, []) := by
  rw [List.map_map]
  refine (map_eq_self ?_).symm
  intro segment hs
  exact Prod.ext rfl (h segment hs).symm

theorem identifiers_of_properSegments {segments : List (String × List TypeText)}
    (h : ProperSegments segments) : ∀ name ∈ segments.map (·.1), IsIdentifier name := by
  induction segments with
  | nil => simp
  | cons segment segments ih =>
    rw [List.map_cons, List.forall_mem_cons]
    exact ⟨h.1, ih h.2.2⟩

section Qualified

variable {table : TypeTable} {qualified : String}

theorem render_qualify_aliased (lookup : Lookup) (root : String) (names : List String) :
    ((TypeText.named (some root) (names.map fun name => (name, []))).qualify lookup).render =
      root ++ "::" ++ join "." names := by
  rw [qualify, qualifySegments_eq_map, List.map_map, render]
  exact congrArg (root ++ "::" ++ join "." ·) (renderSegments_plain names)

theorem eq_of_isVoidText_aliased {lookup : Lookup} {root : String}
    {segments : List (String × List TypeText)} (hp : (TypeText.named (some root) segments).Proper)
    (hv : Method.isVoidText ((TypeText.named (some root) segments).qualify lookup).render = true) :
    root = "global" ∧ segments = voidPath := by
  obtain ⟨hroot, hne, hsegments⟩ := hp
  have hidentifiers := identifiers_of_properSegments hsegments
  have hnames : segments.map (·.1) ≠ [] := by simpa using hne
  have hplain : ∀ segment ∈ segments, segment.2 = [] := by
    intro segment hs
    by_contra ha
    have hmem : (segment.1, qualifyAll lookup segment.2) ∈ qualifySegments lookup segments := by
      rw [qualifySegments_eq_map]
      exact List.mem_map_of_mem hs
    have hangle := angle_mem_join hmem (by simpa [qualifyAll_eq_map] using ha)
    rw [not_isVoidText_of_mem (c := '<') (by simp [qualify, render, hangle]) (by simp)] at hv
    exact absurd hv (by simp)
  rw [eq_plain_of_arguments_nil hplain] at hv ⊢
  generalize segments.map (·.1) = names at *
  have hroot := hroot root rfl
  have hblank : ∀ c ∈ (root ++ "::" ++ join "." names).toList, isBlank c = false := by
    intro c hc
    simp only [String.toList_append, List.mem_append] at hc
    rcases hc with (hc | hc) | hc
    · exact hroot.not_blank c hc
    · obtain rfl : c = ':' := by simpa using hc
      decide
    · exact join_not_blank hidentifiers c hc
  rw [render_qualify_aliased] at hv
  obtain ⟨rfl, hpath⟩ := eq_of_isVoidText_colons (hroot.not_mem_of_mem_marks (by decide))
    (fun c hc => hblank c (List.mem_of_head? hc)) (fun c hc => hblank c (List.mem_of_getLast? hc)) hv
  have hsplit := split_join_identifiers hnames hidentifiers
  have hcut : split '.' "System.Void" = ["System", "Void"] := by decide
  rw [hpath, hcut] at hsplit
  rw [← hsplit]
  exact ⟨rfl, rfl⟩

theorem plain_of_isVoidText {lookup : Lookup} {segments : List (String × List TypeText)}
    (hv : Method.isVoidText ((TypeText.named none segments).qualify lookup).render = true) :
    ∀ segment ∈ segments, segment.2 = [] := by
  intro segment hs
  by_contra ha
  have hall : qualifyAll lookup segment.2 ≠ [] := by simpa [qualifyAll_eq_map] using ha
  have hangle : '<' ∈ ((TypeText.named none segments).qualify lookup).render.toList := by
    rw [qualify_plain]
    cases hfind : find lookup segments with
    | none =>
      have hmem : (segment.1, qualifyAll lookup segment.2) ∈ qualifySegments lookup segments := by
        rw [qualifySegments_eq_map]
        exact List.mem_map_of_mem hs
      exact angle_mem_join hmem hall
    | some name =>
      -- the arguments are those of the last segment, which the found name takes over
      obtain ⟨⟨path, arity⟩, hkey, -⟩ := Option.bind_eq_some_iff.mp hfind
      obtain ⟨front, last, arguments, rfl, hfront, -, -⟩ := lookupKey_eq_some_iff.mp hkey
      obtain rfl : segment = (last, arguments) := by
        rcases List.mem_append.mp hs with hs | hs
        · exact absurd (hfront segment hs) ha
        · exact List.mem_singleton.mp hs
      have hlast : ((qualifySegments lookup (front ++ [(last, arguments)])).getLast?.map
          (·.2)).getD [] = qualifyAll lookup arguments := by
        rw [qualifySegments_eq_map, List.map_append, List.map_singleton, List.getLast?_concat]
        rfl
      rw [qualifiedName, hlast, render]
      simp only [String.toList_append, List.mem_append]
      right
      obtain ⟨scope, own, hname⟩ : ∃ scope own, split '.' name = scope ++ [own] :=
        ⟨_, _, (List.dropLast_concat_getLast (split_ne_nil '.' name)).symm⟩
      have hmem : (own, qualifyAll lookup arguments) ∈
          withArguments (qualifyAll lookup arguments) (split '.' name) := by
        rw [hname, withArguments_concat]
        exact List.mem_append_right _ (List.mem_singleton_self _)
      exact angle_mem_join hmem hall
  rw [not_isVoidText_of_mem hangle (by simp)] at hv
  exact absurd hv (by simp)

theorem getLast?_append_not_blank {front back : String} (hb : back ≠ "")
    (h : ∀ c ∈ back.toList, isBlank c = false) :
    ∀ c ∈ (front ++ back).toList.getLast?, isBlank c = false := by
  have hne : back.toList ≠ [] := fun he => hb (String.toList_inj.mp he)
  rw [String.toList_append, List.getLast?_append, List.getLast?_eq_some_getLast hne]
  rintro c hc
  obtain rfl := Option.some.inj hc
  exact h _ (List.getLast_mem hne)

theorem cases_of_isVoidText_plain {names : List String} (hne : names ≠ [])
    (h : ∀ name ∈ names, IsIdentifier name)
    (hv : Method.isVoidText
      ((plainName names).qualify (table.lookup (enclosingScopes qualified))).render = true) :
    names = ["void"] ∨
      (names = ["System", "Void"] ∧
        ∀ scope, FoundIn table qualified "System.Void" 0 scope → scope = "") ∨
      (names = ["Void"] ∧ FoundIn table qualified "Void" 0 "System" ∧
        ∀ other, FoundIn table qualified "Void" 0 other → other.length ≤ "System".length) := by
  rw [render_qualify_plainName _ hne] at hv
  rcases lookup_cases table qualified (join "." names) 0 with
    ⟨hnone, hmissing⟩ | ⟨scope, hsome, hfound, hlongest⟩
  · rw [hnone] at hv
    rcases eq_of_isVoidText_join hne h hv with rfl | rfl
    · exact Or.inl rfl
    · exact Or.inr (Or.inl ⟨rfl, fun scope hs => absurd hs (hmissing scope)⟩)
  · rw [hsome] at hv
    obtain ⟨front, hfront⟩ : ∃ front, TypeSymbol.qualifyIn scope (join "." names) =
        front ++ join "." names := by
      rw [TypeSymbol.qualifyIn]
      split
      · exact ⟨"", by simp⟩
      · exact ⟨scope ++ ".", rfl⟩
    have hpath : join "." names ≠ "" :=
      join_ne_empty hne fun name hn => fun he => (h name hn).toList_ne_nil (by simp [he])
    have hlast : ∀ c ∈ ("global" ++ "::" ++ TypeSymbol.qualifyIn scope (join "." names)).toList.getLast?,
        isBlank c = false := by
      rw [hfront, ← String.append_assoc]
      exact getLast?_append_not_blank hpath (join_not_blank h)
    have hhead : ∀ c ∈ ("global" ++ "::" ++
        TypeSymbol.qualifyIn scope (join "." names)).toList.head?, isBlank c = false := by
      intro c hc
      obtain rfl : 'g' = c := by simpa using hc
      decide +kernel
    have hname := (eq_of_isVoidText_colons (by decide) hhead hlast hv).2
    have hparts := split_qualifyIn scope hne fun name hn =>
      (h name hn).not_mem_of_mem_marks (by decide)
    have hcut : split '.' "System.Void" = ["System", "Void"] := by decide
    rw [hname, hcut] at hparts
    right
    by_cases hs : scope = ""
    · obtain rfl : names = ["System", "Void"] := by simpa [hs] using hparts.symm
      refine Or.inl ⟨rfl, fun other ho => ?_⟩
      have hlength := hlongest other ho
      rw [hs] at hlength
      simpa using hlength
    · obtain ⟨first, rest, hscope⟩ := List.exists_cons_of_ne_nil (split_ne_nil '.' scope)
      obtain ⟨own, more, rfl⟩ := List.exists_cons_of_ne_nil hne
      rw [if_neg hs, hscope] at hparts
      obtain ⟨rfl, rfl, rfl, rfl⟩ : "System" = first ∧ [] = rest ∧ "Void" = own ∧ [] = more := by
        cases rest <;> simp_all
      have hjoin : join "." (split '.' scope) = scope := join_split rfl scope
      rw [hscope, join_singleton] at hjoin
      obtain rfl := hjoin
      exact Or.inr ⟨rfl, hfound, hlongest⟩

theorem isVoidText_of_parse?_void {text : String} (h : parse? text = some (plainName ["void"])) :
    Method.isVoidText text = true := by
  obtain ⟨-, rest, hs, hrest⟩ := parse?_tokens h
  obtain ⟨blanks, tail, hblanks, htext, -, rfl⟩ := hs
  have hvoid : ∀ c ∈ "void".toList, isBlank c = false := by
    have hall : "void".toList.all (!isBlank ·) = true := by decide +kernel
    intro c hc
    simpa using List.all_eq_true.mp hall c hc
  have htrim : trim (String.ofList (blanks ++ ("void".toList ++ tail))) = "void" :=
    trim_eq hblanks hrest (fun c hc => hvoid c (List.mem_of_head? hc))
      fun c hc => hvoid c (List.mem_of_getLast? hc)
  have hsame : String.ofList (blanks ++ ("void".toList ++ tail)) = text := by
    rw [← String.toList_inj, htext, String.toList_ofList]
    rfl
  rw [isVoidText_iff, ← hsame, htrim]
  decide

theorem prefix_of_isScope {qualified scope : String} (h : IsScope qualified scope) :
    scope.toList <+: qualified.toList := by
  rcases h with rfl | ⟨rest, rfl⟩ | rfl
  · exact List.prefix_rfl
  · rw [String.append_assoc, String.toList_append]
    exact List.prefix_append _ _
  · exact List.nil_prefix

theorem eq_of_isScope {qualified scope other : String} (h : IsScope qualified scope)
    (ho : IsScope qualified other) (hl : scope.length = other.length) : scope = other := by
  have hlength : scope.toList.length = other.toList.length := by
    rw [String.length_toList, String.length_toList, hl]
  have hstart := List.prefix_of_prefix_length_le (prefix_of_isScope h) (prefix_of_isScope ho)
    (Nat.le_of_eq hlength)
  exact String.toList_inj.mp (hstart.eq_of_length hlength)

theorem isVoidText_of_meansVoid {text : String} (h : MeansVoid table qualified text) :
    Method.isVoidText (qualifyText (table.lookup (enclosingScopes qualified)) text) = true := by
  have hpath : join "." ["System", "Void"] = "System.Void" := by decide
  have hspelled : Method.isVoidText "System.Void" = true := by decide +kernel
  have haliased : Method.isVoidText ("global::" ++ "System.Void") = true := by decide +kernel
  cases h with
  | aliased h =>
    have hrender := render_qualify_aliased (table.lookup (enclosingScopes qualified)) "global"
      ["System", "Void"]
    rw [hpath] at hrender
    rw [qualifyText_of_read h]
    exact hrender ▸ haliased
  | full h ho =>
    have hrender : ((plainName ["System", "Void"]).qualify
        (table.lookup (enclosingScopes qualified))).render = _ := render_qualify_plainName _ (by simp)
    rw [hpath] at hrender
    rw [qualifyText_of_read h]
    refine hrender ▸ ?_
    rcases lookup_cases table qualified "System.Void" 0 with ⟨hnone, -⟩ | ⟨scope, hsome, hfound, -⟩
    · rw [hnone]
      exact hspelled
    · rw [hsome, ho scope hfound]
      exact haliased
  | short h hf hl =>
    have hrender : ((plainName ["Void"]).qualify
        (table.lookup (enclosingScopes qualified))).render = _ := render_qualify_plainName _ (by simp)
    rw [join_singleton] at hrender
    rw [qualifyText_of_read h]
    refine hrender ▸ ?_
    rcases lookup_cases table qualified "Void" 0 with ⟨-, hnone⟩ | ⟨scope, hsome, hfound, hlongest⟩
    · exact absurd hf (hnone "System")
    · obtain rfl : scope = "System" :=
        eq_of_isScope hfound.1 hf.1 (Nat.le_antisymm (hl scope hfound) (hlongest "System" hf))
      rw [hsome]
      exact haliased

theorem isVoidText_qualifyText_iff {text : String} (h : Method.isVoidText text = false) :
    Method.isVoidText (qualifyText (table.lookup (enclosingScopes qualified)) text) = true ↔
      MeansVoid table qualified text := by
  refine ⟨fun hv => ?_, isVoidText_of_meansVoid⟩
  cases hp : parse? text with
  | none =>
    rw [qualifyText_of_unread hp, h] at hv
    exact absurd hv (by simp)
  | some type =>
    rw [qualifyText_of_read hp] at hv
    have hproper := parse?_proper hp
    cases type with
    | named root segments =>
      cases root with
      | some root =>
        obtain ⟨rfl, rfl⟩ := eq_of_isVoidText_aliased hproper hv
        exact .aliased hp
      | none =>
        have hplain := eq_plain_of_arguments_nil (plain_of_isVoidText hv)
        have hnames : segments.map (·.1) ≠ [] := by simpa using hproper.2.1
        have hidentifiers := identifiers_of_properSegments hproper.2.2
        rw [hplain] at hv hp
        rcases cases_of_isVoidText_plain hnames hidentifiers hv with
          hvoid | ⟨hfull, ho⟩ | ⟨hshort, hf, hl⟩
        · rw [hvoid] at hp
          rw [isVoidText_of_parse?_void hp] at h
          exact absurd h (by simp)
        · rw [hfull] at hp
          exact .full hp ho
        · rw [hshort] at hp
          exact .short hp hf hl
    | tuple elements =>
      rw [not_isVoidText_of_mem (c := '(') (by simp [qualify, render]) (by simp)] at hv
      exact absurd hv (by simp)
    | suffixed element suffix =>
      have hmark : ∃ c ∈ ['(', '<', ']', '?', '*'], c ∈ suffix.render.toList := by
        cases suffix <;> simp [TypeSuffix.render]
      obtain ⟨c, hc, hsuffix⟩ := hmark
      rw [not_isVoidText_of_mem (by simp [qualify, render, hsuffix]) hc] at hv
      exact absurd hv (by simp)

end Qualified

end HookEvents.TypeText
