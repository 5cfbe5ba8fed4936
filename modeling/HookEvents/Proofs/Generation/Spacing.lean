import HookEvents.CSharp.Session
import HookEvents.Proofs.CSharp.SingleType
import HookEvents.Proofs.Generation.Resolve

/-!
Blanks in the names of namespaces. A reference may have blanks around its dots. A namespace may have
them too, but then they stay in the names of its types, and no reference has such a name.
-/
namespace HookEvents

open Text CSharp

section Single

variable (type method : Identifier) {name : String}

theorem qualifiedName_classSymbol (hn : name ≠ "") :
    (classSymbol type method name).qualifiedName = name ++ "." ++ type.text := by
  simp [classSymbol, TypeSymbol.inNamespace, TypeSymbol.qualifiedName, TypeSymbol.nestingChain, hn,
    join_cons]

theorem model_classSymbol (hn : name ≠ "") (wanted : String) :
    (TypeTable.ofList [classSymbol type method name]).model wanted =
      if name ++ "." ++ type.text = wanted then some (classSymbol type method name) else none := by
  have hname := qualifiedName_classSymbol type method hn
  rw [TypeTable.model, (TypeTable.built_ofList [classSymbol type method name]).get?_eq_gather]
  by_cases h : name ++ "." ++ type.text = wanted
  · rw [if_pos h, List.filter_cons_of_pos (by simp [hname, h])]
    rfl
  · rw [if_neg h, List.filter_cons_of_neg (by simp [hname, h])]
    rfl

theorem resolve_classSymbol (hn : name ≠ "") (kind : HookKind) (text : String) :
    resolve (TypeTable.ofList [classSymbol type method name]).model
        ⟨kind, text, name ++ "." ++ type.text, method.text⟩ =
      .ok ⟨kind, classSymbol type method name, { name := method.text }⟩ := by
  refine resolve_eq_ok_iff.mpr ⟨rfl, ?_, ?_, ?_, rfl⟩
  · rw [model_classSymbol type method hn, if_pos rfl]
  · simp [TypeSymbol.methodNamed, TypeSymbol.methods, classSymbol, TypeSymbol.inNamespace,
      Member.method?]
  · simp [TypeSymbol.isOpenIn, TypeSymbol.isGeneric, TypeSymbol.containerNames, classSymbol,
      TypeSymbol.inNamespace, TypeSymbol.containersFrom]

end Single

theorem spaced_namespace_resolves_iff (form : NamespaceForm) (space : SpacedPath)
    (type method : Identifier) (kind : HookKind) (gap : Blanks) {path : SpacedPath}
    (h : path.names = space.names ++ [type.text, method.text]) :
    let model := (TypeTable.ofList (types (form.source space type method))).model
    ∃ reference,
      HookReference.parse (kind.root ++ "." ++ (gap.text ++ path.text)) = some reference ∧
      ((∃ hook, resolve model reference = .ok hook ∧ hook.method.name = method.text ∧
          hook.declaringType.qualifiedName = join "." (space.names ++ [type.text])) ↔
        space.IsTight) ∧
      (¬space.IsTight → resolve model reference = .error .unknownType) := by
  intro model
  have hmodel : model =
      (TypeTable.ofList [classSymbol type method (collapse space.text)]).model := by
    change (TypeTable.ofList (collectTypes (parse (form.source space type method)))).model = _
    rw [form.collectTypes_parse]
  have hne := space.collapse_text_ne_empty
  have hnames : path.names = (space.names ++ [type.text]) ++ [method.text] := by simp [h]
  have hjoin : join "." (space.names ++ [type.text]) =
      join "." space.names ++ "." ++ type.text := by
    have hspace : space.names ≠ [] := List.cons_ne_nil _ _
    rw [join_append "." hspace (List.cons_ne_nil _ _), join_singleton]
  refine ⟨_, path.parse_reference kind gap hnames (by simp), ?_⟩
  rw [hjoin, hmodel]
  by_cases ht : space.IsTight
  · have hcollapse := space.collapse_text_eq_iff.mpr ht
    rw [← hcollapse]
    refine ⟨iff_of_true ⟨_, resolve_classSymbol type method hne kind _, rfl, ?_⟩ ht, ?_⟩
    · exact qualifiedName_classSymbol type method hne
    · intro hloose
      exact absurd ht hloose
  · have hcollapse := mt space.collapse_text_eq_iff.mp ht
    have hunknown : resolve (TypeTable.ofList [classSymbol type method (collapse space.text)]).model
        ⟨kind, kind.root ++ "." ++ (gap.text ++ path.text),
          join "." space.names ++ "." ++ type.text, method.text⟩ = .error .unknownType := by
      have hother : collapse space.text ++ "." ++ type.text ≠
          join "." space.names ++ "." ++ type.text := by
        intro he
        apply hcollapse
        simpa [← String.toList_inj] using he
      rw [resolve, model_classSymbol type method hne, if_neg hother]
    refine ⟨iff_of_false ?_ ht, fun _ => hunknown⟩
    rintro ⟨hook, hok, -⟩
    rw [hunknown] at hok
    exact absurd hok (by simp)

section Samples

def nameA : Identifier := ⟨"A", by decide +kernel, by decide +kernel⟩

def nameB : Identifier := ⟨"B", by decide +kernel, by decide +kernel⟩

def nameT : Identifier := ⟨"T", by decide +kernel, by decide +kernel⟩

def nameM : Identifier := ⟨"M", by decide +kernel, by decide +kernel⟩

def noBlanks : Blanks := ⟨"", by simp⟩

def lineBreak : Blanks := ⟨"\n ", List.all_eq_true.mp (by decide +kernel)⟩

def tightPath : SpacedPath := ⟨nameA, [⟨noBlanks, noBlanks, nameB⟩]⟩

def brokenPath : SpacedPath :=
  ⟨nameA, [⟨noBlanks, noBlanks, nameB⟩, ⟨lineBreak, lineBreak, nameT⟩,
    ⟨lineBreak, noBlanks, nameM⟩]⟩

theorem spaced_namespace_resolves_iff_lines :
    ∃ reference, HookReference.parse "On.\n A.B\n .\n T\n .M" = some reference ∧
      ∃ hook, resolve (TypeTable.ofList (types
          "namespace A.B; class T { void M() { } }")).model reference = .ok hook ∧
        hook.method.name = "M" ∧ hook.declaringType.qualifiedName = "A.B.T" := by
  have hsource : NamespaceForm.fileScoped.source tightPath nameT nameM =
      "namespace A.B; class T { void M() { } }" := by decide +kernel
  have htext : HookKind.subscribe.root ++ "." ++ (lineBreak.text ++ brokenPath.text) =
      "On.\n A.B\n .\n T\n .M" := by decide +kernel
  have hname : join "." (tightPath.names ++ [nameT.text]) = "A.B.T" := by decide +kernel
  have hnames : brokenPath.names = tightPath.names ++ [nameT.text, nameM.text] := rfl
  obtain ⟨reference, hparse, hiff, -⟩ :=
    spaced_namespace_resolves_iff .fileScoped tightPath nameT nameM .subscribe lineBreak hnames
  rw [htext] at hparse
  rw [hsource, hname] at hiff
  exact ⟨reference, hparse, hiff.mpr (by decide)⟩

theorem spaced_namespace_unknown :
    ∃ reference, HookReference.parse "On.A.B.T.M" = some reference ∧
      resolve (TypeTable.ofList (types
        "namespace A . B { class T { void M() { } } }")).model reference =
          .error .unknownType := by
  have hnone : (TypeTable.ofList (types
      "namespace A . B { class T { void M() { } } }")).model "A.B.T" = none := by
    decide +kernel
  refine ⟨⟨.subscribe, "On.A.B.T.M", "A.B.T", "M"⟩, by decide +kernel, ?_⟩
  rw [resolve, hnone]

end Samples

end HookEvents
