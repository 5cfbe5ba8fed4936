import HookEvents.CSharp.Session
import HookEvents.Generation.Signature
import HookEvents.Proofs.Text.Blank
import HookEvents.Proofs.Text.Split

/-!
The parameters of a collected method are those of its declaration, but for parameter arrays: their
parts stand in the list by themselves, where no parameter is looked for.
-/
namespace HookEvents.CSharp

open Text

def wordsOf (text : String) : List String := (words text.toList).map String.ofList

/-- A parameter of a declaration. The words in the place of its type are those of the type, behind
some that only say how it is passed. -/
structure Formal where
  passing : List String
  type : List String
  isArray : Bool
  passing_known : ∀ word ∈ passing, word ∈ passingWords
  type_ne_nil : type ≠ []
  type_first : ∀ first next rest, type = first :: next :: rest → first ∉ passingWords

namespace Formal

def typeText (formal : Formal) : String := join " " formal.type

def WrittenIn (formal : Formal) (node : Node) : Prop :=
  wordsOf node.text = formal.passing ++ formal.type

theorem dropPassingWords_eq (formal : Formal) :
    dropPassingWords (formal.passing ++ formal.type) = formal.type := by
  obtain ⟨passing, type, isArray, hknown, hne, hfirst⟩ := formal
  induction passing with
  | nil =>
    match type, hne, hfirst with
    | [word], _, _ => rfl
    | first :: next :: rest, _, hfirst =>
      have hnot : passingWords.contains first = false := by
        simpa using hfirst first next rest rfl
      rw [List.nil_append, dropPassingWords, hnot]
      rfl
  | cons word passing ih =>
    have hword : passingWords.contains word = true := by
      simpa using hknown word List.mem_cons_self
    have hrest := ih fun other ho => hknown other (List.mem_cons_of_mem _ ho)
    cases hw : passing ++ type with
    | nil => exact absurd (List.append_eq_nil_iff.mp hw).2 hne
    | cons next rest =>
      dsimp only at hrest ⊢
      rw [List.cons_append, hw, dropPassingWords, if_pos hword, ← hw]
      exact hrest

theorem parameterType_plainText {formal : Formal} {node : Node} (h : formal.WrittenIn node) :
    parameterType (plainText node) = formal.typeText := by
  have hwords : (words (plainText node).toList).map String.ofList =
      formal.passing ++ formal.type := by
    rw [plainText, words_collapse]
    exact h
  rw [parameterType, hwords, dropPassingWords_eq, typeText]

theorem plainText_ne_empty {formal : Formal} {node : Node} (h : formal.WrittenIn node) :
    plainText node ≠ "" := by
  intro hempty
  have hwords : wordsOf node.text = [] := by
    rw [wordsOf, ← words_collapse, ← plainText, hempty]
    rfl
  rw [h] at hwords
  exact formal.type_ne_nil (List.append_eq_nil_iff.mp hwords).2

end Formal

/-- How parameters stand in a list. An ordinary one is a node of its own, which holds its type; the
type of a parameter array stands in the list itself. -/
inductive Lists : List Node → List Formal → Prop
  | nil : Lists [] []
  | ordinary {node type : Node} {nodes : List Node} {formal : Formal} {formals : List Formal}
      (hk : node.kind = .parameter) (ht : node.childFor? .type = some type)
      (hw : formal.WrittenIn type) (ha : formal.isArray = false) (h : Lists nodes formals) :
      Lists (node :: nodes) (formal :: formals)
  | array {type : Node} {nodes : List Node} {formal : Formal} {formals : List Formal}
      (hk : type.kind ≠ .parameter) (hr : type.role = some .type) (hw : formal.WrittenIn type)
      (ha : formal.isArray = true) (h : Lists nodes formals) :
      Lists (type :: nodes) (formal :: formals)
  /-- Attributes, comments, and the name of a parameter array. -/
  | aside {node : Node} {nodes : List Node} {formals : List Formal}
      (hk : node.kind ≠ .parameter) (hr : node.role ≠ some .type) (h : Lists nodes formals) :
      Lists (node :: nodes) formals

theorem parameterTypes_eq {list : Node} {formals : List Formal} (h : Lists list.children formals) :
    parameterTypes list = (formals.filter fun formal => !formal.isArray).map Formal.typeText := by
  rw [parameterTypes]
  generalize list.children = nodes at h
  induction h with
  | nil => rfl
  | @ordinary node type nodes formal formals hk ht hw ha _ ih =>
    have htext : textFor? node .type = some (plainText type) := by
      rw [textFor?, ht]
      simp [Option.filter, Formal.plainText_ne_empty hw]
    rw [List.filter_cons_of_pos (by simp [hk]),
      List.filterMap_cons_some (f := fun child => textFor? child .type) htext, List.map_cons, ih,
      List.filter_cons_of_pos (by simp [ha]), List.map_cons, Formal.parameterType_plainText hw]
  | array hk _ _ ha _ ih =>
    rw [List.filter_cons_of_neg (by simp [hk]), ih, List.filter_cons_of_neg (by simp [ha])]
  | aside hk _ _ ih => rw [List.filter_cons_of_neg (by simp [hk]), ih]

theorem filter_eq_self_iff {formals : List Formal} :
    (formals.filter fun formal => !formal.isArray).length = formals.length ↔
      ∀ formal ∈ formals, formal.isArray = false := by
  simp only [List.length_filter_eq_length_iff, Bool.not_eq_true']

/-- Exactly the ordinary parameters of a method declaration reach its symbol and its delegate, with
the words of their types; so all of them do where there is no parameter array. -/
theorem collected_parameters_exact {node list : Node} {name : String} {formals : List Formal}
    (hk : node.kind = .methodDeclaration) (hn : textFor? node .name = some name)
    (hl : node.childFor? .parameters = some list) (hf : Lists list.children formals) :
    ∃ method, membersOf node = [.method method] ∧ method.name = name ∧
      (∀ scope typeName type body, body? type = some body → node ∈ body.children →
        .method method ∈ (symbolOf scope typeName type).members) ∧
      method.parameters = (formals.filter fun formal => !formal.isArray).map Formal.typeText ∧
      (method.parameters.length = formals.length ↔ ∀ formal ∈ formals, formal.isArray = false) ∧
      (method.parameters = formals.map Formal.typeText ↔
        ∀ formal ∈ formals, formal.isArray = false) ∧
      ∀ symbol, (CallbackSignature.ofMethod symbol method).types =
        (if method.isStatic then [] else [CallbackSignature.instanceType symbol]) ++
          (formals.filter fun formal => !formal.isArray).map Formal.typeText ++
          method.returnType.toList := by
  obtain ⟨method, hm⟩ : ∃ method, method? node = some method := by
    rw [method?, hn]
    exact ⟨_, rfl⟩
  have hparameters :
      method.parameters = (formals.filter fun formal => !formal.isArray).map Formal.typeText := by
    rw [← parameterTypes_eq hf]
    rw [method?, hn, hl] at hm
    rw [← Option.some.inj hm]
    rfl
  have hname : method.name = name := by
    rw [method?, hn] at hm
    rw [← Option.some.inj hm]
    rfl
  have hmember : membersOf node = [.method method] := by
    rw [membersOf, hk, hm]
    rfl
  have hlength : method.parameters.length = formals.length ↔
      ∀ formal ∈ formals, formal.isArray = false := by
    rw [hparameters, List.length_map, filter_eq_self_iff]
  refine ⟨method, hmember, hname, ?_, hparameters, hlength, ?_, ?_⟩
  · intro scope typeName type body hb hin
    have hmembers : (symbolOf scope typeName type).members =
        (body.children.map membersOf).flatten := by
      rw [symbolOf, hb]
      rfl
    rw [hmembers, List.mem_flatten]
    exact ⟨_, List.mem_map_of_mem hin, by rw [hmember]; exact List.mem_singleton_self _⟩
  · constructor
    · intro he
      rw [← hlength, he, List.length_map]
    · intro hall
      rw [hparameters, List.filter_eq_self.mpr fun formal hm => by simp [hall formal hm]]
  · intro symbol
    rw [← hparameters]
    rfl

def sampleFormals : List Formal :=
  [{ passing := ["ref"], type := ["int"], isArray := false, passing_known := by decide
     type_ne_nil := by decide, type_first := by simp },
    { passing := [], type := ["Map<string,", "int>"], isArray := false, passing_known := by simp
      type_ne_nil := by decide
      type_first := by
        rintro first next rest h
        obtain ⟨rfl, -⟩ := List.cons.inj h
        decide },
    { passing := [], type := ["string[]"], isArray := true, passing_known := by simp
      type_ne_nil := by decide, type_first := by simp }]

def sampleMethod : Node :=
  .mk .methodDeclaration none ""
    [.mk .identifier (some .name) "M" [],
      .mk .parameterList (some .parameters) ""
        [.mk .parameter none ""
            [.mk .other none "[In]" [], .mk .other (some .type) "ref int" [],
              .mk .identifier (some .name) "count" []],
          .mk .other none "/* empty */" [],
          .mk .parameter none ""
            [.mk .other (some .type) "Map<string,\n  int>" [],
              .mk .identifier (some .name) "map" [], .mk .other none "null" []],
          .mk .other (some .type) "string[]" [], .mk .identifier (some .name) "rest" []]]

theorem lists_sampleMethod :
    ∃ list, sampleMethod.childFor? .parameters = some list ∧ Lists list.children sampleFormals := by
  refine ⟨_, rfl, ?_⟩
  refine .ordinary rfl rfl ?_ rfl (.aside nofun nofun (.ordinary rfl rfl ?_ rfl
    (.array nofun rfl ?_ rfl (.aside nofun nofun .nil))))
  · show wordsOf "ref int" = _
    decide +kernel
  · show wordsOf "Map<string,\n  int>" = _
    decide +kernel
  · show wordsOf "string[]" = _
    decide +kernel

theorem collected_parameters_exact_sample :
    ∃ list, sampleMethod.childFor? .parameters = some list ∧ Lists list.children sampleFormals ∧
      ∃ method, membersOf sampleMethod = [.method method] ∧
        method.parameters = ["int", "Map<string, int>"] ∧
        method.parameters.length ≠ sampleFormals.length := by
  obtain ⟨list, hl, hf⟩ := lists_sampleMethod
  have hn : textFor? sampleMethod .name = some "M" := by decide +kernel
  obtain ⟨method, hm, -, -, hp, -, -⟩ := collected_parameters_exact rfl hn hl hf
  have htexts : method.parameters = ["int", "Map<string, int>"] := hp.trans (by decide +kernel)
  exact ⟨list, hl, hf, method, hm, htexts, by rw [htexts]; decide⟩

theorem parameter_array_is_lost :
    ((types "class A { void M(int a, params string[] rest) { } }").map fun symbol =>
      symbol.methods.map fun method =>
        (method.parameters, (CallbackSignature.ofMethod symbol method).types)) =
      [[(["int"], ["global::A", "int"])]] := by
  decide +kernel

end HookEvents.CSharp
