import HookEvents.Generation.Signature
import HookEvents.Proofs.CSharp.Collected
import HookEvents.Proofs.Generation.Described
import HookEvents.Proofs.Symbol.Merge
import HookEvents.Proofs.TypeText.Table
import HookEvents.Proofs.TypeText.Void

/-!
Results of methods. Whatever makes a type takes the names of void for the absence of a result, but
qualification comes later and can make such a name of a text that was none.
-/
namespace HookEvents

open Text

theorem Member.namesResults_reread (member : Member) : member.reread.NamesResults := by
  cases member with
  | method m =>
    intro text ht
    obtain ⟨_, -, hresult⟩ := Option.bind_eq_some_iff.mp ht
    exact Method.isVoidText_of_returnTypeOf hresult
  | field _ | property _ | nestedType _ => trivial

theorem TypeSymbol.namesResults_built (fields : TypeSymbol) :
    ∀ member ∈ fields.built.members, member.NamesResults := by
  rw [fields.built_eq]
  intro member hm
  obtain ⟨other, -, rfl⟩ := List.mem_map.mp hm
  exact other.namesResults_reread

namespace TypeTable

instance : DecidablePred NamesResults := fun table =>
  inferInstanceAs (Decidable (∀ symbol ∈ table.types, ∀ method ∈ symbol.methods,
    ∀ text ∈ method.returnType, trim text ∉ ["", "void", "System.Void", "global::System.Void"]))

theorem NamesResults.insertAll {table : TypeTable} (h : table.NamesResults)
    {symbols : List TypeSymbol}
    (hs : ∀ symbol ∈ symbols, ∀ member ∈ symbol.members, member.NamesResults) :
    (table.insertAll symbols).NamesResults := by
  rw [namesResults_iff] at h ⊢
  intro entry he member hm
  obtain ⟨symbol, hsymbol, hm⟩ := (table.built_types.insertAll symbols).exists_of_mem_members he hm
  rcases List.mem_append.mp hsymbol with hsymbol | hsymbol
  · exact h symbol hsymbol member hm
  · exact hs symbol hsymbol member hm

theorem NamesResults.insert {table : TypeTable} (h : table.NamesResults) {symbol : TypeSymbol}
    (hs : ∀ member ∈ symbol.members, member.NamesResults) : (table.insert symbol).NamesResults := by
  have hall : ∀ other ∈ [symbol], ∀ member ∈ other.members, member.NamesResults := by
    intro other ho
    rwa [List.mem_singleton.mp ho]
  exact h.insertAll hall

def MeansVoid (table : TypeTable) : Prop :=
  ∃ symbol ∈ table.types, ∃ method ∈ symbol.methods, ∃ text ∈ method.returnType,
    TypeText.MeansVoid table symbol.qualifiedName text

theorem NamesResults.qualifyTypes_iff {table : TypeTable} (h : table.NamesResults) :
    table.qualifyTypes.NamesResults ↔ ¬table.MeansVoid := by
  constructor
  · rintro hq ⟨symbol, hs, method, hm, text, ht, hvoid⟩
    have hsymbol : symbol.qualifyTypes table ∈ table.qualifyTypes.types := by
      rw [types_qualifyTypes]
      exact List.mem_map_of_mem hs
    have hmethod : method.mapTypes (table.qualifyTextIn symbol) ∈
        (symbol.qualifyTypes table).methods := by
      rw [TypeSymbol.qualifyTypes_eq, TypeSymbol.methods_mapTypes]
      exact List.mem_map_of_mem hm
    have htext : table.qualifyTextIn symbol text ∈
        (method.mapTypes (table.qualifyTextIn symbol)).returnType :=
      Option.mem_map_of_mem _ ht
    have hnot := isVoidText_eq_false_iff.mpr (hq _ hsymbol _ hmethod _ htext)
    rw [qualifyTextIn, TypeText.isVoidText_of_meansVoid hvoid] at hnot
    exact absurd hnot (by simp)
  · intro hnot symbol hs method hm text ht
    rw [types_qualifyTypes] at hs
    obtain ⟨before, hbefore, rfl⟩ := List.mem_map.mp hs
    rw [TypeSymbol.qualifyTypes_eq, TypeSymbol.methods_mapTypes] at hm
    obtain ⟨original, horiginal, rfl⟩ := List.mem_map.mp hm
    obtain ⟨spelled, hspelled, rfl⟩ := Option.map_eq_some_iff.mp ht
    have hplain := isVoidText_eq_false_iff.mpr (h before hbefore original horiginal spelled hspelled)
    rw [← isVoidText_eq_false_iff, Bool.eq_false_iff]
    intro hvoid
    exact hnot ⟨before, hbefore, original, horiginal, spelled, hspelled,
      (TypeText.isVoidText_qualifyText_iff hplain).mp hvoid⟩

/-- The tables that can be made, where only some may be qualified. -/
inductive Reached (mayQualify : TypeTable → Prop) : TypeTable → Prop
  | empty : Reached mayQualify (ofList [])
  | described {table : TypeTable} {level : Nat} {value : Json} {symbol : TypeSymbol}
    (h : Reached mayQualify table) (hs : TypeSymbol.ofJson? level value = some symbol) :
    Reached mayQualify (table.insert symbol)
  | built {table : TypeTable} (h : Reached mayQualify table) (fields : TypeSymbol) :
    Reached mayQualify (table.insert fields.built)
  | loaded {text : String} {table : TypeTable} (h : ofJsonText? text = some table) :
    Reached mayQualify table
  | merged {table other : TypeTable} (h : Reached mayQualify table)
    (ho : Reached mayQualify other) : Reached mayQualify (table.merge other)
  | extended {table : TypeTable} (h : Reached mayQualify table) (tree : CSharp.Node) :
    Reached mayQualify (table.insertAll (CSharp.collectTypes tree))
  | qualified {table : TypeTable} (h : Reached mayQualify table) (hm : mayQualify table) :
    Reached mayQualify table.qualifyTypes

theorem Reached.namesResults {table : TypeTable} (h : Reached (fun known => ¬known.MeansVoid) table) :
    table.NamesResults := by
  induction h with
  | empty => exact fun symbol hs => absurd hs List.not_mem_nil
  | described _ hs ih => exact ih.insert (TypeSymbol.namesResults_of_ofJson? hs)
  | built _ fields ih => exact ih.insert fields.namesResults_built
  | loaded h => exact namesResults_of_ofJsonText? h
  | merged _ _ ih iho => exact ih.insertAll (namesResults_iff.mp iho)
  | extended _ tree ih => exact ih.insertAll (CSharp.namesResults_collectTypes tree)
  | qualified _ hm ih => exact ih.qualifyTypes_iff.mpr hm

end TypeTable

theorem CallbackSignature.result_iff (symbol : TypeSymbol) (method : Method) (result : String) :
    ((ofMethod symbol method).shape = .withResult ∧
      (ofMethod symbol method).types.getLast? = some result) ↔ method.returnType = some result := by
  unfold ofMethod
  cases method.returnType with
  | none =>
    constructor
    · rintro ⟨hshape, -⟩
      dsimp only at hshape
      generalize List.isEmpty _ = empty at hshape
      cases empty <;> simp at hshape
    · intro h
      exact absurd h (by simp)
  | some text => simp

theorem TypeTable.namesResults_iff_signatures (table : TypeTable) :
    table.NamesResults ↔ ∀ symbol ∈ table.types, ∀ method ∈ symbol.methods, ∀ result,
      (CallbackSignature.ofMethod symbol method).shape = .withResult →
      (CallbackSignature.ofMethod symbol method).types.getLast? = some result →
        trim result ∉ ["", "void", "System.Void", "global::System.Void"] := by
  unfold NamesResults
  constructor
  · intro h symbol hs method hm result hshape hlast
    exact h symbol hs method hm result
      ((CallbackSignature.result_iff symbol method result).mp ⟨hshape, hlast⟩)
  · intro h symbol hs method hm result hresult
    obtain ⟨hshape, hlast⟩ := (CallbackSignature.result_iff symbol method result).mpr hresult
    exact h symbol hs method hm result hshape hlast

/-- **No method returns void by name, unless qualification gave it the name.** A table keeps to that
through everything that can be done to it, but a qualification with a text that means void breaks it,
and each time it does. Delegates then have void for a result. -/
theorem results_named_exact (table : TypeTable) :
    (TypeTable.Reached (fun known => ¬known.MeansVoid) table → table.NamesResults) ∧
    (table.NamesResults → (table.qualifyTypes.NamesResults ↔ ¬table.MeansVoid)) ∧
    (table.NamesResults ↔ ∀ symbol ∈ table.types, ∀ method ∈ symbol.methods, ∀ result,
      (CallbackSignature.ofMethod symbol method).shape = .withResult →
      (CallbackSignature.ofMethod symbol method).types.getLast? = some result →
        trim result ∉ ["", "void", "System.Void", "global::System.Void"]) :=
  ⟨TypeTable.Reached.namesResults, TypeTable.NamesResults.qualifyTypes_iff,
    table.namesResults_iff_signatures⟩

def TypeTable.ofSource (source : String) : TypeTable :=
  (TypeTable.ofList []).insertAll (CSharp.collectTypes (CSharp.parse source))

theorem results_named_exact_unfound :
    let table := TypeTable.ofSource
      "namespace System { struct Void { } } class A { Void M() { } }"
    (∃ symbol ∈ table.qualifyTypes.types, ∃ method ∈ symbol.methods,
      method.returnType = some "Void") ∧ table.qualifyTypes.NamesResults := by
  intro table
  have htable : TypeTable.Reached (fun known => ¬known.MeansVoid) table := .extended .empty _
  have hmeans : ¬table.MeansVoid :=
    ((results_named_exact table).2.1 ((results_named_exact table).1 htable)).mp (by decide +kernel)
  exact ⟨by decide +kernel, (results_named_exact _).1 (.qualified htable hmeans)⟩

/-- Written with blanks around its dot, the full name of void is not seen for what it is. -/
theorem spaced_void_is_returned :
    ∃ table, TypeTable.Reached (fun _ => True) table ∧ ¬table.NamesResults ∧
      ∃ symbol ∈ table.types, ∃ method ∈ symbol.methods,
        (CallbackSignature.ofMethod symbol method).shape = .withResult ∧
        (CallbackSignature.ofMethod symbol method).types.getLast? = some "System.Void" := by
  refine ⟨(TypeTable.ofSource
    "class A { System . Void M() { } }").qualifyTypes, ?_, ?_, ?_⟩
  · exact .qualified (.extended .empty _) trivial
  · decide +kernel
  · decide +kernel

end HookEvents
