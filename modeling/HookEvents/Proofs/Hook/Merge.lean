import HookEvents.Proofs.Hook.References
import HookEvents.Proofs.Keyed
import Mathlib.Logic.Function.Basic

/-!
Any number of collections of references that grow side by side, by insertions and by merging one
into another. Each of them is determined by all that went into it.
-/
namespace HookEvents

namespace ReferenceSet

theorem mem_foldl_add {set : ReferenceSet} {references : List HookReference}
    {reference : HookReference} (h : reference ∈ (references.foldl add set).references) :
    reference ∈ set.references ∨ reference ∈ references := by
  induction references generalizing set with
  | nil => exact .inl h
  | cons first references ih =>
    rcases ih h with h | h
    · rw [references_add] at h
      split at h
      · exact .inl h
      · rcases List.mem_append.mp h with h | h
        · exact .inl h
        · exact .inr (List.mem_singleton.mp h ▸ List.mem_cons_self)
    · exact .inr (List.mem_cons_of_mem first h)

theorem texts_foldl_add (set : ReferenceSet) (references : List HookReference) :
    (references.foldl add set).texts = (set.texts ++ references.map (·.text)).eraseDups := by
  induction references generalizing set with
  | nil => rw [List.foldl_nil, List.map_nil, List.append_nil, eraseDups_of_nodup set.nodup_texts]
  | cons reference references ih =>
    rw [List.foldl_cons, ih, texts_add, List.map_cons]
    split
    next hm => simp [List.eraseDups_append, List.removeAll, hm]
    · rw [List.append_assoc, List.singleton_append]

theorem foldl_add_eq_self_iff {set : ReferenceSet} {references : List HookReference} :
    references.foldl add set = set ↔ ∀ reference ∈ references, reference.text ∈ set.texts := by
  constructor
  · intro h reference hr
    have hnil := references_foldl_add set references
    rw [h, List.self_eq_append_right] at hnil
    by_contra hnew
    have hkept : reference ∈ references.filter fun other => decide (other.text ∉ set.texts) :=
      List.mem_filter.mpr ⟨hr, by simp [hnew]⟩
    cases hf : references.filter fun other => decide (other.text ∉ set.texts) with
    | nil => exact absurd (hf ▸ hkept) List.not_mem_nil
    | cons first rest =>
      rw [hf, List.eraseDupsBy_cons] at hnil
      exact absurd hnil (List.cons_ne_nil _ _)
  · intro h
    induction references with
    | nil => rfl
    | cons reference references ih =>
      rw [List.foldl_cons, add_of_mem (h reference (by simp))]
      exact ih fun other ho => h other (by simp [ho])

end ReferenceSet

namespace HookReferences

theorem ext_ofKind {refs other : HookReferences}
    (h : ∀ kind, refs.ofKind kind = other.ofKind kind) : refs = other := by
  obtain ⟨subscribe, transform⟩ := refs
  obtain rfl : subscribe = other.subscribe := h .subscribe
  obtain rfl : transform = other.transform := h .transform
  rfl

theorem Built.unique {refs other : HookReferences} {references : List HookReference}
    (h : refs.Built references) (ho : other.Built references) : refs = other :=
  ext_ofKind fun kind => (h.ofKind_eq kind).trans (ho.ofKind_eq kind).symm

section

variable {refs other further : HookReferences} {references new more : List HookReference}

theorem Built.merge_assoc (h : refs.Built references) (ho : other.Built new)
    (hf : further.Built more) :
    (refs.merge other).merge further = refs.merge (other.merge further) := by
  have hleft := (h.merge ho).merge hf
  rw [List.append_assoc] at hleft
  exact hleft.unique (h.merge (ho.merge hf))

theorem Built.empty_merge (h : refs.Built references) : HookReferences.merge {} refs = refs :=
  (Built.empty.merge h).unique h

theorem merge_empty (refs : HookReferences) : refs.merge {} = refs := rfl

theorem Built.ofKind_merge (ho : other.Built new) (refs : HookReferences) (kind : HookKind) :
    (refs.merge other).ofKind kind =
      (other.ofKind kind).references.foldl ReferenceSet.add (refs.ofKind kind) := by
  rw [HookReferences.merge, ofKind_insertAll, ho.sorted.filter_toList]

theorem Built.merge_eq_self_iff (ho : other.Built new) :
    refs.merge other = refs ↔
      ∀ kind, ∀ text ∈ (other.ofKind kind).texts, text ∈ (refs.ofKind kind).texts := by
  have hkind (kind : HookKind) : (refs.merge other).ofKind kind = refs.ofKind kind ↔
      ∀ text ∈ (other.ofKind kind).texts, text ∈ (refs.ofKind kind).texts := by
    rw [ho.ofKind_merge, ReferenceSet.foldl_add_eq_self_iff]
    exact List.forall_mem_map.symm
  simp only [← hkind]
  exact ⟨fun h kind => by rw [h], ext_ofKind⟩

end

end HookReferences

structure Collection where
  refs : HookReferences := .ofList []
  given : List HookReference := []

/-- A step on collections that are told apart by number. What is merged into another collection is
used up by it. -/
inductive CollectionStep where
  | insert (target : Nat) (reference : HookReference)
  | merge (target source : Nat) (distinct : target ≠ source)

namespace Collection

def insert (collection : Collection) (reference : HookReference) : Collection where
  refs := (collection.refs.insert reference).1
  given := collection.given ++ [reference]

def merge (collection other : Collection) : Collection where
  refs := collection.refs.merge other.refs
  given := collection.given ++ other.given

def step (pool : Nat → Collection) : CollectionStep → Nat → Collection
  | .insert target reference => Function.update pool target ((pool target).insert reference)
  | .merge target source _ =>
    Function.update (Function.update pool target ((pool target).merge (pool source))) source {}

def run (steps : List CollectionStep) : Nat → Collection := steps.foldl step fun _ => {}

def Sound (collection : Collection) : Prop := collection.refs.Built collection.given

theorem sound_step {pool : Nat → Collection} (h : ∀ slot, (pool slot).Sound) (s : CollectionStep)
    (slot : Nat) : (step pool s slot).Sound := by
  cases s with
  | insert target reference =>
    rw [step]
    by_cases ht : slot = target
    · rw [ht, Function.update_self]
      exact (h target).insert reference
    · rw [Function.update_of_ne ht]
      exact h slot
  | merge target source distinct =>
    rw [step]
    by_cases hs : slot = source
    · rw [hs, Function.update_self]
      exact HookReferences.Built.empty
    by_cases ht : slot = target
    · rw [Function.update_of_ne hs, ht, Function.update_self]
      exact (h target).merge (h source)
    · rw [Function.update_of_ne hs, Function.update_of_ne ht]
      exact h slot

theorem sound_run (steps : List CollectionStep) (slot : Nat) : (run steps slot).Sound := by
  have hfold (pool : Nat → Collection) (hp : ∀ slot, (pool slot).Sound) :
      ∀ slot, (steps.foldl step pool slot).Sound := by
    induction steps generalizing pool with
    | nil => exact hp
    | cons s steps ih => exact ih _ (sound_step hp s)
  have hempty : Sound {} := HookReferences.Built.empty
  exact hfold _ (fun _ => hempty) slot

/-- The list of a kind holds the first reference of each text among those of the kind that went in.
An insertion adds exactly what is new to its kind, and says so; merging is associative, with the empty
collection as its unit, and changes nothing exactly where no text is new. -/
theorem run_keeps_first (steps : List CollectionStep) :
    let refs := fun slot => (run steps slot).refs
    (∀ slot kind, ((refs slot).ofKind kind).references =
      ((run steps slot).given.filter (·.kind = kind)).eraseDupsBy fun a b => a.text == b.text) ∧
    (∀ slot kind, ((refs slot).ofKind kind).seen = ((refs slot).ofKind kind).texts ∧
      ((refs slot).ofKind kind).texts.Nodup) ∧
    (∀ slot kind, ∀ reference ∈ ((refs slot).ofKind kind).references, reference.kind = kind) ∧
    (∀ slot reference,
      (((refs slot).insert reference).2 = true ↔
        reference.text ∉ ((refs slot).ofKind reference.kind).texts) ∧
      ∀ kind, (((refs slot).insert reference).1.ofKind kind).references =
        ((refs slot).ofKind kind).references ++
          if kind = reference.kind ∧ ((refs slot).insert reference).2 = true
            then [reference] else []) ∧
    (∀ first second third, ((refs first).merge (refs second)).merge (refs third) =
      (refs first).merge ((refs second).merge (refs third))) ∧
    (∀ slot, (refs slot).merge {} = refs slot ∧ HookReferences.merge {} (refs slot) = refs slot) ∧
    ∀ slot source, (refs slot).merge (refs source) = refs slot ↔
      ∀ kind, ∀ text ∈ ((refs source).ofKind kind).texts,
        text ∈ ((refs slot).ofKind kind).texts := by
  have hsound := sound_run steps
  refine ⟨fun slot => (hsound slot).references_ofKind,
    fun slot kind => ⟨ReferenceSet.seen_eq_texts _, ReferenceSet.nodup_texts _⟩,
    fun slot => (hsound slot).sorted, fun slot reference => ?_, fun first second third => ?_,
    fun slot => ?_, fun slot source => (hsound source).merge_eq_self_iff⟩
  · exact ⟨HookReferences.insert_snd_iff, HookReferences.references_ofKind_insert _ reference⟩
  · exact (hsound first).merge_assoc (hsound second) (hsound third)
  · exact ⟨HookReferences.merge_empty _, (hsound slot).empty_merge⟩

def nestedMerges : List CollectionStep :=
  let reference (text method : String) : HookReference :=
    { kind := .subscribe, text, typeName := "A", methodName := method }
  [.insert 0 (reference "On.A.M" "M"), .insert 2 (reference "On.A.N" "N"),
    .insert 2 (reference "On.A.M" "late"), .insert 1 (reference "On.A.O" "O"),
    .insert 1 { kind := .transform, text := "On.A.M", typeName := "A", methodName := "M" },
    .merge 1 2 (by decide), .merge 0 1 (by decide)]

theorem run_keeps_first_nestedMerges :
    ((run nestedMerges 0).refs.subscribe.references.map fun reference =>
      (reference.text, reference.methodName)) =
        [("On.A.M", "M"), ("On.A.O", "O"), ("On.A.N", "N")] ∧
    (∀ reference ∈ (run nestedMerges 0).refs.transform.references, reference.kind = .transform) ∧
    (run nestedMerges 0).refs.transform.references ≠ [] := by
  obtain ⟨hfirst, -, hkinds, -⟩ := run_keeps_first nestedMerges
  have hsubscribe := hfirst 0 .subscribe
  have htransform := hfirst 0 .transform
  refine ⟨?_, hkinds 0 .transform, ?_⟩
  · exact (congrArg _ hsubscribe).trans (by decide +kernel)
  · exact fun hnil => absurd (htransform.symm.trans hnil) (by decide +kernel)

end Collection

end HookEvents
