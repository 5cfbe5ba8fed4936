import HookEvents.Hook.References

namespace HookEvents

namespace ReferenceSet

theorem seen_eq_texts (set : ReferenceSet) : set.seen = set.texts := set.seen_eq

theorem nodup_texts (set : ReferenceSet) : set.texts.Nodup := set.seen_eq_texts ▸ set.seen_nodup

theorem insert_of_mem {set : ReferenceSet} {reference : HookReference}
    (h : reference.text ∈ set.texts) : set.insert reference = (set, false) := by
  rw [← seen_eq_texts] at h
  rw [insert, dif_pos h]

theorem insert_of_not_mem {set : ReferenceSet} {reference : HookReference}
    (h : reference.text ∉ set.texts) :
    ∃ hnew, set.insert reference = (set.append reference hnew, true) := by
  rw [← seen_eq_texts] at h
  exact ⟨h, by rw [insert, dif_neg h]⟩

theorem insert_snd_iff {set : ReferenceSet} {reference : HookReference} :
    (set.insert reference).2 = true ↔ reference.text ∉ set.texts := by
  by_cases h : reference.text ∈ set.texts
  · simp [insert_of_mem h, h]
  · obtain ⟨hnew, hinsert⟩ := insert_of_not_mem h
    simp [hinsert, h]

theorem add_of_mem {set : ReferenceSet} {reference : HookReference}
    (h : reference.text ∈ set.texts) : set.add reference = set := by
  rw [add, insert_of_mem h]

theorem references_add_of_not_mem {set : ReferenceSet} {reference : HookReference}
    (h : reference.text ∉ set.texts) :
    (set.add reference).references = set.references ++ [reference] := by
  obtain ⟨hnew, hinsert⟩ := insert_of_not_mem h
  rw [add, hinsert]
  rfl

theorem references_add (set : ReferenceSet) (reference : HookReference) :
    (set.add reference).references =
      if reference.text ∈ set.texts then set.references else set.references ++ [reference] := by
  split
  next h => rw [add_of_mem h]
  next h => rw [references_add_of_not_mem h]

theorem texts_add (set : ReferenceSet) (reference : HookReference) :
    (set.add reference).texts =
      if reference.text ∈ set.texts then set.texts else set.texts ++ [reference.text] := by
  rw [texts, references_add]
  split
  · rfl
  · rw [List.map_append, List.map_singleton, texts]

theorem mem_texts_add {set : ReferenceSet} {reference : HookReference} {text : String} :
    text ∈ (set.add reference).texts ↔ text ∈ set.texts ∨ text = reference.text := by
  rw [texts_add]
  split
  next h => exact ⟨.inl, fun ht => ht.elim id fun he => he ▸ h⟩
  · rw [List.mem_append, List.mem_singleton]

theorem foldl_add_filter {set : ReferenceSet} {text : String} (h : text ∈ set.texts)
    (references : List HookReference) :
    (references.filter fun reference => (reference.text == text) = false).foldl add set =
      references.foldl add set := by
  induction references generalizing set with
  | nil => rfl
  | cons reference references ih =>
    by_cases ht : reference.text = text
    · have hsame : set.add reference = set := add_of_mem (ht ▸ h)
      rw [List.filter_cons_of_neg (by simp [ht]), ih h, List.foldl_cons, hsame]
    · have hin : text ∈ (set.add reference).texts := mem_texts_add.mpr (.inl h)
      rw [List.filter_cons_of_pos (by simp [ht]), List.foldl_cons, ih hin, List.foldl_cons]

theorem foldl_add_eraseDups (set : ReferenceSet) (references : List HookReference) :
    (references.eraseDupsBy fun a b => a.text == b.text).foldl add set =
      references.foldl add set := by
  induction hn : references.length using Nat.strongRecOn generalizing references set with
  | ind n ih =>
    cases references with
    | nil => rfl
    | cons reference references =>
      have hin : reference.text ∈ (set.add reference).texts := mem_texts_add.mpr (.inr rfl)
      have hl := List.length_filter_le
        (fun other => (other.text == reference.text) = false) references
      rw [List.length_cons] at hn
      rw [List.eraseDupsBy_cons, List.foldl_cons, ih _ (by omega) _ _ rfl, foldl_add_filter hin,
        List.foldl_cons]

theorem references_foldl_add (set : ReferenceSet) (references : List HookReference) :
    (references.foldl add set).references = set.references ++
      (references.filter fun reference => decide (reference.text ∉ set.texts)).eraseDupsBy
        fun a b => a.text == b.text := by
  induction references generalizing set with
  | nil => simp
  | cons reference references ih =>
    rw [List.foldl_cons, ih]
    by_cases h : reference.text ∈ set.texts
    · rw [add_of_mem h, List.filter_cons_of_neg (by simp [h])]
    · have hfilter : (references.filter fun other =>
            decide (other.text ∉ (set.add reference).texts)) =
          (references.filter fun other => decide (other.text ∉ set.texts)).filter
            fun other => (other.text == reference.text) = false := by
        rw [List.filter_filter]
        refine List.filter_congr fun other _ => ?_
        simp only [mem_texts_add]
        grind
      rw [references_add_of_not_mem h, hfilter, List.filter_cons_of_pos (by simp [h]),
        List.eraseDupsBy_cons, List.append_assoc, List.singleton_append]

theorem references_foldl_empty (references : List HookReference) :
    (references.foldl add {}).references =
      references.eraseDupsBy fun a b => a.text == b.text := by
  have hall : (references.filter fun reference =>
      decide (reference.text ∉ ReferenceSet.texts {})) = references :=
    List.filter_eq_self.mpr fun _ _ => rfl
  rw [references_foldl_add, hall, List.nil_append]

end ReferenceSet

namespace HookReferences

/-- References collected by insertions and merges, with all that went into them, in order. -/
inductive Built : HookReferences → List HookReference → Prop
  | empty : Built {} []
  | insert {refs references} (reference : HookReference) (h : Built refs references) :
      Built (refs.add reference) (references ++ [reference])
  | merge {refs other references new} (h : Built refs references) (ho : Built other new) :
      Built (refs.merge other) (references ++ new)

theorem built_insertAll {refs : HookReferences} {references : List HookReference}
    (h : refs.Built references) (new : List HookReference) :
    (refs.insertAll new).Built (references ++ new) := by
  induction new generalizing refs references with
  | nil => simpa [insertAll] using h
  | cons reference new ih =>
    have hstep := ih (h.insert reference)
    rwa [List.append_assoc] at hstep

theorem built_ofList (references : List HookReference) : (ofList references).Built references :=
  built_insertAll .empty references

def Sorted (refs : HookReferences) : Prop :=
  ∀ kind, ∀ reference ∈ (refs.ofKind kind).references, reference.kind = kind

theorem ofKind_add (refs : HookReferences) (reference : HookReference) (kind : HookKind) :
    (refs.add reference).ofKind kind =
      if reference.kind = kind then (refs.ofKind kind).add reference else refs.ofKind kind := by
  cases hr : reference.kind <;> cases kind <;> simp [add, insert, ofKind, hr, ReferenceSet.add]

theorem insert_snd (refs : HookReferences) (reference : HookReference) :
    (refs.insert reference).2 = ((refs.ofKind reference.kind).insert reference).2 := by
  cases hr : reference.kind <;> simp [insert, ofKind, hr]

theorem insert_snd_iff {refs : HookReferences} {reference : HookReference} :
    (refs.insert reference).2 = true ↔ reference.text ∉ (refs.ofKind reference.kind).texts := by
  rw [insert_snd, ReferenceSet.insert_snd_iff]

theorem references_ofKind_insert (refs : HookReferences) (reference : HookReference)
    (kind : HookKind) :
    ((refs.insert reference).1.ofKind kind).references = (refs.ofKind kind).references ++
      if kind = reference.kind ∧ (refs.insert reference).2 = true then [reference] else [] := by
  change ((refs.add reference).ofKind kind).references = _
  rw [ofKind_add]
  by_cases hk : reference.kind = kind
  · subst hk
    rw [if_pos rfl, ReferenceSet.references_add]
    by_cases ht : reference.text ∈ (refs.ofKind reference.kind).texts
    · simp [insert_snd_iff, ht]
    · simp [insert_snd_iff, ht]
  · simp [hk, Ne.symm hk]

theorem Sorted.add {refs : HookReferences} (h : refs.Sorted) (reference : HookReference) :
    (refs.add reference).Sorted := by
  intro kind other ho
  rw [ofKind_add] at ho
  split at ho
  next hk =>
    rw [ReferenceSet.references_add] at ho
    split at ho
    · exact h kind other ho
    · rcases List.mem_append.mp ho with ho | ho
      · exact h kind other ho
      · rw [List.mem_singleton.mp ho, hk]
  · exact h kind other ho

theorem Sorted.insertAll {refs : HookReferences} (h : refs.Sorted) (new : List HookReference) :
    (refs.insertAll new).Sorted := by
  induction new generalizing refs with
  | nil => exact h
  | cons reference new ih => exact ih (h.add reference)

theorem Built.sorted {refs : HookReferences} {references : List HookReference}
    (h : refs.Built references) : refs.Sorted := by
  induction h with
  | empty => rintro (_ | _) reference hr <;> simp [ofKind] at hr
  | insert reference _ ih => exact ih.add reference
  | merge _ _ ih _ => exact ih.insertAll _

theorem Sorted.pairwise_toList {refs : HookReferences} (h : refs.Sorted) :
    refs.toList.Pairwise fun earlier later =>
      earlier.kind = .transform → later.kind = .transform := by
  rw [toList, List.pairwise_append]
  refine ⟨?_, ?_, ?_⟩
  · exact List.pairwise_of_forall_mem_list fun earlier he later _ ht =>
      absurd ((h .subscribe earlier he).symm.trans ht) (by decide)
  · exact List.pairwise_of_forall_mem_list fun earlier _ later hl _ => h .transform later hl
  · exact fun earlier _ later hl _ => h .transform later hl

theorem ofKind_insertAll (refs : HookReferences) (new : List HookReference) (kind : HookKind) :
    (refs.insertAll new).ofKind kind =
      (new.filter (·.kind = kind)).foldl ReferenceSet.add (refs.ofKind kind) := by
  induction new generalizing refs with
  | nil => rfl
  | cons reference new ih =>
    change ((refs.add reference).insertAll new).ofKind kind = _
    rw [ih, ofKind_add]
    by_cases hk : reference.kind = kind <;> simp [hk]

theorem Sorted.filter_toList {refs : HookReferences} (h : refs.Sorted) (kind : HookKind) :
    refs.toList.filter (·.kind = kind) = (refs.ofKind kind).references := by
  have hself : ∀ kind, (refs.ofKind kind).references.filter (·.kind = kind) =
      (refs.ofKind kind).references := fun kind =>
    List.filter_eq_self.mpr fun reference hr => decide_eq_true (h kind reference hr)
  have hother : ∀ kind other, kind ≠ other →
      (refs.ofKind kind).references.filter (·.kind = other) = [] := fun kind other hne =>
    List.filter_eq_nil_iff.mpr fun reference hr hk =>
      hne ((h kind reference hr).symm.trans (of_decide_eq_true hk))
  rw [toList, List.filter_append]
  cases kind with
  | subscribe =>
    have hsubscribe := hself .subscribe
    have htransform := hother .transform .subscribe (by decide)
    simp only [ofKind] at hsubscribe htransform ⊢
    rw [hsubscribe, htransform, List.append_nil]
  | transform =>
    have hsubscribe := hother .subscribe .transform (by decide)
    have htransform := hself .transform
    simp only [ofKind] at hsubscribe htransform ⊢
    rw [hsubscribe, htransform, List.nil_append]

theorem Built.ofKind_eq {refs : HookReferences} {references : List HookReference}
    (h : refs.Built references) (kind : HookKind) :
    refs.ofKind kind = (references.filter (·.kind = kind)).foldl ReferenceSet.add {} := by
  induction h with
  | empty => cases kind <;> rfl
  | insert reference _ ih =>
    rw [ofKind_add, ih]
    by_cases hk : reference.kind = kind <;> simp [hk]
  | merge _ ho ih iho =>
    rw [HookReferences.merge, ofKind_insertAll, ho.sorted.filter_toList, iho,
      ReferenceSet.references_foldl_empty, ReferenceSet.foldl_add_eraseDups, ih,
      List.filter_append, List.foldl_append]

theorem Built.references_ofKind {refs : HookReferences} {references : List HookReference}
    (h : refs.Built references) (kind : HookKind) :
    (refs.ofKind kind).references =
      (references.filter (·.kind = kind)).eraseDupsBy fun a b => a.text == b.text := by
  rw [h.ofKind_eq, ReferenceSet.references_foldl_empty]

end HookReferences
end HookEvents
