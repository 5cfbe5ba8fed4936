import Mathlib.Data.List.Nodup

/-!
Sorting by a key that is text. Elements with one key keep the order in which they stand, so two
lists are sorted to the same list if and only if each group of such ties has one order.
-/
namespace HookEvents

variable {α : Type} (key : α → String)

def keyOrder (a b : α) : Bool := !(key b < key a)

variable {key}

theorem keyOrder_iff {a b : α} : keyOrder key a b = true ↔ key a ≤ key b := by
  simp only [keyOrder, Bool.not_eq_true', decide_eq_false_iff_not, String.not_lt]

theorem keyOrder_trans (a b c : α) (hab : keyOrder key a b = true)
    (hbc : keyOrder key b c = true) : keyOrder key a c = true := by
  rw [keyOrder_iff] at hab hbc ⊢
  exact String.le_trans hab hbc

theorem keyOrder_total (a b : α) : (keyOrder key a b || keyOrder key b a) = true := by
  rw [Bool.or_eq_true, keyOrder_iff, keyOrder_iff]
  exact String.le_total _ _

theorem pairwise_keySorted (l : List α) :
    (l.mergeSort (keyOrder key)).Pairwise (key · ≤ key ·) := by
  apply (List.pairwise_mergeSort keyOrder_trans keyOrder_total l).imp
  intro a b hab
  exact keyOrder_iff.mp hab

theorem filter_keySorted (l : List α) (name : String) :
    (l.mergeSort (keyOrder key)).filter (key · = name) = l.filter (key · = name) := by
  have hties : (l.filter (key · = name)).Pairwise fun a b => keyOrder key a b = true := by
    apply List.pairwise_of_forall_mem_list
    intro a ha b hb
    have hka := of_decide_eq_true (List.mem_filter.mp ha).2
    have hkb := of_decide_eq_true (List.mem_filter.mp hb).2
    apply keyOrder_iff.mpr
    exact hka.trans hkb.symm ▸ String.le_refl (key a)
  have hsub := (List.sublist_mergeSort keyOrder_trans keyOrder_total hties
    List.filter_sublist).filter (key · = name)
  rw [List.filter_filter] at hsub
  simp only [Bool.and_self] at hsub
  symm
  apply hsub.eq_of_length
  exact ((List.mergeSort_perm l _).filter _).length_eq.symm

theorem mem_iff_of_filter_key {l l' : List α}
    (hties : ∀ name, l.filter (key · = name) = l'.filter (key · = name)) (c : α) :
    c ∈ l ↔ c ∈ l' := by
  have hc := congrArg (c ∈ ·) (hties (key c))
  simpa using hc

theorem eq_of_filter_key {l l' : List α} (h : l.Pairwise (key · ≤ key ·))
    (h' : l'.Pairwise (key · ≤ key ·))
    (hties : ∀ name, l.filter (key · = name) = l'.filter (key · = name)) : l = l' := by
  induction l generalizing l' with
  | nil =>
    cases l' with
    | nil => rfl
    | cons b l' => exact absurd ((mem_iff_of_filter_key hties b).mpr (by simp)) (by simp)
  | cons a l ih =>
    cases l' with
    | nil => exact absurd ((mem_iff_of_filter_key hties a).mp (by simp)) (by simp)
    | cons b l' =>
      -- both heads have the least key, so both lead the group of that key
      have ha := (mem_iff_of_filter_key hties a).mp List.mem_cons_self
      have hb := (mem_iff_of_filter_key hties b).mpr List.mem_cons_self
      rw [List.pairwise_cons] at h h'
      have hkey : key a = key b := by
        apply String.le_antisymm
        · rcases List.mem_cons.mp hb with rfl | hb
          · exact String.le_refl _
          · exact h.1 b hb
        · rcases List.mem_cons.mp ha with rfl | ha
          · exact String.le_refl _
          · exact h'.1 a ha
      have hhead := hties (key a)
      rw [List.filter_cons_of_pos (by simp), List.filter_cons_of_pos (by simp [hkey])] at hhead
      obtain ⟨rfl, -⟩ := List.cons.inj hhead
      have hrest : ∀ name, l.filter (key · = name) = l'.filter (key · = name) := by
        intro name
        have hname := hties name
        rw [List.filter_cons, List.filter_cons] at hname
        split at hname
        · exact (List.cons.inj hname).2
        · exact hname
      rw [ih h.2 h'.2 hrest]

theorem keySorted_eq_iff {l l' : List α} :
    l.mergeSort (keyOrder key) = l'.mergeSort (keyOrder key) ↔
      ∀ name, l.filter (key · = name) = l'.filter (key · = name) := by
  constructor
  · intro h name
    rw [← filter_keySorted l, h, filter_keySorted]
  · intro h
    apply eq_of_filter_key (pairwise_keySorted l) (pairwise_keySorted l')
    intro name
    rw [filter_keySorted, filter_keySorted, h name]

theorem keySorted_perm {l l' : List α} (h : l.Perm l') :
    (l.mergeSort (keyOrder key)).Perm (l'.mergeSort (keyOrder key)) :=
  ((List.mergeSort_perm l _).trans h).trans (List.mergeSort_perm l' _).symm

theorem keys_keySorted {l l' : List α} (h : l.Perm l') :
    (l.mergeSort (keyOrder key)).map key = (l'.mergeSort (keyOrder key)).map key := by
  apply List.Perm.eq_of_pairwise _ (List.pairwise_map.mpr (pairwise_keySorted l))
    (List.pairwise_map.mpr (pairwise_keySorted l')) ((keySorted_perm h).map key)
  intro name other _ _ hle hge
  exact String.le_antisymm hle hge

theorem keySorted_eq_of_perm {l l' : List α} (h : l.Perm l')
    (hkey : ∀ a ∈ l', ∀ b ∈ l', key a = key b → a = b) :
    l.mergeSort (keyOrder key) = l'.mergeSort (keyOrder key) := by
  apply List.Perm.eq_of_pairwise _ (pairwise_keySorted l) (pairwise_keySorted l')
    (keySorted_perm h)
  intro a b ha hb hle hge
  rw [List.mem_mergeSort] at ha hb
  exact hkey a (h.mem_iff.mp ha) b hb (String.le_antisymm hle hge)

theorem length_le_one_of_reverse {l : List α} (hl : l.Nodup) (h : l.reverse = l) :
    l.length ≤ 1 := by
  cases l with
  | nil => simp
  | cons a l =>
    have hends := congrArg List.head? h
    rw [List.head?_reverse, List.getLast?_cons, List.head?_cons, Option.some_inj] at hends
    cases hlast : l.getLast? with
    | none => simp [List.getLast?_eq_none_iff.mp hlast]
    | some b =>
      rw [hlast, Option.getD_some] at hends
      have hmem := List.mem_of_getLast? hlast
      rw [hends] at hmem
      exact absurd hmem (List.nodup_cons.mp hl).1

theorem key_inj_of_reverse {l : List α} (hl : l.Nodup)
    (h : l.reverse.mergeSort (keyOrder key) = l.mergeSort (keyOrder key)) {a b : α} (ha : a ∈ l)
    (hb : b ∈ l) (hab : key a = key b) : a = b := by
  -- reversing a group of ties leaves it as it is, so it has no two elements
  have hties := keySorted_eq_iff.mp h (key b)
  rw [List.filter_reverse] at hties
  have hone := length_le_one_of_reverse (hl.filter _) hties
  have hma : a ∈ l.filter (key · = key b) := List.mem_filter.mpr ⟨ha, decide_eq_true hab⟩
  have hmb : b ∈ l.filter (key · = key b) := List.mem_filter.mpr ⟨hb, decide_eq_true rfl⟩
  obtain ⟨c, hc⟩ := List.length_eq_one_iff.mp (Nat.le_antisymm hone (List.length_pos_of_mem hma))
  rw [hc, List.mem_singleton] at hma hmb
  rw [hma, hmb]

theorem pairwise_lt_sorted {l : List String} (h : l.Nodup) :
    (l.mergeSort (keyOrder id)).Pairwise (· < ·) := by
  have hle : (l.mergeSort (keyOrder id)).Pairwise (id · ≤ id ·) := pairwise_keySorted l
  have hne := (List.mergeSort_perm l (keyOrder id)).nodup_iff.mpr h
  apply (hle.and hne).imp
  intro a b hab
  exact Std.lt_of_le_of_ne hab.1 hab.2

end HookEvents
