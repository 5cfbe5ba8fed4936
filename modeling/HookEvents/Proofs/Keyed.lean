import HookEvents.Symbol.Table

/-!
Lists of entries told apart by a key, in the order in which their keys came up. What is inserted
goes into the entry of its key, or makes a new entry at the end.
-/
namespace HookEvents

theorem lookup_zipIdx_eq_some {κ : Type} [BEq κ] [LawfulBEq κ] {keys : List κ} (hn : keys.Nodup)
    {key : κ} {slot : Nat} : keys.zipIdx.lookup key = some slot ↔ keys[slot]? = some key := by
  have hsound : ∀ i, keys.zipIdx.lookup key = some i → keys[i]? = some key := by
    intro i hl
    obtain ⟨front, back, hsplit, -⟩ := List.lookup_eq_some_iff.mp hl
    have hmem : (key, i) ∈ keys.zipIdx := by simp [hsplit]
    exact List.mem_zipIdx_iff_getElem?.mp hmem
  refine ⟨hsound slot, fun hslot => ?_⟩
  cases hl : keys.zipIdx.lookup key with
  | none => exact absurd (List.mem_of_getElem? hslot) (lookup_zipIdx_eq_none.mp hl)
  | some i =>
    have hlt : i < keys.length := (List.getElem?_eq_some_iff.mp (hsound i hl)).1
    have hsame := (hsound i hl).trans hslot.symm
    rw [(List.getElem?_inj hlt hn).mp hsame]

theorem eraseDups_sublist {κ : Type} [BEq κ] (ks : List κ) : ks.eraseDups.Sublist ks := by
  induction hn : ks.length using Nat.strongRecOn generalizing ks with
  | ind n ih =>
    cases ks with
    | nil => simp
    | cons k ks =>
      rw [List.eraseDups_cons]
      have hl := List.length_filter_le (fun other => !other == k) ks
      rw [List.length_cons] at hn
      exact ((ih _ (by omega) _ rfl).trans List.filter_sublist).cons_cons k

theorem nodup_eraseDups {κ : Type} [BEq κ] [LawfulBEq κ] (ks : List κ) :
    ks.eraseDups.Nodup := by
  induction hn : ks.length using Nat.strongRecOn generalizing ks with
  | ind n ih =>
    cases ks with
    | nil => simp
    | cons k ks =>
      rw [List.eraseDups_cons, List.nodup_cons]
      have hl := List.length_filter_le (fun other => !other == k) ks
      rw [List.length_cons] at hn
      exact ⟨by simp, ih _ (by omega) _ rfl⟩

theorem eraseDups_of_nodup {κ : Type} [BEq κ] [LawfulBEq κ] {ks : List κ} (h : ks.Nodup) :
    ks.eraseDups = ks := by
  induction ks with
  | nil => rfl
  | cons k ks ih =>
    obtain ⟨hk, hks⟩ := List.nodup_cons.mp h
    have hf : ks.filter (fun other => !other == k) = ks := by
      apply List.filter_eq_self.mpr
      intro other ho
      have hne : other ≠ k := fun he => hk (he ▸ ho)
      simp [hne]
    rw [List.eraseDups_cons, hf, ih hks]

theorem eraseDups_filter {κ : Type} [BEq κ] [LawfulBEq κ] (p : κ → Bool) (ks : List κ) :
    (ks.filter p).eraseDups = ks.eraseDups.filter p := by
  induction hn : ks.length using Nat.strongRecOn generalizing ks with
  | ind n ih =>
    cases ks with
    | nil => simp
    | cons k ks =>
      have hl := List.length_filter_le (fun other => !other == k) ks
      rw [List.length_cons] at hn
      have hrest := ih _ (by omega) (ks.filter fun other => !other == k) rfl
      rw [List.eraseDups_cons]
      cases hp : p k with
      | true =>
        rw [List.filter_cons_of_pos hp, List.filter_cons_of_pos hp, List.eraseDups_cons, ← hrest,
          List.filter_filter, List.filter_filter]
        simp only [Bool.and_comm]
      | false =>
        have hne : ∀ other ∈ ks, (p other && !other == k) = p other := by
          intro other _
          by_cases ho : other = k <;> simp [ho, hp]
        rw [List.filter_cons_of_neg (by simp [hp]), List.filter_cons_of_neg (by simp [hp]), ← hrest,
          List.filter_filter, List.filter_congr hne]

theorem eraseDups_concat {κ : Type} [BEq κ] [LawfulBEq κ] (ks : List κ) (k : κ) :
    (ks ++ [k]).eraseDups =
      if ks.eraseDups.contains k then ks.eraseDups else ks.eraseDups ++ [k] := by
  rw [List.eraseDups_append]
  split
  next h =>
    have hm : k ∈ ks := by simpa using h
    simp [List.removeAll, hm]
  next h =>
    have hm : k ∉ ks := by simpa using h
    simp [List.removeAll, hm, List.eraseDups_cons]

theorem eraseDups_eraseDups_append {κ : Type} [BEq κ] [LawfulBEq κ] (ks more : List κ) :
    (ks.eraseDups ++ more).eraseDups = (ks ++ more).eraseDups := by
  rw [List.eraseDups_append, List.eraseDups_append, eraseDups_of_nodup (nodup_eraseDups ks)]
  simp only [List.removeAll, List.elem_eq_mem, List.mem_eraseDups]

theorem eraseDups_append_eraseDups {κ : Type} [BEq κ] [LawfulBEq κ] (ks more : List κ) :
    (ks ++ more.eraseDups).eraseDups = (ks ++ more).eraseDups := by
  rw [List.eraseDups_append, List.eraseDups_append, List.removeAll, List.removeAll,
    eraseDups_filter, eraseDups_filter, eraseDups_of_nodup (nodup_eraseDups more)]

/-- How entries of type `β` are made of and changed by what is inserted. -/
structure Keyed (α β κ : Type) where
  key : β → κ
  keyOf : α → κ
  make : α → β
  update : β → α → β
  key_make (a : α) : key (make a) = keyOf a
  key_update (b : β) (a : α) : key (update b a) = key b

namespace Keyed

variable {α β κ : Type} (d : Keyed α β κ)

/-- What becomes of an entry, if there is one, when all of `as` is inserted under its key. -/
def gather : Option β → List α → Option β
  | some b, as => some (as.foldl d.update b)
  | none, [] => none
  | none, a :: as => some (as.foldl d.update (d.make a))

theorem gather_append (b : Option β) (as as' : List α) :
    d.gather b (as ++ as') = d.gather (d.gather b as) as' := by
  cases b with
  | some b => simp [gather]
  | none => cases as <;> simp [gather]

variable [DecidableEq κ]

def insert (a : α) : List β → List β
  | [] => [d.make a]
  | b :: bs => if d.key b = d.keyOf a then d.update b a :: bs else b :: insert a bs

def insertAll (bs : List β) (as : List α) : List β := as.foldl (fun bs a => d.insert a bs) bs

def get? (bs : List β) (k : κ) : Option β := bs.find? fun b => d.key b = k

theorem insert_of_not_mem {a : α} {bs : List β} (h : d.keyOf a ∉ bs.map d.key) :
    d.insert a bs = bs ++ [d.make a] := by
  induction bs with
  | nil => rfl
  | cons b bs ih =>
    simp only [List.map_cons, List.mem_cons, not_or] at h
    rw [insert, if_neg (Ne.symm h.1), ih h.2, List.cons_append]

theorem insert_eq_modify {a : α} {bs : List β} (hb : (bs.map d.key).Nodup) {i : Nat}
    (hi : (bs.map d.key)[i]? = some (d.keyOf a)) :
    d.insert a bs = bs.modify i (d.update · a) := by
  induction bs generalizing i with
  | nil => simp at hi
  | cons b bs ih =>
    obtain ⟨hnot, hbs⟩ := List.nodup_cons.mp hb
    cases i with
    | zero =>
      have hk : d.key b = d.keyOf a := by simpa using hi
      rw [insert, if_pos hk, List.modify_zero_cons]
    | succ i =>
      have hi' : (bs.map d.key)[i]? = some (d.keyOf a) := by simpa using hi
      have hk : d.key b ≠ d.keyOf a := fun he => hnot (he ▸ List.mem_of_getElem? hi')
      rw [insert, if_neg hk, ih hbs hi', List.modify_succ_cons]

theorem keys_insert (a : α) (bs : List β) :
    (d.insert a bs).map d.key =
      if d.keyOf a ∈ bs.map d.key then bs.map d.key else bs.map d.key ++ [d.keyOf a] := by
  induction bs with
  | nil => simp [insert, d.key_make]
  | cons b bs ih =>
    by_cases hb : d.key b = d.keyOf a
    · simp [insert, hb, d.key_update]
    · simp only [insert, hb, ↓reduceIte, List.map_cons, ih, List.mem_cons, Ne.symm hb, false_or]
      split <;> rfl

theorem get?_insert (a : α) (bs : List β) (k : κ) :
    d.get? (d.insert a bs) k =
      if d.keyOf a = k then d.gather (d.get? bs k) [a] else d.get? bs k := by
  induction bs with
  | nil => by_cases hk : d.keyOf a = k <;> simp [insert, get?, gather, d.key_make, hk]
  | cons b bs ih =>
    simp only [get?] at ih ⊢
    by_cases hb : d.key b = d.keyOf a
    · by_cases hk : d.keyOf a = k <;> simp [insert, hb, d.key_update, hk, gather]
    · by_cases hk : d.key b = k
      · have hne : d.keyOf a ≠ k := fun he => hb (hk.trans he.symm)
        simp [insert, hk, hne, hne.symm]
      · simp [insert, hb, hk, ih]

theorem keys_insertAll [BEq κ] [LawfulBEq κ] {bs : List β} (hb : (bs.map d.key).Nodup)
    (as : List α) :
    (d.insertAll bs as).map d.key = (bs.map d.key ++ as.map d.keyOf).eraseDups := by
  induction as generalizing bs with
  | nil => simp [insertAll, eraseDups_of_nodup hb]
  | cons a as ih =>
    have hn : ((d.insert a bs).map d.key).Nodup := by
      rw [keys_insert]
      split
      · exact hb
      next ha =>
        rw [List.nodup_append]
        exact ⟨hb, by simp, fun k hk other ho => by simp at ho; exact fun he => ha (ho ▸ he ▸ hk)⟩
    change (d.insertAll (d.insert a bs) as).map d.key = _
    rw [ih hn, keys_insert]
    split
    next ha => simp [List.eraseDups_append, List.removeAll, List.mem_map.mp ha]
    · simp

theorem keys_insertAll_nil [BEq κ] [LawfulBEq κ] (as : List α) :
    (d.insertAll [] as).map d.key = (as.map d.keyOf).eraseDups := by
  simpa using d.keys_insertAll (show (([] : List β).map d.key).Nodup by simp) as

theorem insertAll_of_nodup {bs : List β} {as : List α}
    (h : (bs.map d.key ++ as.map d.keyOf).Nodup) : d.insertAll bs as = bs ++ as.map d.make := by
  induction as generalizing bs with
  | nil => simp [insertAll]
  | cons a as ih =>
    have hnot : d.keyOf a ∉ bs.map d.key := by
      intro hm
      exact (List.nodup_append.mp h).2.2 _ hm _ (by simp) rfl
    change d.insertAll (d.insert a bs) as = _
    rw [d.insert_of_not_mem hnot, ih (by simpa [d.key_make] using h)]
    simp

theorem get?_insertAll (bs : List β) (as : List α) (k : κ) :
    d.get? (d.insertAll bs as) k = d.gather (d.get? bs k) (as.filter (d.keyOf · = k)) := by
  induction as generalizing bs with
  | nil => cases h : d.get? bs k <;> simp [insertAll, h, gather]
  | cons a as ih =>
    change d.get? (d.insertAll (d.insert a bs) as) k = _
    rw [ih, get?_insert]
    by_cases hk : d.keyOf a = k
    · rw [if_pos hk, ← gather_append]
      simp [hk]
    · simp [hk]

theorem filter_key_eq {bs : List β} (h : (bs.map d.key).Nodup) (k : κ) :
    bs.filter (d.key · = k) = (d.get? bs k).toList := by
  induction bs with
  | nil => rfl
  | cons b bs ih =>
    obtain ⟨hb, hbs⟩ := List.nodup_cons.mp h
    by_cases hk : d.key b = k
    · have hrest : bs.filter (d.key · = k) = [] := by
        apply List.filter_eq_nil_iff.mpr
        intro other ho
        have hne : d.key other ≠ k := fun he => hb (hk ▸ he ▸ List.mem_map_of_mem ho)
        simp [hne]
      simp [get?, hk, hrest]
    · have hget : d.get? (b :: bs) k = d.get? bs k := by simp [get?, hk]
      rw [hget, ← ih hbs]
      simp [hk]

theorem get?_key {bs : List β} (h : (bs.map d.key).Nodup) {b : β} (hb : b ∈ bs) :
    d.get? bs (d.key b) = some b := by
  have hf : b ∈ bs.filter (d.key · = d.key b) := List.mem_filter.mpr ⟨hb, by simp⟩
  rwa [d.filter_key_eq h, Option.mem_toList] at hf

def first (key : α → κ) : Keyed α α κ where
  key := key
  keyOf := key
  make := id
  update b _ := b
  key_make _ := rfl
  key_update _ _ := rfl

theorem first_insert (key : α → κ) (a : α) (bs : List α) :
    (first key).insert a bs = if key a ∈ bs.map key then bs else bs ++ [a] := by
  induction bs with
  | nil => rfl
  | cons b bs ih =>
    by_cases hb : key b = key a
    · simp [insert, first, hb]
    · have hstep : (first key).insert a (b :: bs) = b :: (first key).insert a bs := if_neg hb
      simp only [hstep, ih, List.map_cons, List.mem_cons, Ne.symm hb, false_or]
      split <;> rfl

theorem mem_of_mem_first {key : α → κ} {bs as : List α} {b : α}
    (h : b ∈ (first key).insertAll bs as) : b ∈ bs ∨ b ∈ as := by
  induction as generalizing bs with
  | nil => exact Or.inl h
  | cons a as ih =>
    change b ∈ (first key).insertAll ((first key).insert a bs) as at h
    rcases ih h with h | h
    · rw [first_insert] at h
      split at h
      · exact Or.inl h
      · exact (List.mem_append.mp h).imp_right fun hb => by simp [List.mem_singleton.mp hb]
    · exact Or.inr (List.mem_cons_of_mem a h)

end Keyed
end HookEvents
