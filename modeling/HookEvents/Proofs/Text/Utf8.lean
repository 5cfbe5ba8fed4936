import HookEvents.Proofs.Text.Split
import HookEvents.Text.Utf8

/-!
Text as UTF-8 bytes. The order of texts by code points is the order of their bytes, and the lossy
reading of bytes gives back a text from its own bytes.
-/
namespace HookEvents.Text

theorem utf8Bytes_eq (s : String) : utf8Bytes s = s.toList.flatMap String.utf8EncodeChar := by
  rw [utf8Bytes, String.toUTF8, ← String.utf8Encode_toList, List.utf8Encode,
    List.data_toByteArray]

@[simp]
theorem utf8Bytes_append (s t : String) : utf8Bytes (s ++ t) = utf8Bytes s ++ utf8Bytes t := by
  simp [utf8Bytes_eq]

theorem decodeUtf8?_eq_some_iff {bytes : List UInt8} {s : String} :
    decodeUtf8? bytes = some s ↔ bytes = utf8Bytes s := by
  rw [decodeUtf8?, String.fromUTF8?]
  constructor
  · intro h
    split at h
    · rw [← Option.some.inj h]
      rfl
    · exact absurd h (by simp)
  · rintro rfl
    exact dif_pos s.isValidUTF8

theorem utf8Bytes_inj {s t : String} : utf8Bytes s = utf8Bytes t ↔ s = t := by
  constructor
  · intro h
    have hs : decodeUtf8? (utf8Bytes s) = some s := decodeUtf8?_eq_some_iff.mpr rfl
    rw [decodeUtf8?_eq_some_iff.mpr h] at hs
    exact (Option.some.inj hs).symm
  · rintro rfl
    rfl

theorem eq_of_mem_utf8EncodeChar {c : Char} {b : UInt8} (hb : b.toNat < 128)
    (h : b ∈ String.utf8EncodeChar c) : c.toNat = b.toNat := by
  change c.val.toNat = b.toNat
  rw [String.utf8EncodeChar] at h
  have hvalue (n : Nat) : (UInt8.ofNat n).toNat = n % 256 := UInt8.toNat_ofNat'
  repeat' split at h
  all_goals grind

theorem utf8EncodeChar_ascii {c : Char} (hc : c.toNat < 128) :
    String.utf8EncodeChar c = [UInt8.ofNat c.toNat] := by
  rw [String.utf8EncodeChar]
  exact if_pos (Nat.le_of_lt_succ hc)

theorem cons_byte_lt_iff {m n : Nat} (hm : m < 256) (hn : n < 256) (s t : List UInt8) :
    UInt8.ofNat m :: s < UInt8.ofNat n :: t ↔ m < n ∨ m = n ∧ s < t := by
  rw [List.cons_lt_cons_iff, UInt8.lt_iff_toNat_lt, ← UInt8.toNat_inj, UInt8.toNat_ofNat',
    UInt8.toNat_ofNat', Nat.mod_eq_of_lt hm, Nat.mod_eq_of_lt hn]

/-- Of two numbers the first digit to the base 64 that differs decides. -/
theorem digits_of_lt {m n : Nat} (h : m < n) :
    m / 262144 < n / 262144 ∨
    m / 262144 = n / 262144 ∧ (m / 4096 % 64 < n / 4096 % 64 ∨
    m / 4096 % 64 = n / 4096 % 64 ∧ (m / 64 % 64 < n / 64 % 64 ∨
    m / 64 % 64 = n / 64 % 64 ∧ m % 64 < n % 64)) := by
  have hstep {k l : Nat} (hkl : k < l) : k / 64 < l / 64 ∨ k / 64 = l / 64 ∧ k % 64 < l % 64 := by
    omega
  have hdiv (k : Nat) : k / 64 / 64 = k / 4096 ∧ k / 4096 / 64 = k / 262144 :=
    ⟨Nat.div_div_eq_div_mul k 64 64, Nat.div_div_eq_div_mul k 4096 64⟩
  have hm := hdiv m
  have hn := hdiv n
  rcases hstep h with hlt | hlast
  · rcases hstep hlt with hlt | hthird
    · rcases hstep (hm.1 ▸ hn.1 ▸ hlt) with hlt | hsecond
      · exact .inl (hm.2 ▸ hn.2 ▸ hlt)
      · exact .inr ⟨hm.2 ▸ hn.2 ▸ hsecond.1, .inl hsecond.2⟩
    · rw [hm.1, hn.1] at hthird
      exact .inr ⟨by omega, .inr ⟨by omega, .inl hthird.2⟩⟩
  · exact .inr ⟨by omega, .inr ⟨by omega, .inr ⟨by omega, hlast.2⟩⟩⟩

theorem utf8EncodeChar_append_lt {c d : Char} (h : c < d) (s t : List UInt8) :
    String.utf8EncodeChar c ++ s < String.utf8EncodeChar d ++ t := by
  have hlt : c.val.toNat < d.val.toNat := h
  have hd : d.val.toNat < 0x110000 := by
    rcases d.valid with hd | hd <;> omega
  rw [String.utf8EncodeChar, String.utf8EncodeChar]
  generalize c.val.toNat = m at hlt ⊢
  generalize d.val.toNat = n at hlt hd ⊢
  have hdigits := digits_of_lt hlt
  have hlead : m / 262144 % 8 = m / 262144 ∧ n / 262144 % 8 = n / 262144 :=
    ⟨Nat.mod_eq_of_lt (by omega), Nat.mod_eq_of_lt (by omega)⟩
  -- Characters with unequally many bytes differ in the first one.
  repeat' split
  all_goals
    simp (disch := omega) only [List.cons_append, List.nil_append, cons_byte_lt_iff]
    omega

theorem flatMap_utf8EncodeChar_lt {cs ds : List Char} (h : cs < ds) :
    cs.flatMap String.utf8EncodeChar < ds.flatMap String.utf8EncodeChar := by
  induction cs generalizing ds with
  | nil =>
    cases ds with
    | nil => exact absurd h (List.lt_irrefl _)
    | cons d ds =>
      rw [List.flatMap_nil, List.flatMap_cons]
      cases hbytes : String.utf8EncodeChar d with
      | nil => exact absurd hbytes (String.utf8EncodeChar_ne_nil)
      | cons b bytes => exact List.nil_lt_cons _ _
  | cons c cs ih =>
    cases ds with
    | nil => exact absurd h (List.not_lt_nil _)
    | cons d ds =>
      rw [List.flatMap_cons, List.flatMap_cons]
      rcases List.cons_lt_cons_iff.mp h with hlt | ⟨rfl, hlt⟩
      · exact utf8EncodeChar_append_lt hlt _ _
      · exact List.append_left_lt (ih hlt)

theorem utf8Bytes_not_lt {s t : String} (h : s ≤ t) : ¬utf8Bytes t < utf8Bytes s := by
  rw [utf8Bytes_eq, utf8Bytes_eq]
  by_cases heq : s = t
  · rw [heq]
    exact List.lt_irrefl _
  · have hlt : s < t := String.not_le.mp fun hge => heq (String.le_antisymm h hge)
    exact List.lt_asymm (flatMap_utf8EncodeChar_lt (String.lt_iff.mp hlt))

theorem mem_utf8Bytes_iff {c : Char} (hc : c.toNat < 128) {s : String} :
    UInt8.ofNat c.toNat ∈ utf8Bytes s ↔ c ∈ s.toList := by
  have hnumber : (UInt8.ofNat c.toNat).toNat = c.toNat := by
    rw [UInt8.toNat_ofNat', Nat.mod_eq_of_lt (by omega)]
  rw [utf8Bytes_eq, List.mem_flatMap]
  constructor
  · rintro ⟨d, hd, hmem⟩
    have hsame := eq_of_mem_utf8EncodeChar (by omega) hmem
    rw [hnumber] at hsame
    rwa [← Char.toNat_inj.mp hsame]
  · intro hmem
    exact ⟨c, hmem, by simp [utf8EncodeChar_ascii hc]⟩

theorem utf8Bytes_join (sep : String) (parts : List String) :
    utf8Bytes (join sep parts) = List.intercalate (utf8Bytes sep) (parts.map utf8Bytes) := by
  induction parts with
  | nil => rfl
  | cons part parts ih =>
    by_cases hp : parts = []
    · simp [hp]
    · rw [join_cons sep part hp, utf8Bytes_append, utf8Bytes_append, ih, List.map_cons,
        List.intercalate_cons_of_ne_nil (by simpa using hp), List.append_assoc]

theorem splitOn_utf8Bytes {c : Char} {sep : String} (hc : c.toNat < 128) (hs : sep.toList = [c])
    (s : String) :
    (utf8Bytes s).splitOn (UInt8.ofNat c.toNat) = (split c s).map utf8Bytes := by
  have hsep : utf8Bytes sep = [UInt8.ofNat c.toNat] := by
    simp [utf8Bytes_eq, hs, utf8EncodeChar_ascii hc]
  have hbytes := utf8Bytes_join sep (split c s)
  rw [join_split hs, hsep] at hbytes
  rw [hbytes]
  apply List.splitOn_intercalate
  · intro bytes hb
    obtain ⟨piece, hp, rfl⟩ := List.mem_map.mp hb
    rw [mem_utf8Bytes_iff hc]
    exact not_mem_of_mem_split hp
  · simp [split_ne_nil]

section Lossy

theorem firstChar?_append (c : Char) (rest : List UInt8) :
    firstChar? (String.utf8EncodeChar c ++ rest) = some c := by
  have hbytes : ⟨(String.utf8EncodeChar c ++ rest).toArray⟩ =
      (String.utf8EncodeChar c).toByteArray ++ rest.toByteArray := by
    apply ByteArray.ext
    simp [List.data_toByteArray]
  rw [firstChar?, hbytes, ByteArray.utf8DecodeChar?_utf8EncodeChar_append]

theorem exists_append_of_firstChar? {bytes : List UInt8} {c : Char}
    (h : firstChar? bytes = some c) : ∃ rest, bytes = String.utf8EncodeChar c ++ rest := by
  have hbytes := congrArg (fun array => array.data.toList)
    (String.toByteArray_utf8EncodeChar_of_utf8DecodeChar?_eq_some h)
  refine ⟨bytes.drop c.utf8Size, ?_⟩
  have htake : String.utf8EncodeChar c = bytes.take c.utf8Size := by
    simpa [List.data_toByteArray] using hbytes
  rw [htake, List.take_append_drop]

theorem lossyFrom_eq_drop (skipped : Nat) (bytes : List UInt8) :
    lossyFrom skipped bytes = lossyFrom 0 (bytes.drop skipped) := by
  induction bytes generalizing skipped with
  | nil => simp [lossyFrom]
  | cons byte bytes ih =>
    cases skipped with
    | zero => rfl
    | succ skipped => rw [lossyFrom, ih, List.drop_succ_cons]

theorem lossyFrom_append (c : Char) (rest : List UInt8) :
    lossyFrom 0 (String.utf8EncodeChar c ++ rest) = c :: lossyFrom 0 rest := by
  have hfirst := firstChar?_append c rest
  have hlength := String.length_utf8EncodeChar c
  cases hbytes : String.utf8EncodeChar c with
  | nil => exact absurd hbytes String.utf8EncodeChar_ne_nil
  | cons byte bytes =>
    rw [hbytes, List.length_cons] at hlength
    rw [hbytes, List.cons_append] at hfirst
    rw [List.cons_append, lossyFrom, hfirst]
    dsimp only
    rw [lossyFrom_eq_drop, ← hlength, Nat.add_sub_cancel, List.drop_left]

theorem lossy_utf8Bytes (s : String) : lossy (utf8Bytes s) = s := by
  have hchars (cs : List Char) : lossyFrom 0 (cs.flatMap String.utf8EncodeChar) = cs := by
    induction cs with
    | nil => rfl
    | cons c cs ih => rw [List.flatMap_cons, lossyFrom_append, ih]
  rw [lossy, utf8Bytes_eq, hchars, String.ofList_toList]

theorem mem_of_mem_lossyFrom {c : Char} (hc : c.toNat < 128) {skipped : Nat} {bytes : List UInt8}
    (h : c ∈ lossyFrom skipped bytes) : UInt8.ofNat c.toNat ∈ bytes := by
  fun_induction lossyFrom skipped bytes with
  | case1 => exact absurd h List.not_mem_nil
  | case2 skipped byte bytes ih => exact List.mem_cons_of_mem _ (ih h)
  | case3 byte bytes d hfirst ih =>
    rcases List.mem_cons.mp h with rfl | h
    · obtain ⟨rest, hrest⟩ := exists_append_of_firstChar? hfirst
      rw [hrest, utf8EncodeChar_ascii hc]
      exact List.mem_cons_self
    · exact List.mem_cons_of_mem _ (ih h)
  | case4 byte bytes hfirst ih =>
    rcases List.mem_cons.mp h with rfl | h
    · exact absurd hc (by decide)
    · exact List.mem_cons_of_mem _ (ih h)

theorem brokenLength_append {byte : UInt8} (hb : byte.toNat < 128) (first : UInt8)
    (front back : List UInt8) :
    brokenLength (first :: front ++ byte :: back) = brokenLength (first :: front) ∧
      brokenLength (first :: front) ≤ front.length + 1 := by
  have hnot : isContinuation byte = false := by
    have hlt : ¬(128 : UInt8) ≤ byte := by
      rw [UInt8.le_iff_toNat_le]
      exact Nat.not_le.mpr hb
    simp [isContinuation, hlt]
  have hsecond : isSecond first byte = false := by simp [isSecond, hnot]
  cases front with
  | nil => simp [brokenLength, hsecond]
  | cons second front =>
    cases front with
    | nil => simp only [List.cons_append, List.nil_append, brokenLength, hnot]; grind
    | cons third front => simp only [List.cons_append, brokenLength]; grind

theorem append_of_firstChar? {byte : UInt8} (hb : byte.toNat < 128) {front back : List UInt8}
    (hf : front ≠ []) {c : Char} (h : firstChar? (front ++ byte :: back) = some c) :
    ∃ rest, front = String.utf8EncodeChar c ++ rest := by
  obtain ⟨rest, hrest⟩ := exists_append_of_firstChar? h
  rcases List.append_eq_append_iff.mp hrest with ⟨more, hchar, hmore⟩ | ⟨rest, hfront, -⟩
  · cases more with
    | nil => exact ⟨[], by simp [hchar]⟩
    | cons other more =>
      -- the character would have the byte in it, which is a character of its own
      obtain rfl : byte = other := (List.cons.inj hmore).1
      have hsame := eq_of_mem_utf8EncodeChar (c := c) hb (by simp [hchar])
      have hlength := congrArg List.length hchar
      rw [utf8EncodeChar_ascii (by omega), List.length_append] at hlength
      have hpos := List.length_pos_iff.mpr hf
      simp only [List.length_cons, List.length_nil] at hlength
      omega
  · exact ⟨rest, hfront⟩

theorem lossyFrom_boundary {byte : UInt8} (hb : byte.toNat < 128) (front back : List UInt8) :
    lossyFrom 0 (front ++ byte :: back) = lossyFrom 0 front ++ lossyFrom 0 (byte :: back) := by
  induction hn : front.length using Nat.strongRecOn generalizing front with
  | ind n ih =>
    subst hn
    cases front with
    | nil => simp [lossyFrom]
    | cons first front =>
      cases hfirst : firstChar? (first :: front ++ byte :: back) with
      | some c =>
        obtain ⟨rest, hrest⟩ := append_of_firstChar? hb (by simp) hfirst
        have hlength := congrArg List.length hrest
        have hpos := List.length_pos_iff.mpr (String.utf8EncodeChar_ne_nil (c := c))
        rw [List.length_append] at hlength
        rw [hrest, List.append_assoc, lossyFrom_append, lossyFrom_append,
          ih rest.length (by omega) rest rfl, List.cons_append]
      | none =>
        have hnone : firstChar? (first :: front) = none := by
          cases hc : firstChar? (first :: front) with
          | none => rfl
          | some c =>
            obtain ⟨rest, hrest⟩ := exists_append_of_firstChar? hc
            rw [hrest, List.append_assoc, firstChar?_append] at hfirst
            exact absurd hfirst (by simp)
        obtain ⟨hsame, hle⟩ := brokenLength_append hb first front back
        rw [List.cons_append] at hfirst hsame
        rw [List.cons_append, lossyFrom, lossyFrom, hfirst, hnone]
        dsimp only
        rw [hsame, lossyFrom_eq_drop, lossyFrom_eq_drop _ front, List.cons_append,
          List.drop_append_of_le_length (by omega)]
        rw [ih _ _ _ rfl]
        simp only [List.length_drop, List.length_cons]
        omega

theorem lossy_intercalate {c : Char} {sep : String} (hc : c.toNat < 128) (hs : sep.toList = [c])
    (parts : List (List UInt8)) :
    lossy (List.intercalate [UInt8.ofNat c.toNat] parts) = join sep (parts.map lossy) := by
  have hbyte : (UInt8.ofNat c.toNat).toNat < 128 := by
    rw [UInt8.toNat_ofNat', Nat.mod_eq_of_lt (by omega)]
    exact hc
  induction parts with
  | nil => rfl
  | cons part parts ih =>
    by_cases hp : parts = []
    · simp [hp]
    · have hrest := lossyFrom_append c (List.intercalate [UInt8.ofNat c.toNat] parts)
      rw [utf8EncodeChar_ascii hc, List.singleton_append] at hrest
      rw [List.intercalate_cons_of_ne_nil hp, List.map_cons, join_cons _ _ (by simpa using hp), ← ih,
        List.append_assoc, List.singleton_append, lossy, lossyFrom_boundary hbyte, hrest,
        ← String.toList_inj]
      simp [lossy, hs]

end Lossy

end HookEvents.Text
