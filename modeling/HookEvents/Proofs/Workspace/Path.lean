import HookEvents.Proofs.Text.Utf8
import HookEvents.Workspace.Path

namespace HookEvents

open Text

namespace FileName

@[simp]
theorem ofText_inj {s t : String} : ofText s = ofText t ↔ s = t := by
  rw [ofText, ofText, FileName.mk.injEq, utf8Bytes_inj]

theorem text?_eq_some_iff {name : FileName} {s : String} : name.text? = some s ↔ name = ofText s := by
  rw [text?, decodeUtf8?_eq_some_iff]
  constructor
  · intro h
    cases name
    exact congrArg FileName.mk h
  · rintro rfl
    rfl

@[simp]
theorem text?_ofText (s : String) : (ofText s).text? = some s := text?_eq_some_iff.mpr rfl

@[simp]
theorem lossy_ofText (s : String) : (ofText s).lossy = s := lossy_utf8Bytes s

@[simp]
theorem up_ne_here : up ≠ here := by simp [up, here]

end FileName

namespace Path

open FileName

theorem parts_utf8Bytes (path : String) : parts (utf8Bytes path) = (split '/' path).map ofText := by
  have hcut := splitOn_utf8Bytes (by decide : '/'.toNat < 128) (by decide : "/".toList = ['/']) path
  rw [parts, show slash = UInt8.ofNat '/'.toNat by decide, hcut, List.map_map]
  rfl

theorem isName_ofText {s : String} : isName (ofText s) = true ↔ s ≠ "" ∧ s ≠ "." := by
  simp [isName, here]

/-- The names on a path, without the step that a slash at its end leaves. -/
def names (path : String) : List FileName := (parts (utf8Bytes path)).filter isName

theorem here_notMem_names (path : String) : here ∉ names path := by
  simp [names, isName]

theorem steps_eq (path : String) :
    steps (utf8Bytes path) = names path ∨ steps (utf8Bytes path) = names path ++ [here] := by
  unfold steps
  dsimp only
  split
  · exact Or.inr rfl
  · exact Or.inl rfl

theorem filter_steps (path : String) :
    (steps (utf8Bytes path)).filter (· ≠ here) = names path := by
  have hnames : (names path).filter (· ≠ here) = names path := by
    apply List.filter_eq_self.mpr
    intro name hn
    exact decide_eq_true fun hdot => here_notMem_names path (hdot ▸ hn)
  rcases steps_eq path with h | h
  · rw [h, hnames]
  · rw [h, List.filter_append, hnames]
    simp

theorem steps_of_split {path : String} {front : List String} {name : String}
    (h : split '/' path = front ++ [name]) (hn : name ≠ "" ∧ name ≠ ".") :
    steps (utf8Bytes path) = (front.map ofText).filter isName ++ [ofText name] := by
  have hname := isName_ofText.mpr hn
  unfold steps
  dsimp only
  rw [parts_utf8Bytes, h, List.map_append, List.map_singleton, List.getLastD_concat, hname]
  simp [hname]

theorem exists_append_of_getLast? {path : String} {name : FileName}
    (h : (steps (utf8Bytes path)).getLast? = some name) (hn : name ≠ here) :
    ∃ front last, path = front ++ last ∧ name = ofText last := by
  rcases List.eq_nil_or_concat (split '/' path) with hnil | ⟨front, last, hparts⟩
  · exact absurd hnil (split_ne_nil '/' path)
  rw [List.concat_eq_append] at hparts
  have hend : ∃ before, path = before ++ last := by
    have hjoin : Text.join "/" (front ++ [last]) = path := hparts ▸ join_split rfl path
    by_cases hf : front = []
    · rw [hf, List.nil_append, join_singleton] at hjoin
      exact ⟨"", by simp [hjoin]⟩
    · rw [join_append "/" hf (by simp), join_singleton] at hjoin
      exact ⟨_, hjoin.symm⟩
  by_cases hlast : isName (ofText last) = true
  · rw [steps_of_split hparts (isName_ofText.mp hlast), List.getLast?_concat] at h
    obtain ⟨before, hbefore⟩ := hend
    exact ⟨before, last, hbefore, (Option.some.inj h).symm⟩
  · -- a slash or a dot at the end leaves the step `here`, unless there is nothing before it
    rw [Bool.not_eq_true] at hlast
    unfold steps at h
    dsimp only at h
    rw [parts_utf8Bytes, hparts, List.map_append, List.map_singleton, List.getLastD_concat,
      hlast] at h
    cases front with
    | nil => simp [hlast] at h
    | cons first front =>
      rw [if_pos (by simp), List.getLast?_concat] at h
      exact absurd (Option.some.inj h).symm hn

theorem isAbsolute_of_no_slash {name : String} (hs : '/' ∉ name.toList) :
    isAbsolute name = false := by
  apply Bool.eq_false_iff.mpr
  intro h
  obtain ⟨rest, rfl⟩ := startsWith_iff.mp h
  exact hs (by simp)

theorem steps_join (base : String) {name : String} (hn : name ≠ "" ∧ name ≠ ".")
    (hs : '/' ∉ name.toList) :
    steps (utf8Bytes (join base name)) = names base ++ [ofText name] := by
  have hname : split '/' name = [name] := split_of_not_mem hs
  unfold join
  rw [isAbsolute_of_no_slash hs, Bool.false_or]
  by_cases hb : base = ""
  · have hparts : split '/' name = [] ++ [name] := hname
    rw [if_pos (by simp [hb]), steps_of_split hparts hn, hb]
    rfl
  rw [if_neg (by simp [hb])]
  by_cases hslash : endsWith "/" base = true
  · rw [if_pos hslash]
    obtain ⟨front, rfl⟩ := endsWith_iff.mp hslash
    have hbase : split '/' (front ++ "/") = split '/' front ++ [""] := by
      have happend : split '/' (front ++ "/" ++ "") = split '/' front ++ split '/' "" :=
        split_append rfl front ""
      rwa [String.append_empty] at happend
    rw [steps_of_split (by rw [split_append rfl, hname]) hn, names, parts_utf8Bytes, hbase,
      List.map_append, List.filter_append]
    simp [isName]
  · rw [if_neg hslash, steps_of_split (by rw [split_append rfl, hname]) hn, names, parts_utf8Bytes]

theorem isAbsolute_append {base : String} (hb : base ≠ "") (rest : String) :
    isAbsolute (base ++ rest) = isAbsolute base := by
  unfold isAbsolute startsWith
  rw [String.toList_append]
  cases hcs : base.toList with
  | nil => exact absurd (String.toList_eq_nil_iff.mp hcs) hb
  | cons c cs =>
    by_cases hc : '/' = c
    · subst hc
      simp [dropStartChars]
    · simp [dropStartChars, hc]

theorem isAbsolute_join (base : String) {name : String} (ha : isAbsolute name = false) :
    isAbsolute (join base name) = isAbsolute base := by
  unfold join
  rw [ha, Bool.false_or]
  by_cases hb : base = ""
  · rw [if_pos (by simp [hb]), ha, hb]
    rfl
  · rw [if_neg (by simp [hb])]
    by_cases hslash : endsWith "/" base = true
    · rw [if_pos hslash, isAbsolute_append hb]
    · rw [if_neg hslash, String.append_assoc, isAbsolute_append hb]

theorem exists_join_eq (base : String) :
    ∃ front, ∀ name, isAbsolute name = false → join base name = front ++ name := by
  by_cases hb : base = ""
  · refine ⟨"", fun name hn => ?_⟩
    rw [join, if_pos (by simp [hb]), String.empty_append]
  by_cases hslash : endsWith "/" base = true
  · refine ⟨base, fun name hn => ?_⟩
    rw [join, if_neg (by simp [hn, hb]), if_pos hslash]
  · refine ⟨base ++ "/", fun name hn => ?_⟩
    rw [join, if_neg (by simp [hn, hb]), if_neg hslash]

theorem join_right_injective (base : String) {name other : String} (hn : isAbsolute name = false)
    (ho : isAbsolute other = false) (h : join base name = join base other) : name = other := by
  obtain ⟨front, hfront⟩ := exists_join_eq base
  rw [hfront name hn, hfront other ho] at h
  simpa using h

theorem locate_join {directory : List FileName} (hd : here ∉ directory) (base : String)
    {name : String} (hn : name ≠ "" ∧ name ≠ ".") (hs : '/' ∉ name.toList) :
    locate directory (join base name) =
      (locate directory base).filter (· ≠ here) ++ [ofText name] := by
  have hdirectory : directory.filter (· ≠ here) = directory := by
    apply List.filter_eq_self.mpr
    intro step hstep
    exact decide_eq_true fun hdot => hd (hdot ▸ hstep)
  rw [locate, locate, isAbsolute_join base (isAbsolute_of_no_slash hs), steps_join base hn hs]
  by_cases hb : isAbsolute base = true
  · rw [if_pos hb, if_pos hb, filter_steps]
  · rw [if_neg hb, if_neg hb, List.filter_append, hdirectory, filter_steps, List.append_assoc]

end Path

end HookEvents
