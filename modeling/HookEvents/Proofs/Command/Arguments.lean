import HookEvents.Command.Arguments
import HookEvents.Proofs.Text.Split

/-!
Which options a command line gives: an option is there only if an argument spells it, and a flag that
stands before `--` is there if the command line is understood at all.
-/
namespace HookEvents

open Text

namespace Given

theorem has_iff {given : Given} {long : String} :
    given.has long = true ↔ ∃ option ∈ given.options, option.1 = long := by
  simp [has]

theorem last?_eq_none {given : Given} {long : String} (h : given.has long = false) :
    given.last? long = none := by
  have hnone : given.options.filter (fun option => option.1 = long) = [] := by
    apply List.filter_eq_nil_iff.mpr
    intro option ho hlong
    rw [has_iff.mpr ⟨option, ho, of_decide_eq_true hlong⟩] at h
    exact absurd h (by simp)
  rw [last?, all, hnone]
  rfl

end Given

namespace Arguments

variable {forms : List OptionForm} {given next result : Given} {rest left : List String}

def TakesValue (rest left : List String) : Prop :=
  left = rest ∨ ∃ value, rest = value :: left ∧ isOption value = false

theorem isOption_long (text : String) : isOption ("--" ++ text) = true := by
  rw [isOption, startsWith_iff.mpr ⟨"-" ++ text, by simp [← String.toList_inj]⟩]
  simp [← String.toList_inj]

def beforeEnd (arguments : List String) : List String := arguments.takeWhile (· ≠ "--")

theorem beforeEnd_cons {argument : String} (h : argument ≠ "--") (rest : List String) :
    beforeEnd (argument :: rest) = argument :: beforeEnd rest :=
  List.takeWhile_cons_of_pos (by simpa using h)

theorem TakesValue.beforeEnd (h : TakesValue rest left) :
    TakesValue (beforeEnd rest) (beforeEnd left) := by
  rcases h with rfl | ⟨value, rfl, hvalue⟩
  · exact Or.inl rfl
  · have hmark : value ≠ "--" := by
      rintro rfl
      exact absurd ((isOption_long "").symm.trans hvalue) (by simp)
    exact Or.inr ⟨value, beforeEnd_cons hmark left, hvalue⟩

theorem options_addOption {form : OptionForm} {value : String}
    (h : addOption form value given = some next) :
    next.options = given.options ++ [(form.long, value)] := by
  unfold addOption at h
  split at h
  · exact absurd h (by simp)
  · obtain rfl := Option.some.inj h
    rfl

theorem options_addPath {path : String} (h : addPath path given = some next) :
    next.options = given.options := by
  unfold addPath at h
  split at h
  · exact absurd h (by simp)
  · obtain rfl := Option.some.inj h
    rfl

theorem orBad_eq_next {added : Option Given} (h : orBad added rest = .next next left) :
    added = some next ∧ left = rest := by
  unfold orBad at h
  cases added with
  | none => exact absurd h (by simp)
  | some given =>
    obtain ⟨rfl, rfl⟩ := Step.next.inj h
    exact ⟨rfl, rfl⟩

theorem takeValue_eq_next {form : OptionForm} (h : takeValue form given rest = .next next left) :
    (∃ value, next.options = given.options ++ [(form.long, value)]) ∧ TakesValue rest left := by
  cases rest with
  | nil => exact absurd h (by simp [takeValue])
  | cons value rest =>
    rw [takeValue] at h
    split at h
    · exact absurd h (by simp)
    next hvalue =>
      obtain ⟨hadded, rfl⟩ := orBad_eq_next h
      exact ⟨⟨value, options_addOption hadded⟩, Or.inr ⟨value, rfl, by simpa using hvalue⟩⟩

theorem readLong_eq_next {text : String} (h : readLong forms given text rest = .next next left) :
    ∃ form ∈ forms, (text = form.long ∨ ∃ value, text = form.long ++ ("=" ++ value)) ∧
      (∃ value, next.options = given.options ++ [(form.long, value)]) ∧ TakesValue rest left := by
  unfold readLong at h
  cases hsplit : splitFirst '=' text with
  | none =>
    rw [hsplit] at h
    dsimp only at h
    cases hform : forms.find? fun form => form.long = text with
    | none =>
      rw [hform] at h
      dsimp only at h
      split at h <;> exact absurd h (by simp)
    | some form =>
      rw [hform] at h
      dsimp only at h
      have hlong : form.long = text := by simpa using List.find?_some hform
      refine ⟨form, List.mem_of_find?_eq_some hform, Or.inl hlong.symm, ?_⟩
      split at h
      · obtain ⟨hadded, rfl⟩ := orBad_eq_next h
        exact ⟨⟨"", options_addOption hadded⟩, Or.inl rfl⟩
      · exact takeValue_eq_next h
  | some parts =>
    obtain ⟨name, value⟩ := parts
    rw [hsplit] at h
    dsimp only at h
    cases hform : forms.find? fun form => form.long = name with
    | none =>
      rw [hform] at h
      exact absurd h (by simp)
    | some form =>
      rw [hform] at h
      dsimp only at h
      have hlong : form.long = name := by simpa using List.find?_some hform
      refine ⟨form, List.mem_of_find?_eq_some hform, Or.inr ⟨value, ?_⟩, ?_⟩
      · rw [hlong]
        exact splitFirst_eq_some rfl hsplit
      · split at h
        · exact absurd h (by simp)
        · obtain ⟨hadded, rfl⟩ := orBad_eq_next h
          exact ⟨⟨value, options_addOption hadded⟩, Or.inl rfl⟩

theorem readShort_eq_next {cs : List Char} (h : readShort forms rest given cs = .next next left) :
    (∃ added, next.options = given.options ++ added ∧
      ∀ option ∈ added, ∃ form ∈ forms, form.long = option.1 ∧ form.short ≠ none) ∧
      TakesValue rest left := by
  induction cs generalizing given with
  | nil =>
    obtain ⟨rfl, rfl⟩ := Step.next.inj h
    exact ⟨⟨[], by simp, by simp⟩, Or.inl rfl⟩
  | cons c cs ih =>
    rw [readShort] at h
    split at h
    next form hform =>
      have hmem := List.mem_of_find?_eq_some hform
      have hshort : form.short ≠ none := by
        have hc : form.short = some c := by simpa using List.find?_some hform
        simp [hc]
      have hone : ∀ {value : String} {given next : Given},
          next.options = given.options ++ [(form.long, value)] →
          ∃ added, next.options = given.options ++ added ∧
            ∀ option ∈ added, ∃ form ∈ forms, form.long = option.1 ∧ form.short ≠ none := by
        intro value given next ho
        refine ⟨_, ho, fun option hoption => ⟨form, hmem, ?_, hshort⟩⟩
        rw [List.mem_singleton.mp hoption]
      split at h
      · split at h
        next mid hadded =>
          obtain ⟨⟨added, hnext, hforms⟩, hvalue⟩ := ih h
          obtain ⟨first, hmid, hfirst⟩ := hone (options_addOption hadded)
          refine ⟨⟨first ++ added, by rw [hnext, hmid, List.append_assoc], ?_⟩, hvalue⟩
          exact List.forall_mem_append.mpr ⟨hfirst, hforms⟩
        · exact absurd h (by simp)
      · split at h
        · obtain ⟨⟨value, hnext⟩, hvalue⟩ := takeValue_eq_next h
          exact ⟨hone hnext, hvalue⟩
        · obtain ⟨hadded, rfl⟩ := orBad_eq_next h
          exact ⟨hone (options_addOption hadded), Or.inl rfl⟩
        · obtain ⟨hadded, rfl⟩ := orBad_eq_next h
          exact ⟨hone (options_addOption hadded), Or.inl rfl⟩
    · split at h <;> exact absurd h (by simp)

/-- What an argument does to what is given: it adds options, of which those without a short name are
spelled by it. -/
structure Advances (forms : List OptionForm) (argument : String) (given next : Given)
    (rest left : List String) : Prop where
  options : ∃ added, next.options = given.options ++ added ∧
    (∀ option ∈ added, ∃ form ∈ forms, form.long = option.1 ∧
      (form.short = none → startsWith ("--" ++ option.1) argument = true)) ∧
    ∀ long, '=' ∉ long.toList → argument = "--" ++ long → ∃ option ∈ added, option.1 = long
  value : TakesValue rest left

theorem read_cons_eq_done {fuel : Nat} {argument : String}
    (h : read forms (fuel + 1) given (argument :: rest) = .done result) :
    (argument = "--" ∧ readPaths given rest = .done result) ∨
      (argument ≠ "--" ∧ ∃ next left, Advances forms argument given next rest left ∧
        read forms fuel next left = .done result) := by
  rw [read] at h
  split at h
  next hend => exact Or.inl ⟨hend, h⟩
  next hend =>
  refine Or.inr ⟨hend, ?_⟩
  split at h
  next next left hstep =>
    refine ⟨next, left, ?_, h⟩
    split at hstep
    next text htext =>
      obtain rfl := dropStart_eq_some.mp htext
      obtain ⟨form, hform, hspelled, ⟨value, hnext⟩, hvalue⟩ := readLong_eq_next hstep
      refine ⟨⟨_, hnext, ?_, ?_⟩, hvalue⟩
      · intro option ho
        rw [List.mem_singleton.mp ho]
        refine ⟨form, hform, rfl, fun _ => startsWith_iff.mpr ?_⟩
        rcases hspelled with rfl | ⟨value, rfl⟩
        · exact ⟨"", by simp⟩
        · exact ⟨"=" ++ value, by simp [String.append_assoc]⟩
      · -- a text without an equals sign is the whole name
        intro long hlong hargument
        obtain rfl : text = long := by simpa [← String.toList_inj] using hargument
        refine ⟨_, List.mem_singleton_self _, ?_⟩
        rcases hspelled with hsame | ⟨value, hsame⟩
        · exact hsame.symm
        · exact absurd (by simp [hsame]) hlong
    next htext =>
      have hshort : ∀ long, argument ≠ "--" ++ long := by
        intro long hlong
        rw [dropStart_eq_some.mpr hlong] at htext
        exact absurd htext (by simp)
      split at hstep
      · obtain ⟨⟨added, hnext, hadded⟩, hvalue⟩ := readShort_eq_next hstep
        refine ⟨⟨added, hnext, ?_, fun long _ hlong => absurd hlong (hshort long)⟩, hvalue⟩
        intro option ho
        obtain ⟨form, hform, hname, hnone⟩ := hadded option ho
        exact ⟨form, hform, hname, fun hs => absurd hs hnone⟩
      · obtain ⟨hadded, rfl⟩ := orBad_eq_next hstep
        refine ⟨⟨[], by simp [options_addPath hadded], by simp, ?_⟩, Or.inl rfl⟩
        exact fun long _ hlong => absurd hlong (hshort long)
  · exact absurd h (by simp)
  · exact absurd h (by simp)

theorem options_readPaths (h : readPaths given rest = .done result) :
    result.options = given.options := by
  induction rest generalizing given with
  | nil =>
    obtain rfl := Reading.done.inj h
    rfl
  | cons argument rest ih =>
    rw [readPaths] at h
    split at h
    next next hadded => rw [ih h, options_addPath hadded]
    · exact absurd h (by simp)

theorem has_of_read {fuel : Nat} {long : String} (h : read forms fuel given rest = .done result)
    (hg : given.has long = true) : result.has long = true := by
  induction fuel generalizing given rest with
  | zero => exact absurd h (by simp [read])
  | succ fuel ih =>
    cases rest with
    | nil =>
      obtain rfl := Reading.done.inj h
      exact hg
    | cons argument rest =>
      obtain ⟨option, ho, hlong⟩ := Given.has_iff.mp hg
      rcases read_cons_eq_done h with ⟨-, hpaths⟩ | ⟨-, next, left, hadvances, hread⟩
      · exact Given.has_iff.mpr ⟨option, by rwa [options_readPaths hpaths], hlong⟩
      · obtain ⟨added, hnext, -, -⟩ := hadvances.options
        exact ih hread (Given.has_iff.mpr ⟨option, by simp [hnext, ho], hlong⟩)

theorem not_has_of_read {fuel : Nat} {long : String}
    (hf : ∀ form ∈ forms, form.long = long → form.short = none)
    (h : read forms fuel given rest = .done result)
    (hr : ∀ argument ∈ beforeEnd rest, startsWith ("--" ++ long) argument = false)
    (hg : given.has long = false) : result.has long = false := by
  induction fuel generalizing given rest with
  | zero => exact absurd h (by simp [read])
  | succ fuel ih =>
    cases rest with
    | nil =>
      obtain rfl := Reading.done.inj h
      exact hg
    | cons argument rest =>
      rcases read_cons_eq_done h with ⟨-, hpaths⟩ | ⟨hend, next, left, hadvances, hread⟩
      · rw [Given.has, options_readPaths hpaths]
        exact hg
      obtain ⟨added, hnext, hadded, -⟩ := hadvances.options
      rw [beforeEnd_cons hend] at hr
      obtain ⟨hargument, hr⟩ := List.forall_mem_cons.mp hr
      have hleft : ∀ other ∈ beforeEnd left, other ∈ beforeEnd rest := by
        intro other ho
        rcases hadvances.value.beforeEnd with hsame | ⟨value, hsame, -⟩
        · rwa [← hsame]
        · rw [hsame]
          exact List.mem_cons_of_mem value ho
      apply ih hread fun other ho => hr other (hleft other ho)
      rw [Given.has, hnext, List.any_append, Bool.or_eq_false_iff]
      refine ⟨hg, List.any_eq_false.mpr fun option ho hlong => ?_⟩
      obtain ⟨form, hform, hname, hspelled⟩ := hadded option ho
      rw [of_decide_eq_true hlong] at hname hspelled
      rw [hspelled (hf form hform hname)] at hargument
      exact absurd hargument (by simp)

theorem has_of_mem_read {fuel : Nat} {long : String} (hl : '=' ∉ long.toList)
    (h : read forms fuel given rest = .done result)
    (hm : "--" ++ long ∈ beforeEnd rest) : result.has long = true := by
  induction fuel generalizing given rest with
  | zero => exact absurd h (by simp [read])
  | succ fuel ih =>
    cases rest with
    | nil => exact absurd hm (by simp [beforeEnd])
    | cons argument rest =>
      rcases read_cons_eq_done h with ⟨rfl, -⟩ | ⟨hend, next, left, hadvances, hread⟩
      · exact absurd hm (by simp [beforeEnd])
      obtain ⟨added, hnext, -, hspells⟩ := hadvances.options
      rw [beforeEnd_cons hend] at hm
      rcases List.mem_cons.mp hm with hargument | hm
      · obtain ⟨option, ho, hlong⟩ := hspells long hl hargument.symm
        exact has_of_read hread (Given.has_iff.mpr ⟨option, by simp [hnext, ho], hlong⟩)
      · apply ih hread
        rcases hadvances.value.beforeEnd with hsame | ⟨value, hsame, hvalue⟩
        · rwa [hsame]
        · -- an option is not taken for a value
          rw [hsame] at hm
          rcases List.mem_cons.mp hm with rfl | hm
          · rw [isOption_long] at hvalue
            exact absurd hvalue (by simp)
          · exact hm

end Arguments
end HookEvents
