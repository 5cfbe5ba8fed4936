import HookEvents.Proofs.Hook.Reference

namespace HookEvents

open Text

namespace Text

theorem map_trim_split_append {front : String} (h : ∀ c ∈ front.toList, isBlank c = true)
    (s : String) : (split '.' (front ++ s)).map trim = (split '.' s).map trim := by
  cases hs : split '.' s with
  | nil => exact absurd hs (split_ne_nil '.' s)
  | cons first rest =>
    -- the blanks belong to the first piece
    have hfront : '.' ∉ front.toList := fun hdot => absurd (h '.' hdot) (by decide)
    have hpieces : split '.' (front ++ s) = (front ++ first) :: rest := by
      have hjoin : front ++ s = join "." ((front ++ first) :: rest) := by
        have hwhole : join "." (first :: rest) = s := hs ▸ join_split rfl s
        rw [← hwhole]
        by_cases hr : rest = []
        · simp [hr]
        · simp only [join_cons "." _ hr, String.append_assoc]
      rw [hjoin]
      apply split_join_of_not_mem rfl (by simp)
      intro piece hp
      have hundotted : ∀ piece ∈ first :: rest, '.' ∉ piece.toList :=
        fun piece hp => not_mem_of_mem_split (hs ▸ hp)
      rcases List.mem_cons.mp hp with rfl | hp
      · simp [hfront, hundotted first]
      · exact hundotted piece (by simp [hp])
    have htrim : trim (front ++ first ++ "") = trim first := trim_surrounded h (by simp) first
    rw [String.append_empty] at htrim
    rw [hpieces, List.map_cons, htrim, List.map_cons]

theorem map_trim_split_blank {back : String} (h : ∀ c ∈ back.toList, isBlank c = true)
    (s : String) : (split '.' (s ++ back)).map trim = (split '.' s).map trim := by
  rcases List.eq_nil_or_concat (split '.' s) with hs | ⟨front, last, hs⟩
  · exact absurd hs (split_ne_nil '.' s)
  rw [List.concat_eq_append] at hs
  have hback : '.' ∉ back.toList := fun hdot => absurd (h '.' hdot) (by decide)
  have hpieces : split '.' (s ++ back) = front ++ [last ++ back] := by
    have hjoin : s ++ back = join "." (front ++ [last ++ back]) := by
      have hwhole : join "." (front ++ [last]) = s := hs ▸ join_split rfl s
      rw [← hwhole]
      by_cases hf : front = []
      · simp [hf]
      · rw [join_append "." hf (by simp), join_append "." hf (by simp)]
        simp only [join_singleton, String.append_assoc]
    rw [hjoin]
    apply split_join_of_not_mem rfl (by simp)
    intro piece hp
    have hundotted : ∀ piece ∈ front ++ [last], '.' ∉ piece.toList :=
      fun piece hp => not_mem_of_mem_split (hs ▸ hp)
    rcases List.mem_append.mp hp with hp | hp
    · exact hundotted piece (by simp [hp])
    · rw [List.mem_singleton.mp hp]
      simp [hback, hundotted last]
  have htrim : trim ("" ++ last ++ back) = trim last := trim_surrounded (by simp) h last
  rw [String.empty_append] at htrim
  rw [hpieces, hs, List.map_append, List.map_append, List.map_singleton, htrim, List.map_singleton]

theorem map_trim_split_trim (s : String) :
    (split '.' (trim s)).map trim = (split '.' s).map trim := by
  obtain ⟨front, back, hfront, hback, hs⟩ := exists_trimChars s.toList
  have htext : s = String.ofList front ++ (trim s ++ String.ofList back) := by
    rw [← String.toList_inj, String.toList_append, String.toList_append, String.toList_ofList,
      String.toList_ofList, trim, String.toList_ofList]
    exact hs
  have hblank : ∀ c ∈ (String.ofList front).toList, isBlank c = true := by simpa using hfront
  have hwhole := map_trim_split_append hblank (trim s ++ String.ofList back)
  rw [← htext, map_trim_split_blank (by simpa using hback)] at hwhole
  exact hwhole.symm

end Text

namespace HookReference

/-- A root, one or more segments and a method, with a dot between two of them. -/
structure IsIdiom (text : String) (kind : HookKind) (segments : List String) (method : String) :
    Prop where
  text_eq : text = join "." (kind.root :: (segments ++ [method]))
  segments_ne : segments ≠ []
  undotted : ∀ part ∈ segments ++ [method], '.' ∉ part.toList
  nonblank : ∀ part ∈ segments ++ [method], ∃ c ∈ part.toList, isBlank c = false

theorem trim_root (kind : HookKind) : trim kind.root = kind.root := by
  cases kind <;> decide

theorem dot_notMem_root (kind : HookKind) : '.' ∉ kind.root.toList := by
  cases kind <;> decide

theorem exists_root_head (kind : HookKind) :
    ∃ c cs, kind.root.toList = c :: cs ∧ isBlank c = false := by
  cases kind with
  | subscribe => exact ⟨'O', ['n'], by decide, by decide⟩
  | transform => exact ⟨'I', ['L'], by decide, by decide⟩

theorem classify_eq_some {text rest : String} {kind : HookKind}
    (h : HookKind.classify text = some (kind, rest)) : text = kind.root ++ "." ++ rest := by
  obtain ⟨other, -, hother⟩ := List.exists_of_findSome?_eq_some h
  obtain ⟨found, hfound, heq⟩ := Option.map_eq_some_iff.mp hother
  obtain ⟨rfl, rfl⟩ := Prod.mk.inj heq
  exact dropStart_eq_some.mp hfound

theorem isIdiom_of_parse {text : String} {reference : HookReference}
    (h : parse text = some reference) :
    ∃ segments method, IsIdiom (trim text) reference.kind segments method ∧
      reference.text = trim text ∧ reference.typeName = join "." (segments.map trim) ∧
      reference.methodName = trim method := by
  obtain ⟨rest, typePath, method, hkind, hcut, hmethod, hsegments, htext, htype, hname⟩ :=
    parse_eq_some h
  have hsep : ".".toList = ['.'] := rfl
  obtain ⟨hrest, hdot⟩ := splitLast_eq_some hsep hcut
  have hne := split_ne_nil '.' typePath
  refine ⟨split '.' typePath, method, ⟨?_, hne, ?_, ?_⟩, htext, htype, hname⟩
  · rw [classify_eq_some hkind, hrest, join_cons "." _ (by simp), join_append "." hne (by simp),
      join_split rfl, join_singleton]
  · intro part hp
    rcases List.mem_append.mp hp with hp | hp
    · exact not_mem_of_mem_split hp
    · rwa [List.mem_singleton.mp hp]
  · intro part hp
    apply trim_ne_empty_iff.mp
    rcases List.mem_append.mp hp with hp | hp
    · exact hsegments _ (List.mem_map_of_mem hp)
    · rwa [List.mem_singleton.mp hp]

theorem parse_trim (text : String) : parse (trim text) = parse text := by
  simp only [parse, trim_trim]

namespace IsIdiom

variable {text method : String} {kind : HookKind} {segments : List String}

theorem parse_eq (h : IsIdiom (trim text) kind segments method) :
    parse text = some ⟨kind, trim text, join "." (segments.map trim), trim method⟩ := by
  have htext : trim text = kind.root ++ "." ++ join "." (segments ++ [method]) := by
    rw [h.text_eq, join_cons "." _ (by simp)]
  have hsplit : split '.' (join "." (segments ++ [method])) = segments ++ [method] :=
    split_join_of_not_mem rfl (by simp) h.undotted
  have htrim : trim (kind.root ++ "." ++ join "." (segments ++ [method])) =
      kind.root ++ "." ++ join "." (segments ++ [method]) := by
    rw [← htext, trim_trim]
  rw [← parse_trim, htext]
  apply parse_of_split htrim hsplit h.segments_ne
  intro part hp
  exact trim_ne_empty_iff.mpr (h.nonblank part hp)

theorem split_typeName (h : IsIdiom text kind segments method) :
    split '.' (join "." (segments.map trim)) = segments.map trim := by
  apply split_join_of_not_mem rfl (by simp [h.segments_ne])
  intro part hp
  obtain ⟨segment, hs, rfl⟩ := List.mem_map.mp hp
  exact not_mem_trim (h.undotted segment (by simp [hs]))

theorem normal (h : IsIdiom text kind segments method) :
    ∀ segment ∈ split '.' (join "." (segments.map trim)),
      segment ≠ "" ∧ trim segment = segment := by
  rw [h.split_typeName]
  intro part hp
  obtain ⟨segment, hs, rfl⟩ := List.mem_map.mp hp
  exact ⟨trim_ne_empty_iff.mpr (h.nonblank segment (by simp [hs])), trim_trim segment⟩

theorem trimmed (h : IsIdiom text kind segments method) :
    IsIdiom (join "." [kind.root, join "." (segments.map trim), trim method]) kind
      (segments.map trim) (trim method) := by
  have hne : segments.map trim ≠ [] := by simp [h.segments_ne]
  have hparts : segments.map trim ++ [trim method] = (segments ++ [method]).map trim := by simp
  refine ⟨?_, hne, ?_, ?_⟩
  · have hwhole : join "." (kind.root :: (segments.map trim ++ [trim method])) =
        kind.root ++ "." ++ join "." (segments.map trim ++ [trim method]) :=
      join_cons "." _ (by simp)
    rw [hwhole, join_append "." hne (by simp), join_cons "." kind.root (by simp),
      join_cons "." (join "." (segments.map trim)) (by simp), join_singleton]
  · rw [hparts]
    intro part hp
    obtain ⟨segment, hs, rfl⟩ := List.mem_map.mp hp
    exact not_mem_trim (h.undotted segment hs)
  · rw [hparts]
    intro part hp
    obtain ⟨segment, hs, rfl⟩ := List.mem_map.mp hp
    apply trim_ne_empty_iff.mp
    rw [trim_trim]
    exact trim_ne_empty_iff.mpr (h.nonblank segment hs)

theorem trim_eq (h : IsIdiom text kind segments method) (hm : trim method = method) :
    trim text = text := by
  obtain ⟨first, cs, hroot, hfirst⟩ := exists_root_head kind
  apply trim_eq_self
  · have htext : text = kind.root ++ ("." ++ join "." (segments ++ [method])) := by
      rw [h.text_eq, join_cons "." _ (by simp), String.append_assoc]
    rw [htext, String.toList_append, hroot, List.cons_append, List.head?_cons]
    rintro c ⟨rfl⟩
    exact hfirst
  · have htext : text = join "." (kind.root :: segments) ++ "." ++ method := by
      rw [h.text_eq, ← List.cons_append, join_append "." (by simp) (by simp), join_singleton]
    have hlast : ∀ c ∈ method.toList.getLast?, isBlank c = false := by
      rw [← hm, trim, String.toList_ofList]
      exact getLast_trimChars _
    obtain ⟨d, hd, -⟩ := h.nonblank method (by simp)
    cases hl : method.toList.getLast? with
    | none => exact absurd (List.getLast?_eq_none_iff.mp hl) (List.ne_nil_of_mem hd)
    | some last =>
      rw [htext, String.toList_append, List.getLast?_append, hl]
      rwa [hl] at hlast

theorem map_trim_split (h : IsIdiom (trim text) kind segments method) :
    (split '.' text).map trim = kind.root :: (segments.map trim ++ [trim method]) := by
  have hundotted : ∀ part ∈ kind.root :: (segments ++ [method]), '.' ∉ part.toList := by
    intro part hp
    rcases List.mem_cons.mp hp with rfl | hp
    · exact dot_notMem_root kind
    · exact h.undotted part hp
  rw [← map_trim_split_trim, h.text_eq, split_join_of_not_mem rfl (by simp) hundotted,
    List.map_cons, trim_root, List.map_append, List.map_singleton]

end IsIdiom

theorem parse_eq_some_iff {text : String} {reference : HookReference} :
    parse text = some reference ↔
      ∃ segments method, IsIdiom (trim text) reference.kind segments method ∧
        reference.text = trim text ∧ reference.typeName = join "." (segments.map trim) ∧
        reference.methodName = trim method := by
  refine ⟨isIdiom_of_parse, ?_⟩
  rintro ⟨segments, method, hidiom, htext, htype, hname⟩
  rw [hidiom.parse_eq, ← htext, ← htype, ← hname]

def canonical (reference : HookReference) : String :=
  join "." [reference.kind.root, reference.typeName, reference.methodName]

theorem map_trim_split_of_parse {text : String} {reference : HookReference}
    (h : parse text = some reference) :
    (split '.' text).map trim =
      reference.kind.root :: (split '.' reference.typeName ++ [reference.methodName]) := by
  obtain ⟨segments, method, hidiom, -, htype, hname⟩ := isIdiom_of_parse h
  rw [hidiom.map_trim_split, htype, hname, hidiom.split_typeName]

theorem root_injective {kind other : HookKind} (h : kind.root = other.root) : kind = other := by
  cases kind <;> cases other <;> simp_all [HookKind.root]

theorem split_injective {s t : String} (h : split '.' s = split '.' t) : s = t := by
  have hjoin : join "." (split '.' s) = join "." (split '.' t) := congrArg _ h
  rwa [join_split rfl, join_split rfl] at hjoin

/-- What a reference says, its spelling left aside. -/
def target (reference : HookReference) : HookKind × String × String :=
  (reference.kind, reference.typeName, reference.methodName)

theorem target_eq_iff {text other : String} {reference reference' : HookReference}
    (h : parse text = some reference) (h' : parse other = some reference') :
    reference.target = reference'.target ↔
      (split '.' text).map trim = (split '.' other).map trim := by
  rw [map_trim_split_of_parse h, map_trim_split_of_parse h']
  constructor
  · intro htarget
    obtain ⟨hkind, hrest⟩ := Prod.mk.inj htarget
    obtain ⟨htype, hname⟩ := Prod.mk.inj hrest
    rw [hkind, htype, hname]
  · intro hparts
    obtain ⟨hroot, hrest⟩ := List.cons.inj hparts
    obtain ⟨hsegments, hname⟩ := List.append_inj' hrest rfl
    rw [target, target, root_injective hroot, split_injective hsegments,
      List.singleton_inj.mp hname]

/-- **References are the texts of the idiom.** What is kept of them is in normal form: it reads back
as it is, and texts say the same if they differ only in blanks around segments. -/
theorem parse_exact (text : String) :
    (∀ reference, parse text = some reference ↔
      ∃ segments method, IsIdiom (trim text) reference.kind segments method ∧
        reference.text = trim text ∧ reference.typeName = join "." (segments.map trim) ∧
        reference.methodName = trim method) ∧
    ∀ reference, parse text = some reference →
      (∀ segment ∈ split '.' reference.typeName, segment ≠ "" ∧ trim segment = segment) ∧
      parse reference.canonical = some { reference with text := reference.canonical } ∧
      ∀ other reference', parse other = some reference' →
        (reference.target = reference'.target ↔
          (split '.' text).map trim = (split '.' other).map trim) := by
  refine ⟨fun reference => parse_eq_some_iff, fun reference h => ?_⟩
  obtain ⟨segments, method, hidiom, -, htype, hname⟩ := isIdiom_of_parse h
  refine ⟨htype ▸ hidiom.normal, ?_, fun other reference' h' => target_eq_iff h h'⟩
  have hcanonical :
      IsIdiom reference.canonical reference.kind (segments.map trim) (trim method) := by
    rw [canonical, htype, hname]
    exact hidiom.trimmed
  have htrim := hcanonical.trim_eq (trim_trim method)
  have hself : IsIdiom (trim reference.canonical) reference.kind (segments.map trim)
      (trim method) := by
    rwa [htrim]
  have hsegments : (segments.map trim).map trim = segments.map trim := by simp
  rw [hself.parse_eq, htrim, hsegments, trim_trim, ← htype, ← hname]

theorem parse_exact_blanks :
    ∃ reference reference', parse "\n On.A . B.\tM" = some reference ∧
      parse "On.A.B.M" = some reference' ∧ reference.text ≠ reference'.text ∧
      reference.target = reference'.target ∧
      parse reference.canonical = some { reference with text := "On.A.B.M" } ∧
      ∃ segments method, IsIdiom (trim "\n On.A . B.\tM") .subscribe segments method ∧
        join "." (segments.map trim) = "A.B" ∧ trim method = "M" := by
  have hfirst : parse "\n On.A . B.\tM" = some ⟨.subscribe, "On.A . B.\tM", "A.B", "M"⟩ := by
    decide +kernel
  have hsecond : parse "On.A.B.M" = some ⟨.subscribe, "On.A.B.M", "A.B", "M"⟩ := by decide +kernel
  obtain ⟨hexact, hkept⟩ := parse_exact "\n On.A . B.\tM"
  obtain ⟨segments, method, hidiom, -, htype, hname⟩ := (hexact _).mp hfirst
  obtain ⟨-, hread, hsame⟩ := hkept _ hfirst
  exact ⟨_, _, hfirst, hsecond, by decide, (hsame _ _ hsecond).mpr (by decide +kernel), hread,
    segments, method, hidiom, htype.symm, hname.symm⟩

end HookReference
end HookEvents
