import HookEvents.Hook.Reference
import HookEvents.Proofs.Text.Blank
import HookEvents.Proofs.Text.Split

namespace HookEvents.HookReference

open Text

theorem split_join_trim (path : String) :
    split '.' (join "." ((split '.' path).map trim)) = (split '.' path).map trim := by
  apply split_join_of_not_mem rfl
  · simp [split_ne_nil]
  · intro segment hs
    obtain ⟨piece, hpiece, rfl⟩ := List.mem_map.mp hs
    exact not_mem_trim (not_mem_of_mem_split hpiece)

theorem parse_eq_some {text : String} {reference : HookReference}
    (h : parse text = some reference) :
    ∃ rest typePath method, HookKind.classify (trim text) = some (reference.kind, rest) ∧
      splitLast '.' rest = some (typePath, method) ∧ trim method ≠ "" ∧
      (∀ segment ∈ (split '.' typePath).map trim, segment ≠ "") ∧
      reference.text = trim text ∧ reference.typeName = join "." ((split '.' typePath).map trim) ∧
      reference.methodName = trim method := by
  simp only [parse, Option.bind_eq_bind, Option.bind_eq_some_iff] at h
  obtain ⟨⟨kind, rest⟩, hk, ⟨typePath, method⟩, hs, h⟩ := h
  split at h
  · exact absurd h (by simp)
  next hc =>
    simp only [split_join_trim, Bool.or_eq_true, decide_eq_true_eq, List.any_eq_true, not_or,
      not_exists, not_and] at hc
    obtain rfl := Option.some.inj h
    exact ⟨rest, typePath, method, hk, hs, hc.1, hc.2, rfl, rfl, rfl⟩

theorem classify_append (kind : HookKind) (rest : String) :
    HookKind.classify (kind.root ++ "." ++ rest) = some (kind, rest) := by
  have hown : dropStart (kind.root ++ ".") (kind.root ++ "." ++ rest) = some rest :=
    dropStart_eq_some.mpr rfl
  cases kind with
  | subscribe => simp [HookKind.classify, HookKind.all, hown]
  | transform =>
    have hother : dropStart (HookKind.subscribe.root ++ ".")
        (HookKind.transform.root ++ "." ++ rest) = none := by
      simp [dropStart, HookKind.root, dropStartChars]
    simp [HookKind.classify, HookKind.all, hown, hother]

theorem parse_of_split {kind : HookKind} {rest last : String} {pieces : List String}
    (ht : trim (kind.root ++ "." ++ rest) = kind.root ++ "." ++ rest)
    (hs : split '.' rest = pieces ++ [last]) (hp : pieces ≠ [])
    (hne : ∀ piece ∈ pieces ++ [last], trim piece ≠ "") :
    parse (kind.root ++ "." ++ rest) =
      some ⟨kind, kind.root ++ "." ++ rest, join "." (pieces.map trim), trim last⟩ := by
  have hpieces : split '.' (join "." pieces) = pieces := by
    apply split_join_of_not_mem rfl hp
    intro piece hpiece
    have hmem : piece ∈ split '.' rest := by simp [hs, hpiece]
    exact not_mem_of_mem_split hmem
  have hcut : splitLast '.' rest = some (join "." pieces, last) := splitLast_of_split rfl hs hp
  have hlast := hne last (by simp)
  have hsegments : ¬∃ piece ∈ pieces, trim piece = "" := by
    rintro ⟨piece, hpiece, he⟩
    exact hne piece (by simp [hpiece]) he
  have hsplit : split '.' (join "." (pieces.map trim)) = pieces.map trim := by
    rw [← hpieces]
    exact split_join_trim _
  simp [parse, ht, classify_append, hcut, hpieces, hlast, hsplit, hsegments]

theorem split_typeName {text : String} {reference : HookReference}
    (h : parse text = some reference) : ∀ segment ∈ split '.' reference.typeName, segment ≠ "" := by
  obtain ⟨_, typePath, _, _, _, _, hne, _, hname, _⟩ := parse_eq_some h
  rw [hname, split_join_trim]
  exact hne

end HookEvents.HookReference
