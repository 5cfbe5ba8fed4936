import HookEvents.Proofs.Text.Lowercase
import HookEvents.Proofs.Workspace.Path
import HookEvents.Workspace.Discovery

/-!
Which names have a wanted extension. The wanted extensions are put in lower case by the rules for
all letters and then compared without regard to the case of ASCII letters only, so a file that
carries an extension as it is configured may still be left out.
-/
namespace HookEvents

open Text

namespace FileName

/-- The ending is text and follows the last dot of the name, which does not begin with that dot. -/
def HasExtension (name : FileName) (ending : String) : Prop :=
  '.' ∉ ending.toList ∧ ∃ stem, stem ≠ [] ∧ name.bytes = stem ++ dot :: utf8Bytes ending

theorem dot_mem_utf8Bytes_iff {s : String} : dot ∈ utf8Bytes s ↔ '.' ∈ s.toList :=
  mem_utf8Bytes_iff (by decide : '.'.toNat < 128)

theorem extension?_eq_some_iff {name : FileName} {ending : String} :
    name.extension?.bind text? = some ending ↔ name.HasExtension ending := by
  rw [Option.bind_eq_some_iff]
  constructor
  · rintro ⟨last, hlast, htext⟩
    rw [text?_eq_some_iff] at htext
    subst htext
    unfold extension? at hlast
    split at hlast
    next stem other hcut =>
      split at hlast
      · exact absurd hlast (by simp)
      next hstem =>
        obtain ⟨hname, hnot⟩ := cutLast_eq_some hcut
        have hending : other = utf8Bytes ending := congrArg bytes (Option.some.inj hlast)
        rw [hending] at hname hnot
        exact ⟨mt dot_mem_utf8Bytes_iff.mpr hnot, stem, by simpa using hstem, hname⟩
    next => exact absurd hlast (by simp)
  · rintro ⟨hnot, stem, hstem, hname⟩
    refine ⟨ofText ending, ?_, text?_ofText ending⟩
    rw [extension?, hname, cutLast_append (mt dot_mem_utf8Bytes_iff.mp hnot)]
    simpa [ofText] using hstem

instance (name : FileName) (ending : String) : Decidable (name.HasExtension ending) :=
  decidable_of_iff _ extension?_eq_some_iff

theorem HasExtension.unique {name : FileName} {ending other : String} (h : name.HasExtension ending)
    (ho : name.HasExtension other) : ending = other := by
  rw [← extension?_eq_some_iff] at h ho
  exact Option.some.inj (h.symm.trans ho)

end FileName

namespace ScanConfig

def HasWantedExtension (config : ScanConfig) (name : FileName) : Prop :=
  ∃ ending, name.HasExtension ending ∧ ∃ extension ∈ config.extensions,
    lowerAscii (lowercase (dropStartWhile '.' extension)) = lowerAscii ending

theorem wantsExtension_iff {config : ScanConfig} {name : FileName} :
    config.wantsExtension name = true ↔ config.HasWantedExtension name := by
  have hany (ending : String) : (config.wantedExtensions.any fun wanted =>
      lowerAscii wanted = lowerAscii ending) = true ↔ ∃ extension ∈ config.extensions,
        lowerAscii (lowercase (dropStartWhile '.' extension)) = lowerAscii ending := by
    simp [wantedExtensions]
  unfold wantsExtension HasWantedExtension
  cases h : name.extension?.bind FileName.text? with
  | none =>
    constructor
    · intro hfalse
      exact absurd hfalse (by simp)
    · rintro ⟨ending, hending, -⟩
      rw [FileName.extension?_eq_some_iff.mpr hending] at h
      exact absurd h (by simp)
  | some ending =>
    have hname := FileName.extension?_eq_some_iff.mp h
    rw [hany]
    constructor
    · intro hwanted
      exact ⟨ending, hname, hwanted⟩
    · rintro ⟨other, hother, hwanted⟩
      rwa [hname.unique hother]

/-- **A configured extension selects the files that carry it if and only if each of its characters
is in ASCII or its own lower case.** The other configured extensions make no difference. -/
theorem own_extension_wanted_iff (config : ScanConfig) (extension : String) (name : FileName)
    (hmem : extension ∈ config.extensions)
    (hname : name.HasExtension (dropStartWhile '.' extension)) :
    config.wantsExtension name = true ↔
      ∀ c ∈ (dropStartWhile '.' extension).toList, c.toNat < 128 ∨ lowerChar c = [c] := by
  rw [wantsExtension_iff]
  constructor
  · rintro ⟨ending, hending, other, -, hlower⟩ c hc
    obtain rfl := hname.unique hending
    exact lowerChar_of_lowerAscii_eq hlower hc
  · intro hplain
    refine ⟨_, hname, extension, hmem, ?_⟩
    rw [lowercase_eq_lowerAscii hplain, lowerAscii_lowerAscii]

theorem own_extension_wanted_iff_capital :
    let config : ScanConfig := { extensions := ["cs", "..CSx", "É"] }
    config.wantsExtension "A.CSx" = true ∧ config.wantsExtension "A.É" = false := by
  intro config
  have hplain : (dropStartWhile '.' "..CSx").toList.all (fun c => c.toNat < 128) = true := by
    decide +kernel
  have hascii : config.wantsExtension "A.CSx" = true :=
    (own_extension_wanted_iff config "..CSx" "A.CSx" (by decide) (by decide +kernel)).mpr
      fun c hc => .inl (of_decide_eq_true (List.all_eq_true.mp hplain c hc))
  have hcapital : ¬config.wantsExtension "A.É" = true := fun h =>
    absurd ((own_extension_wanted_iff config "É" "A.É" (by decide) (by decide +kernel)).mp h 'É'
      (by decide +kernel)) (by decide +kernel)
  exact ⟨hascii, Bool.eq_false_iff.mpr hcapital⟩

theorem own_extension_left_out :
    ¬∀ (config : ScanConfig) (extension : String) (name : FileName),
      extension ∈ config.extensions → dropStartWhile '.' extension ≠ "" → Path.slash ∉ name.bytes →
      name.HasExtension (dropStartWhile '.' extension) →
      config.wantsExtension name = true := by
  intro h
  have hwanted := h { extensions := ["É"] } "É" "A.É" (by decide) (by decide +kernel)
    (by decide +kernel) (by decide +kernel)
  exact absurd hwanted (by decide +kernel)

end ScanConfig

end HookEvents
