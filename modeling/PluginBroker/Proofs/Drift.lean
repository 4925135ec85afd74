import Mathlib.Data.List.Forall2
import PluginBroker.Interface.Fingerprint

/-! An interface has drifted if it is an extension and declares a text that is not its fingerprint,
whatever the case of the letters. -/

namespace PluginBroker

/-- The same character, or one ASCII letter in both cases. -/
def SameLetter (a b : Char) : Prop :=
  a = b ∨ (a.isUpper = true ∧ b.toNat = a.toNat + 32) ∨ (b.isUpper = true ∧ a.toNat = b.toNat + 32)

/-- The same characters one by one, the case of ASCII letters aside. -/
def SameButCase (s t : String) : Prop := List.Forall₂ SameLetter s.toList t.toList

theorem isUpper_iff {c : Char} : c.isUpper = true ↔ 65 ≤ c.toNat ∧ c.toNat ≤ 90 := by
  show decide (c.val ≥ 'A'.val ∧ c.val ≤ 'Z'.val) = true ↔ _
  rw [decide_eq_true_eq, ge_iff_le, UInt32.le_iff_toNat_le, UInt32.le_iff_toNat_le]
  rfl

theorem toNat_toLower (c : Char) :
    c.toLower.toNat = if c.isUpper then c.toNat + 32 else c.toNat := by
  by_cases h : c.val ≥ 'A'.val ∧ c.val ≤ 'Z'.val
  · have upper : c.isUpper = true := decide_eq_true h
    have := isUpper_iff.mp upper
    have lower : c.toLower = _ := dif_pos h
    have bound : c.val.toNat = c.toNat := rfl
    rw [lower, if_pos upper]
    show (c.val.toNat + 32) % 2 ^ 32 = _
    omega
  · have upper : ¬ c.isUpper = true := fun hu => h (of_decide_eq_true hu)
    have lower : c.toLower = c := dif_neg h
    rw [lower, if_neg upper]

theorem toLower_eq_iff {a b : Char} : a.toLower = b.toLower ↔ SameLetter a b := by
  rw [← Char.toNat_inj, toNat_toLower, toNat_toLower, SameLetter, ← Char.toNat_inj]
  simp only [isUpper_iff]
  split <;> split <;> omega

theorem sameButCase_iff {s t : String} :
    SameButCase s t ↔ s.toList.map Char.toLower = t.toList.map Char.toLower := by
  rw [← List.forall₂_eq_eq_eq, List.forall₂_map_left_iff, List.forall₂_map_right_iff]
  simp only [toLower_eq_iff]
  rfl

theorem Fingerprint.accepts_iff {f : Fingerprint} {declared : String} :
    f.accepts declared = true ↔ SameButCase f.text declared := by
  rw [sameButCase_iff, accepts, beq_iff_eq]

namespace Interface

/-- The interface is an extension, and what it declares is not the fingerprint of its methods. -/
def DriftsBy (i : Interface) (d : Drift) : Prop :=
  ∃ name parent contract methods, i = .extension name parent contract methods ∧
    ¬ SameButCase (Fingerprint.ofMethods methods).text contract.fingerprint ∧
      d = ⟨contract.fingerprint, Fingerprint.ofMethods methods⟩

theorem check_error_iff {i : Interface} {d : Drift} : i.check = .error d ↔ i.DriftsBy d := by
  cases i with
  | root c => simp [check_root, DriftsBy]
  | extension n p k ms =>
    have agrees : (extension n p k ms).Agrees ↔
        SameButCase (Fingerprint.ofMethods ms).text k.fingerprint :=
      agrees_extension.trans Fingerprint.accepts_iff
    by_cases h : (extension n p k ms).Agrees
    · simp [check, h, DriftsBy, agrees.mp h]
    · have differ := mt agrees.mpr h
      have drift : (⟨(extension n p k ms).declared, (extension n p k ms).fingerprint⟩ : Drift) =
          ⟨k.fingerprint, .ofMethods ms⟩ := rfl
      simp [check, h, drift, DriftsBy, differ, eq_comm (a := d)]

end Interface

end PluginBroker
