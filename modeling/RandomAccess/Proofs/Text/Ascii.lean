import Mathlib
import RandomAccess.Text.Lowercase

/-!
# ASCII characters

The character classes of tags and keywords hold ASCII characters only, of which there are few enough to
go through them all.
-/

namespace RandomAccess.Text

variable {c : Char}

theorem forall_ascii {P : Char → Prop} (h : ∀ n < 128, P (Char.ofNat n)) (hc : c.toNat < 128) : P c := by
  have hP := h c.toNat hc
  rwa [Char.ofNat_toNat] at hP

theorem toNat_lt_of_isAlphanum (h : c.isAlphanum = true) : c.toNat < 128 := by
  simp only [Char.isAlphanum, Char.isAlpha, Char.isUpper, Char.isLower, Char.isDigit, Bool.or_eq_true,
    Bool.and_eq_true, decide_eq_true_eq, ge_iff_le, UInt32.le_iff_toNat_le] at h
  change ((65 ≤ c.toNat ∧ c.toNat ≤ 90) ∨ 97 ≤ c.toNat ∧ c.toNat ≤ 122) ∨ 48 ≤ c.toNat ∧ c.toNat ≤ 57 at h
  omega

theorem toUpper_of_not_ascii (h : ¬ c.toNat < 128) : c.toUpper = c := by
  have hn : c.toNat = c.val.toNat := rfl
  have hc : ¬ ('a'.val ≤ c.val ∧ c.val ≤ 'z'.val) := by
    intro hz
    have hle : c.val.toNat ≤ 122 := hz.2
    omega
  rw [Char.toUpper, dif_neg hc]

end RandomAccess.Text
