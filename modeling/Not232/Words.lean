import Mathlib.Tactic

/-!
# Words that do not wrap around

Sums and differences of 32-bit words as those of the numbers that they stand for.
-/

namespace Not232

variable {v w : UInt32}

theorem toNat_add_of_lt (h : v.toNat + w.toNat < 2 ^ 32) :
    (v + w).toNat = v.toNat + w.toNat := by
  rw [UInt32.toNat_add]
  exact Nat.mod_eq_of_lt h

theorem toNat_add_ofNat {i : ℕ} (h : w.toNat + i < 2 ^ 32) :
    (w + .ofNat i).toNat = w.toNat + i := by
  have hsize : UInt32.size = 2 ^ 32 := rfl
  have hi : (UInt32.ofNat i).toNat = i := UInt32.toNat_ofNat_of_lt' (by omega)
  rw [toNat_add_of_lt (hi.symm ▸ h), hi]

theorem toNat_add_one (h : w.toNat < 2 ^ 32 - 1) : (w + 1).toNat = w.toNat + 1 :=
  toNat_add_ofNat (Nat.add_lt_of_lt_sub h)

theorem toNat_sub_one (h : 0 < w.toNat) : (w - 1).toNat + 1 = w.toNat := by
  have hone : (1 : UInt32).toNat = 1 := rfl
  have hlt := w.toNat_lt
  rw [UInt32.toNat_sub, hone]
  omega

theorem toNat_sub_one_lt_iff {size : ℕ} (hsize : size < 2 ^ 32) (hw : w.toNat ≤ size) :
    (w - 1).toNat < size ↔ 0 < w.toNat := by
  rw [UInt32.toNat_sub]
  have hone : (1 : UInt32).toNat = 1 := rfl
  omega

end Not232
