import Mathlib.Tactic

/-!
# Fields of four bits

The eight fields of a 32-bit word, read by a shift and a mask, and the read-modify-write that
replaces one of them.
-/

namespace Not232

/-- The field at position `i`, for a position below 8. -/
def nibble (w i : UInt32) : UInt32 := (w >>> (i <<< 2)) &&& 0x0F

def setNibble (w i field : UInt32) : UInt32 :=
  (w &&& ~~~((0x0F : UInt32) <<< (i <<< 2))) ||| field <<< (i <<< 2)

theorem toNat_nibbleShift {i : UInt32} (hi : i < 8) :
    ((i <<< 2).toBitVec % 32).toNat = 4 * i.toNat := by
  have hlt : i.toNat < 8 := hi
  have hshift : (i <<< 2).toNat = 4 * i.toNat := by
    rw [UInt32.toNat_shiftLeft, Nat.shiftLeft_eq]
    change i.toNat * 2 ^ 2 % 4294967296 = 4 * i.toNat
    omega
  rw [BitVec.toNat_umod]
  change (i <<< 2).toNat % 32 = 4 * i.toNat
  rw [hshift, Nat.mod_eq_of_lt (by omega)]

theorem getLsbD_mask (k : ℕ) : (0x0F : UInt32).toBitVec.getLsbD k = decide (k < 4) :=
  Nat.testBit_two_pow_sub_one 4 k

theorem getLsbD_nibble (w : UInt32) {i : UInt32} (hi : i < 8) (k : ℕ) :
    (nibble w i).toBitVec.getLsbD k =
      (w.toBitVec.getLsbD (4 * i.toNat + k) && decide (k < 4)) := by
  rw [nibble, UInt32.toBitVec_and, BitVec.getLsbD_and, getLsbD_mask, UInt32.toBitVec_shiftRight,
    BitVec.ushiftRight_eq', BitVec.getLsbD_ushiftRight, toNat_nibbleShift hi]

theorem getLsbD_shifted (w : UInt32) {i : UInt32} (hi : i < 8) (k : ℕ) :
    (w <<< (i <<< 2)).toBitVec.getLsbD k =
      (decide (k < 32) && !decide (k < 4 * i.toNat) && w.toBitVec.getLsbD (k - 4 * i.toNat)) := by
  have hshift := BitVec.getLsbD_shiftLeft' (x := w.toBitVec) (y := (i <<< 2).toBitVec % 32) (i := k)
  rw [toNat_nibbleShift hi] at hshift
  exact hshift

theorem getLsbD_of_field {field : UInt32} (hfield : field &&& 0x0F = field) (k : ℕ) :
    field.toBitVec.getLsbD k = (field.toBitVec.getLsbD k && decide (k < 4)) := by
  rw [← getLsbD_mask, ← BitVec.getLsbD_and, ← UInt32.toBitVec_and, hfield]

theorem getLsbD_setNibble (w : UInt32) {i field : UInt32} (hi : i < 8)
    (hfield : field &&& 0x0F = field) {k : ℕ} (hk : k < 32) :
    (setNibble w i field).toBitVec.getLsbD k =
      if 4 * i.toNat ≤ k ∧ k < 4 * i.toNat + 4 then field.toBitVec.getLsbD (k - 4 * i.toNat)
      else w.toBitVec.getLsbD k := by
  rw [setNibble, UInt32.toBitVec_or, BitVec.getLsbD_or, UInt32.toBitVec_and, BitVec.getLsbD_and,
    UInt32.toBitVec_not, BitVec.getLsbD_not, getLsbD_shifted _ hi, getLsbD_shifted _ hi,
    getLsbD_mask, getLsbD_of_field hfield (k - 4 * i.toNat)]
  by_cases hin : 4 * i.toNat ≤ k ∧ k < 4 * i.toNat + 4
  · have hlow : ¬ k < 4 * i.toNat := by omega
    have hoff : k - 4 * i.toNat < 4 := by omega
    simp [hk, hin, hlow, hoff]
  · rw [if_neg hin]
    by_cases hlow : k < 4 * i.toNat
    · simp [hk, hlow]
    · have hoff : ¬ k - 4 * i.toNat < 4 := by omega
      simp [hk, hlow, hoff]

/-- Replacing a field leaves the other seven. -/
theorem nibble_setNibble (w : UInt32) {i j field : UInt32} (hi : i < 8) (hj : j < 8)
    (hfield : field &&& 0x0F = field) :
    nibble (setNibble w j field) i = if i = j then field else nibble w i := by
  have hi' : i.toNat < 8 := hi
  apply UInt32.toBitVec_inj.mp
  apply BitVec.eq_of_getLsbD_eq
  intro k hk
  rw [getLsbD_nibble _ hi]
  by_cases hk4 : k < 4
  · rw [getLsbD_setNibble w hj hfield (by omega), decide_eq_true hk4, Bool.and_true]
    by_cases hsame : i = j
    · subst hsame
      rw [if_pos (by omega), if_pos rfl, Nat.add_sub_cancel_left]
    · have hne : i.toNat ≠ j.toNat := mt UInt32.toNat_inj.mp hsame
      rw [if_neg (by omega), if_neg hsame, getLsbD_nibble w hi, decide_eq_true hk4, Bool.and_true]
  · have hhigh : (decide (k < 4)) = false := decide_eq_false hk4
    rw [hhigh, Bool.and_false]
    by_cases hsame : i = j
    · rw [if_pos hsame, getLsbD_of_field hfield, hhigh, Bool.and_false]
    · rw [if_neg hsame, getLsbD_nibble w hi, hhigh, Bool.and_false]

end Not232
