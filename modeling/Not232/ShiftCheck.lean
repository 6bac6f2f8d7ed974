import Mathlib.Data.BitVec
import Mathlib.Tactic

/-!
# Cyclic redundancy checks

A check register of `w` bits is shifted to the right, and the polynomial is added when a one falls
out. A message is fed in bit by bit. Feeding is linear, so two messages leave different registers if
and only if their difference leaves a register that is not zero, and a difference inside `w`
consecutive bits always does.
-/

namespace Not232.ShiftCheck

variable {w : ℕ} {poly : BitVec w}

/-- One bit as a register. -/
def ofBit (b : Bool) : BitVec w := if b then 1#w else 0#w

def shift (poly c : BitVec w) : BitVec w := if c.getLsbD 0 then c >>> 1 ^^^ poly else c >>> 1

/-- Feeds a message into a register, first bit first. -/
def feed (poly : BitVec w) : List Bool → BitVec w → BitVec w
  | [], c => c
  | b :: bits, c => feed poly bits (shift poly (c ^^^ ofBit b))

/-- The bits of a message from position 0 of a register on. -/
def word : List Bool → BitVec w
  | [] => 0#w
  | b :: bits => ofBit b ^^^ word bits <<< 1

theorem feed_append (first second : List Bool) (c : BitVec w) :
    feed poly (first ++ second) c = feed poly second (feed poly first c) := by
  induction first generalizing c with
  | nil => rfl
  | cons b bits ih => exact ih _

/-! ### Linearity -/

theorem shift_xor (c d : BitVec w) :
    shift poly (c ^^^ d) = shift poly c ^^^ shift poly d := by
  have hswap : ∀ x y : BitVec w, x ^^^ poly ^^^ (y ^^^ poly) = x ^^^ y := by
    intro x y
    rw [BitVec.xor_comm y poly, BitVec.xor_assoc, ← BitVec.xor_assoc poly, BitVec.xor_self,
      BitVec.zero_xor]
  simp only [shift, BitVec.getLsbD_xor, BitVec.ushiftRight_xor_distrib]
  cases c.getLsbD 0 with
  | false =>
    cases d.getLsbD 0 with
    | false => rfl
    | true => exact BitVec.xor_assoc _ _ _
  | true =>
    cases d.getLsbD 0 with
    | false =>
      change c >>> 1 ^^^ d >>> 1 ^^^ poly = c >>> 1 ^^^ poly ^^^ d >>> 1
      rw [BitVec.xor_assoc, BitVec.xor_comm (d >>> 1), BitVec.xor_assoc]
    | true => exact (hswap _ _).symm

theorem ofBit_xor (a b : Bool) : (ofBit (a ^^ b) : BitVec w) = ofBit a ^^^ ofBit b := by
  cases a with
  | false =>
    rw [Bool.false_xor]
    exact BitVec.zero_xor.symm
  | true =>
    cases b with
    | false => exact BitVec.xor_zero.symm
    | true => exact BitVec.xor_self.symm

/-- The difference of two messages leaves the difference of their registers. -/
theorem feed_xor (poly : BitVec w) {a b : List Bool} (h : a.length = b.length) (c d : BitVec w) :
    feed poly (List.zipWith xor a b) (c ^^^ d) = feed poly a c ^^^ feed poly b d := by
  induction a generalizing b c d with
  | nil =>
    obtain rfl := List.length_eq_zero_iff.mp h.symm
    rfl
  | cons x a ih =>
    cases b with
    | nil => cases h
    | cons y b =>
      have hstate : c ^^^ d ^^^ ofBit (x ^^ y) = (c ^^^ ofBit x) ^^^ (d ^^^ ofBit y) := by
        rw [ofBit_xor, BitVec.xor_assoc, BitVec.xor_assoc, ← BitVec.xor_assoc d,
          BitVec.xor_comm d, BitVec.xor_assoc]
      rw [List.zipWith_cons_cons, feed, hstate, shift_xor, ih (Nat.succ.inj h)]
      rfl

/-! ### What a register forgets -/

/-- The polynomial brings a one in at the top. -/
def Monic (poly : BitVec w) : Prop := 0 < w ∧ poly.getLsbD (w - 1) = true

theorem shift_eq_zero (hpoly : Monic poly) {c : BitVec w} (h : shift poly c = 0#w) : c = 0#w := by
  have hbits : ∀ i, (shift poly c).getLsbD i = false := by
    intro i
    rw [h]
    exact BitVec.getLsbD_zero
  have hlow : c.getLsbD 0 = false := by
    by_contra hone
    rw [Bool.not_eq_false] at hone
    have htop := hbits (w - 1)
    rw [shift, if_pos hone, BitVec.getLsbD_xor, hpoly.2, BitVec.getLsbD_ushiftRight,
      BitVec.getLsbD_of_ge c _ (by omega)] at htop
    cases htop
  apply BitVec.eq_of_getLsbD_eq
  intro i hi
  rw [BitVec.getLsbD_zero]
  cases i with
  | zero => exact hlow
  | succ i =>
    have hnext := hbits i
    rw [shift, hlow, if_neg Bool.false_ne_true, BitVec.getLsbD_ushiftRight, Nat.add_comm] at hnext
    exact hnext

theorem shift_zero : shift poly (0#w) = 0#w := by
  rw [shift, BitVec.getLsbD_zero, if_neg Bool.false_ne_true]
  exact BitVec.zero_ushiftRight

theorem feed_injective (hpoly : Monic poly) (bits : List Bool) :
    Function.Injective (feed poly bits) := by
  induction bits with
  | nil => exact Function.injective_id
  | cons b bits ih =>
    intro c d h
    have hshift : shift poly (c ^^^ ofBit b) = shift poly (d ^^^ ofBit b) := ih h
    have hzero : shift poly ((c ^^^ ofBit b) ^^^ (d ^^^ ofBit b)) = 0#w := by
      rw [shift_xor, hshift, BitVec.xor_self]
    have hsame := BitVec.xor_eq_zero_iff.mp (shift_eq_zero hpoly hzero)
    exact (BitVec.xor_left_inj _).mp hsame

theorem feed_zeros (n : ℕ) : feed poly (List.replicate n false) (0#w) = 0#w := by
  induction n with
  | zero => rfl
  | succ n ih =>
    have hfalse : (0#w) ^^^ ofBit false = 0#w := BitVec.xor_zero
    rw [List.replicate_succ, feed, hfalse, shift_zero, ih]

/-! ### Bursts -/

theorem getLsbD_ofBit (b : Bool) (i : ℕ) :
    (ofBit b : BitVec w).getLsbD i = (b && (decide (0 < w) && decide (i = 0))) := by
  cases b with
  | false => exact BitVec.getLsbD_zero
  | true => exact BitVec.getLsbD_one

theorem getLsbD_word (bits : List Bool) {i : ℕ} (hi : i < w) :
    (word bits : BitVec w).getLsbD i = bits.getD i false := by
  induction bits generalizing i with
  | nil => rw [word, BitVec.getLsbD_zero, List.getD_nil]
  | cons b bits ih =>
    have hw : 0 < w := Nat.zero_lt_of_lt hi
    rw [word, BitVec.getLsbD_xor, getLsbD_ofBit, BitVec.getLsbD_shiftLeft]
    cases i with
    | zero => simp [hw]
    | succ i => simp [hi, ih (Nat.lt_of_succ_lt hi)]

theorem shift_shiftLeft {c : BitVec w} (htop : c.getLsbD (w - 1) = false) :
    shift poly (c <<< 1) = c := by
  have hlow : (c <<< 1).getLsbD 0 = false := by simp
  rw [shift, hlow, if_neg Bool.false_ne_true]
  apply BitVec.eq_of_getLsbD_eq
  intro i hi
  rw [BitVec.getLsbD_ushiftRight, BitVec.getLsbD_shiftLeft]
  by_cases hlast : 1 + i < w
  · simp [hlast]
  · obtain rfl : i = w - 1 := by omega
    simp [hlast, htop]

/-- Bits fed in one by one are bits of the register at once, and then zeros. -/
theorem feed_eq_word (bits : List Bool) (hlen : bits.length ≤ w) (c : BitVec w) :
    feed poly bits c = feed poly (List.replicate bits.length false) (c ^^^ word bits) := by
  induction bits generalizing c with
  | nil => exact (congrArg (feed poly []) BitVec.xor_zero).symm
  | cons b bits ih =>
    rw [List.length_cons] at hlen
    have htop : (word bits : BitVec w).getLsbD (w - 1) = false := by
      rw [getLsbD_word bits (by omega), List.getD_eq_getElem?_getD,
        List.getElem?_eq_none (by omega)]
      rfl
    have hfalse : ∀ d : BitVec w, d ^^^ ofBit false = d := fun _ => BitVec.xor_zero
    rw [feed, ih (by omega), List.length_cons, List.replicate_succ, feed, hfalse, word,
      ← BitVec.xor_assoc, shift_xor (c ^^^ ofBit b), shift_shiftLeft htop]

/-! ### Tables -/

/-- The last `n` bits of a register. -/
def low (n : ℕ) (c : BitVec w) : BitVec w := c ^^^ (c >>> n <<< n)

theorem feed_shiftLeft (n : ℕ) {c : BitVec w} (htop : ∀ i, w ≤ i + n → c.getLsbD i = false) :
    feed poly (List.replicate n false) (c <<< n) = c := by
  induction n with
  | zero => exact BitVec.shiftLeft_zero c
  | succ n ih =>
    have hfalse : c <<< (n + 1) ^^^ ofBit false = c <<< n <<< 1 := by
      rw [BitVec.shiftLeft_add]
      exact BitVec.xor_zero
    have htop' : (c <<< n).getLsbD (w - 1) = false := by
      rw [BitVec.getLsbD_shiftLeft]
      by_cases hlow : w - 1 < n
      · simp [hlow]
      · rw [htop (w - 1 - n) (by omega), Bool.and_false]
    rw [List.replicate_succ, feed, hfalse, shift_shiftLeft htop']
    exact ih fun i hi => htop i (by omega)

/-- A table of the registers that `n` bits leave feeds `n` bits at once. -/
theorem feed_table (bits : List Bool) (hlen : bits.length ≤ w) (c : BitVec w) :
    feed poly bits c = (c ^^^ word bits) >>> bits.length ^^^
      feed poly (List.replicate bits.length false) (low bits.length (c ^^^ word bits)) := by
  rw [feed_eq_word bits hlen]
  generalize c ^^^ word bits = d
  generalize bits.length = n
  have htop : ∀ i, w ≤ i + n → (d >>> n).getLsbD i = false := by
    intro i hi
    rw [BitVec.getLsbD_ushiftRight]
    exact BitVec.getLsbD_of_ge d _ (by omega)
  have hzeros : List.zipWith xor (List.replicate n false) (List.replicate n false) =
      List.replicate n false := by
    rw [List.zipWith_replicate, Nat.min_self]
    rfl
  have hsplit : d = (d >>> n <<< n) ^^^ low n d := by
    rw [low, BitVec.xor_comm d, ← BitVec.xor_assoc, BitVec.xor_self, BitVec.zero_xor]
  have hlinear := feed_xor poly (a := List.replicate n false) rfl (d >>> n <<< n) (low n d)
  rw [hzeros, ← hsplit, feed_shiftLeft n htop] at hlinear
  exact hlinear

/-- Inside as many bits as the register has, a difference that is not zero is seen. -/
theorem feed_burst (hpoly : Monic poly) {bits : List Bool} (hlen : bits.length ≤ w)
    (h : feed poly bits (0#w) = 0#w) : ∀ b ∈ bits, b = false := by
  rw [feed_eq_word bits hlen, BitVec.zero_xor, ← feed_zeros bits.length] at h
  have hword := feed_injective hpoly _ h
  intro b hb
  obtain ⟨i, hi, rfl⟩ := List.mem_iff_getElem.mp hb
  have hbit := getLsbD_word bits (lt_of_lt_of_le hi hlen)
  rw [hword, BitVec.getLsbD_zero, List.getD_eq_getElem?_getD, List.getElem?_eq_getElem hi] at hbit
  exact hbit.symm

theorem eq_of_zipWith_xor {a b : List Bool} (h : a.length = b.length)
    (hall : ∀ x ∈ List.zipWith xor a b, x = false) : a = b := by
  induction a generalizing b with
  | nil => exact (List.length_eq_zero_iff.mp h.symm).symm
  | cons x a ih =>
    cases b with
    | nil => cases h
    | cons y b =>
      rw [List.zipWith_cons_cons, List.forall_mem_cons] at hall
      have hhead : x = y := by simpa using hall.1
      rw [ih (Nat.succ.inj h) hall.2, hhead]

/-- Two messages that are equal but for a stretch of at most `w` bits leave different registers. -/
theorem burst_detected (hpoly : Monic poly) {before first second after : List Bool}
    (hlen : first.length = second.length) (hle : first.length ≤ w) (hne : first ≠ second)
    (c : BitVec w) :
    feed poly (before ++ first ++ after) c ≠ feed poly (before ++ second ++ after) c := by
  intro h
  simp only [feed_append] at h
  have hburst := feed_injective hpoly after h
  have hdiff := feed_xor poly hlen (feed poly before c) (feed poly before c)
  rw [hburst, BitVec.xor_self, BitVec.xor_self] at hdiff
  have hzip : (List.zipWith xor first second).length ≤ w := by
    rw [List.length_zipWith]
    omega
  exact hne (eq_of_zipWith_xor hlen (feed_burst hpoly hzip hdiff))

end Not232.ShiftCheck
