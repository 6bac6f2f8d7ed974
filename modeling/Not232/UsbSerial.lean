import Mathlib.Tactic
import Not232.RingBuffer

/-!
# Index arithmetic and endpoint registers of the USB serial driver

The rings of the driver hold 2048 bytes and are indexed by `uint16_t` variables. On indices in
range `ringCount` is the occupancy of the ring and `ringFree` the room left in it.
-/

namespace Not232

/-- A C conversion to `uint16_t`. -/
def uint16 (n : ℤ) : ℕ := (n % 65536).toNat

def ringCount (head tail size : ℕ) : ℕ :=
  if tail ≤ head then head - tail else uint16 (size - (tail - head))

def ringFree (head tail size : ℕ) : ℕ := uint16 (size - 1 - ringCount head tail size)

theorem ringCount_eq_occupied {head tail size : ℕ} (ht : tail < size) (hs : size ≤ 65536) :
    ringCount head tail size = RingBuffer.occupied size head tail := by
  unfold ringCount RingBuffer.occupied uint16
  split_ifs <;> omega

theorem ringFree_eq {head tail size : ℕ} (hh : head < size) (ht : tail < size)
    (hs : size ≤ 65536) :
    ringFree head tail size = size - 1 - RingBuffer.occupied size head tail := by
  have hlt : RingBuffer.occupied size head tail < size := RingBuffer.occupied_lt hh
  rw [ringFree, ringCount_eq_occupied ht hs, uint16]
  omega

theorem uint16_next {i size : ℕ} (h : i < size) (hs : size ≤ 65536) :
    uint16 ((i + 1) % size : ℕ) = RingBuffer.next size i := by
  have hlt := RingBuffer.next_lt h
  unfold uint16 RingBuffer.next at *
  omega

theorem uint16_of_lt {n : ℕ} (h : n < 65536) : uint16 n = n := by
  unfold uint16
  omega

/-- Writing a field of a register, as the driver does it, and reading it back. -/
theorem and_not_or_and (c m r : UInt8) : (c &&& ~~~m ||| r) &&& m = r &&& m := by
  apply UInt8.toBitVec_inj.mp
  ext i
  simp only [UInt8.toBitVec_and, UInt8.toBitVec_or, UInt8.toBitVec_not, BitVec.getElem_and,
    BitVec.getElem_or, BitVec.getElem_not]
  cases m.toBitVec[i] <;> simp

end Not232
