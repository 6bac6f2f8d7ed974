import Mathlib.Data.List.Basic
import Mathlib.Logic.Function.Basic

/-!
# Bytes on a serial line

The bits of a byte, most significant first, and the loops that take a byte apart and put it
together.
-/

namespace Not232

/-- The bits of a byte in the order of the line. -/
def msbFirst (byte : UInt8) : List Bool :=
  ([7, 6, 5, 4, 3, 2, 1, 0] : List UInt8).map fun i => (byte &&& (1 : UInt8) <<< i) != 0

def pushBit (byte : UInt8) (bit : Bool) : UInt8 := byte <<< 1 ||| if bit then 1 else 0

/-- The bits that `n` shifts to the left push out. -/
def topBits : ℕ → UInt8 → List Bool
  | 0, _ => []
  | n + 1, byte => (byte &&& 0x80 != 0) :: topBits n (byte <<< 1)

theorem forall_byte {P : UInt8 → Prop} (h : ∀ n < 256, P (UInt8.ofNat n)) (byte : UInt8) :
    P byte := by
  have hbyte := h byte.toNat byte.toNat_lt
  rwa [UInt8.ofNat_toNat] at hbyte

@[simp] theorem length_msbFirst (byte : UInt8) : (msbFirst byte).length = 8 := rfl

theorem foldl_pushBit (byte : UInt8) : (msbFirst byte).foldl pushBit 0 = byte := by
  revert byte
  exact forall_byte (by decide +kernel)

theorem topBits_eight (byte : UInt8) : topBits 8 byte = msbFirst byte := by
  revert byte
  exact forall_byte (by decide +kernel)

/-- Setting the bits one by one. -/
theorem foldl_setBit (byte : UInt8) :
    ([7, 6, 5, 4, 3, 2, 1, 0] : List UInt8).foldl (fun acc i =>
      acc ||| (if (byte &&& (1 : UInt8) <<< i) != 0 then (1 : UInt8) else 0) <<< i) 0 = byte := by
  revert byte
  exact forall_byte (by decide +kernel)

theorem msbFirst_injective : Function.Injective msbFirst := by
  intro x y h
  rw [← foldl_pushBit x, h, foldl_pushBit]

end Not232
