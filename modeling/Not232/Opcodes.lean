import Mathlib.Tactic

/-!
# The instructions of the virtual machine

A program is a sequence of records of four bytes, with the opcode in the first and the operands in
the last two. The scans look for opcodes at regular offsets of a program without running it.
-/

namespace Not232

def bytesPerInstruction : ℕ := 4

namespace Opcode

def nop : UInt8 := 0x00
def setPinX : UInt8 := 0x01
def clearPinX : UInt8 := 0x02
def shiftLeftInPinXToRegY : UInt8 := 0x03
def shiftRightOutPinXFromRegY : UInt8 := 0x04
def shiftLeftOutPinXFromRegY : UInt8 := 0x0C
def shiftRightInPinXToRegY : UInt8 := 0x0D
def waitForLowPinXTimeoutY : UInt8 := 0x05
def waitForHighPinXTimeoutY : UInt8 := 0x06
def waitForRisingEdgeXTimeoutY : UInt8 := 0x07
def waitForFallingEdgeXTimeoutY : UInt8 := 0x08
def delayNopsX : UInt8 := 0x24
def delayTicksX : UInt8 := 0x09
def delayMicrosX : UInt8 := 0x0A
def delayMillisX : UInt8 := 0x0B
def writeBankARegX : UInt8 := 0x0E
def writeBankDRegX : UInt8 := 0x0F
def readBankARegX : UInt8 := 0x17
def readBankDRegX : UInt8 := 0x18
def inputFloating : UInt8 := 0x10
def inputPullDown : UInt8 := 0x11
def inputPullUp : UInt8 := 0x12
def outputPP : UInt8 := 0x13
def outputOD : UInt8 := 0x14
def callX : UInt8 := 0x15
def ret : UInt8 := 0x16
def assignRegXValueofRegY : UInt8 := 0x1F
def pushDownPileRFromPinX : UInt8 := 0x20
def pushUpPileRFromPinX : UInt8 := 0x21
def popDownPileTIntoPinX : UInt8 := 0x22
def popUpPileTIntoPinX : UInt8 := 0x23
def exit : UInt8 := 0xFF

end Opcode

open Opcode

/-- Whether one of `codes` stands at an offset `0, stride, 2 * stride, …` below `len`. -/
def scan (stride : ℕ) (codes : List UInt8) (program : ℕ → UInt8) (len : ℕ) : Bool :=
  (List.range' 0 ((len + stride - 1) / stride) stride).any fun i => codes.contains (program i)

def readsRegisters : (ℕ → UInt8) → ℕ → Bool :=
  scan 3 [shiftLeftOutPinXFromRegY, shiftRightOutPinXFromRegY, readBankARegX, readBankDRegX,
    assignRegXValueofRegY]

def writesRegisters : (ℕ → UInt8) → ℕ → Bool :=
  scan bytesPerInstruction [shiftLeftInPinXToRegY, shiftRightInPinXToRegY, writeBankARegX,
    writeBankDRegX, assignRegXValueofRegY]

def readsPile : (ℕ → UInt8) → ℕ → Bool :=
  scan 3 [popUpPileTIntoPinX, popDownPileTIntoPinX]

def writesPile : (ℕ → UInt8) → ℕ → Bool :=
  scan 3 [pushUpPileRFromPinX, pushDownPileRFromPinX]

theorem lt_ceilDiv_iff {stride k len : ℕ} (hs : 0 < stride) :
    k < (len + stride - 1) / stride ↔ stride * k < len := by
  rw [← Nat.add_one_le_iff, Nat.le_div_iff_mul_le hs, Nat.add_mul, Nat.mul_comm stride]
  omega

theorem scan_iff {stride : ℕ} (hs : 0 < stride) (codes : List UInt8) (program : ℕ → UInt8)
    (len : ℕ) :
    scan stride codes program len = true ↔ ∃ i < len, stride ∣ i ∧ program i ∈ codes := by
  simp only [scan, List.any_eq_true, List.mem_range', List.contains_eq_mem, decide_eq_true_eq]
  constructor
  · rintro ⟨i, ⟨k, hk, rfl⟩, hmem⟩
    exact ⟨0 + stride * k, (Nat.zero_add _).trans_lt ((lt_ceilDiv_iff hs).mp hk),
      ⟨k, Nat.zero_add _⟩, hmem⟩
  · rintro ⟨i, hi, ⟨k, rfl⟩, hmem⟩
    exact ⟨stride * k, ⟨k, (lt_ceilDiv_iff hs).mpr hi, (Nat.zero_add _).symm⟩, hmem⟩

/-- A scan reads the program only below its length. -/
theorem scan_congr (stride : ℕ) (hs : 0 < stride) (codes : List UInt8)
    {program program' : ℕ → UInt8} {len : ℕ} (h : ∀ i < len, program i = program' i) :
    scan stride codes program len = scan stride codes program' len := by
  rw [Bool.eq_iff_iff, scan_iff hs, scan_iff hs]
  constructor
  · rintro ⟨i, hi, hdvd, hmem⟩
    exact ⟨i, hi, hdvd, h i hi ▸ hmem⟩
  · rintro ⟨i, hi, hdvd, hmem⟩
    exact ⟨i, hi, hdvd, h i hi ▸ hmem⟩

end Not232
