import Mathlib.Tactic

/-!
# The GPIO ports

The registers of a port that the firmware uses, the write-only registers that set and clear bits of
its output latch, and the setup of a pin. The writes to the registers are recorded, newest first.
-/

namespace Not232

/-- A write to `BSHR` on the output latch: the low half sets bits, the high half clears others. -/
def bshr (value outdr : UInt32) : UInt32 := (outdr &&& ~~~(value >>> 16)) ||| (value &&& 0xFFFF)

/-- A write to `BCR` on the output latch. -/
def bcr (value outdr : UInt32) : UInt32 := outdr &&& ~~~(value &&& 0xFFFF)

/-- The C expression `1 << pin`. -/
def pinMask (pin : UInt8) : UInt32 := 1 <<< pin.toUInt32

/-- The level that an output latch drives on a pin. -/
def pinLevel (outdr : UInt32) (pin : UInt8) : Bool := outdr.toBitVec.getLsbD pin.toNat

structure GpioPort where
  cfglr : UInt32
  cfghr : UInt32
  outdr : UInt32
  deriving DecidableEq

inductive GpioReg
  | cfglr
  | cfghr
  | outdr
  | bshr
  | bcr
  deriving DecidableEq

inductive GpioName
  | a
  | b
  deriving DecidableEq

structure GpioWrite where
  port : GpioName
  reg : GpioReg
  value : UInt32
  deriving DecidableEq

def GpioPort.write (reg : GpioReg) (value : UInt32) (p : GpioPort) : GpioPort :=
  match reg with
  | .cfglr => { p with cfglr := value }
  | .cfghr => { p with cfghr := value }
  | .outdr => { p with outdr := value }
  | .bshr => { p with outdr := bshr value p.outdr }
  | .bcr => { p with outdr := bcr value p.outdr }

/-- The ports and the writes made to them so far. -/
structure Gpio where
  a : GpioPort
  b : GpioPort
  writes : List GpioWrite
  deriving DecidableEq

namespace Gpio

def port (g : Gpio) : GpioName → GpioPort
  | .a => g.a
  | .b => g.b

def write (port : GpioName) (reg : GpioReg) (value : UInt32) (g : Gpio) : Gpio :=
  match port with
  | .a => { g with a := g.a.write reg value, writes := ⟨.a, reg, value⟩ :: g.writes }
  | .b => { g with b := g.b.write reg value, writes := ⟨.b, reg, value⟩ :: g.writes }

end Gpio

inductive GpioMode
  | ain
  | inFloating
  | ipd
  | ipu
  | outOD
  | outPP
  | afOD
  | afPP

def GpioMode.value : GpioMode → UInt32
  | ain => 0x00
  | inFloating => 0x04
  | ipd => 0x28
  | ipu => 0x48
  | outOD => 0x14
  | outPP => 0x10
  | afOD => 0x1C
  | afPP => 0x18

def gpioSpeed50MHz : UInt32 := 3

/-- Replaces the four configuration bits of a pin in the register that holds them. -/
def gpioBaseInitPins (gpio : GpioName) (pin : UInt8) (mode : GpioMode) (g : Gpio) : Gpio :=
  let currentmode := mode.value &&& 0x0F
  let currentmode :=
    if mode.value &&& 0x10 ≠ 0 then currentmode ||| gpioSpeed50MHz else currentmode
  let high : Bool := (1 : UInt16) <<< pin.toUInt16 > 0x00FF
  let tmpreg := if high then (g.port gpio).cfghr else (g.port gpio).cfglr
  let pos := (if high then pin.toUInt32 - 8 else pin.toUInt32) <<< 2
  let tmpreg := tmpreg &&& ~~~((0x0F : UInt32) <<< pos)
  let tmpreg := tmpreg ||| currentmode <<< pos
  g.write gpio (if high then .cfghr else .cfglr) tmpreg

def pinPortMapping : List GpioName :=
  [.a, .a, .a, .a, .a, .a, .a, .a, .a, .a, .a, .a, .a, .a, .a, .a, .b, .b, .b, .b]

def pinNumberMapping : List UInt8 :=
  [0, 1, 2, 3, 4, 5, 6, 7, 8, 9, 10, 11, 12, 13, 14, 15, 0, 1, 14, 15]

/-- Sets up a logical pin; `none` when its number is outside the mappings. -/
def gpioInitPin (pin : UInt8) (mode : GpioMode) (g : Gpio) : Option Gpio := do
  let port ← pinPortMapping[pin.toNat]?
  let number ← pinNumberMapping[pin.toNat]?
  some (gpioBaseInitPins port number mode g)

theorem outdr_gpioInitPin {pin : UInt8} {mode : GpioMode} {g g' : Gpio}
    (h : gpioInitPin pin mode g = some g') : g'.a.outdr = g.a.outdr := by
  simp only [gpioInitPin, Option.bind_eq_bind, Option.bind_eq_some_iff, Option.some.injEq] at h
  obtain ⟨port, -, number, -, rfl⟩ := h
  have hreg : ∀ (high : Bool) (value : UInt32),
      (g.write port (if high then .cfghr else .cfglr) value).a.outdr = g.a.outdr := by
    intro high value
    cases port <;> cases high <;> rfl
  exact hreg _ _

/-! ### Single bits of registers -/

def bit (w : UInt32) (i : ℕ) : Bool := w.toBitVec.getLsbD i

theorem bit_or (v w : UInt32) (i : ℕ) : bit (v ||| w) i = (bit v i || bit w i) := by
  simp [bit]

theorem bit_and (v w : UInt32) (i : ℕ) : bit (v &&& w) i = (bit v i && bit w i) := by
  simp [bit]

theorem bit_not (w : UInt32) {i : ℕ} (hi : i < 32) : bit (~~~w) i = !bit w i := by
  simp [bit, hi]

theorem bit_low (i : ℕ) : bit 0xFFFF i = decide (i < 16) := Nat.testBit_two_pow_sub_one 16 i

theorem bit_shiftRight_16 (w : UInt32) (i : ℕ) : bit (w >>> 16) i = bit w (i + 16) := by
  have hshift : (w >>> 16).toBitVec = w.toBitVec >>> 16 := rfl
  rw [bit, hshift, BitVec.getLsbD_ushiftRight, Nat.add_comm]
  rfl

/-- A bit that is both set and cleared is set. -/
theorem bit_bshr (value outdr : UInt32) {i : ℕ} (hi : i < 16) :
    bit (bshr value outdr) i = (bit value i || bit outdr i && !bit value (i + 16)) := by
  have hi32 : i < 32 := hi.trans (by decide)
  rw [bshr, bit_or, bit_and, bit_not _ hi32, bit_shiftRight_16, bit_and, bit_low,
    decide_eq_true hi, Bool.and_true, Bool.or_comm]

theorem bit_bcr (value outdr : UInt32) {i : ℕ} (hi : i < 16) :
    bit (bcr value outdr) i = (bit outdr i && !bit value i) := by
  have hi32 : i < 32 := hi.trans (by decide)
  rw [bcr, bit_and, bit_not _ hi32, bit_and, bit_low, decide_eq_true hi, Bool.and_true]

theorem toNat_lt_width {pin count : UInt8} (hpin : pin < count) (hcount : count ≤ 32) :
    pin.toNat < 32 :=
  lt_of_lt_of_le (UInt8.lt_iff_toNat_lt.mp hpin) (UInt8.le_iff_toNat_le.mp hcount)

theorem bit_pinMask {pin : UInt8} (h : pin.toNat < 32) (i : ℕ) :
    bit (pinMask pin) i = decide (pin.toNat = i) := by
  have hmask : (pinMask pin).toBitVec = BitVec.twoPow 32 pin.toNat := by
    apply BitVec.eq_of_toNat_eq
    simp [pinMask, UInt32.toBitVec_shiftLeft, BitVec.toNat_twoPow, Nat.mod_eq_of_lt h,
      Nat.shiftLeft_eq]
  rw [bit, hmask, BitVec.getLsbD_twoPow]
  by_cases hi : pin.toNat = i
  · simp [hi, hi ▸ h]
  · simp [hi]

/-! ### The levels of single pins -/

theorem pinLevel_eq (outdr : UInt32) (pin : UInt8) : pinLevel outdr pin = bit outdr pin.toNat := rfl

theorem pinLevel_bshr {pin p : UInt8} (hpin : pin < 16) (hp : p < 16) (outdr : UInt32) :
    pinLevel (bshr (pinMask pin) outdr) p = (decide (pin = p) || pinLevel outdr p) := by
  have hpin16 : pin.toNat < 16 := hpin
  have hpin32 := toNat_lt_width hpin (by decide)
  have hp16 : p.toNat < 16 := hp
  have hne : ¬ pin.toNat = p.toNat + 16 := by omega
  have hbit := bit_bshr (pinMask pin) outdr hp16
  rw [bit_pinMask hpin32, bit_pinMask hpin32, decide_eq_false hne, Bool.not_false,
    Bool.and_true] at hbit
  simpa only [pinLevel_eq, UInt8.toNat_inj] using hbit

theorem pinLevel_bcr {pin p : UInt8} (hpin : pin < 16) (hp : p < 16) (outdr : UInt32) :
    pinLevel (bcr (pinMask pin) outdr) p = (!decide (pin = p) && pinLevel outdr p) := by
  have hp16 : p.toNat < 16 := hp
  have hbit := bit_bcr (pinMask pin) outdr hp16
  rw [bit_pinMask (toNat_lt_width hpin (by decide)), Bool.and_comm] at hbit
  simpa only [pinLevel_eq, UInt8.toNat_inj] using hbit

theorem pinLevel_bshr_self {pin : UInt8} (hpin : pin < 16) (outdr : UInt32) :
    pinLevel (bshr (pinMask pin) outdr) pin = true := by
  rw [pinLevel_bshr hpin hpin, decide_eq_true rfl, Bool.true_or]

theorem pinLevel_bshr_of_ne {pin p : UInt8} (hpin : pin < 16) (hp : p < 16) (hne : pin ≠ p)
    (outdr : UInt32) : pinLevel (bshr (pinMask pin) outdr) p = pinLevel outdr p := by
  rw [pinLevel_bshr hpin hp, decide_eq_false hne, Bool.false_or]

theorem pinLevel_bcr_self {pin : UInt8} (hpin : pin < 16) (outdr : UInt32) :
    pinLevel (bcr (pinMask pin) outdr) pin = false := by
  rw [pinLevel_bcr hpin hpin, decide_eq_true rfl, Bool.not_true, Bool.false_and]

theorem pinLevel_bcr_of_ne {pin p : UInt8} (hpin : pin < 16) (hp : p < 16) (hne : pin ≠ p)
    (outdr : UInt32) : pinLevel (bcr (pinMask pin) outdr) p = pinLevel outdr p := by
  rw [pinLevel_bcr hpin hp, decide_eq_false hne, Bool.not_false, Bool.true_and]

/-- Setting or clearing a pin gives it its level and leaves the other pins. -/
theorem pinLevel_drive {pin p : UInt8} (hpin : pin < 16) (hp : p < 16) (level : Bool)
    (outdr : UInt32) :
    pinLevel (if level then bshr (pinMask pin) outdr else bcr (pinMask pin) outdr) p =
      if pin = p then level else pinLevel outdr p := by
  by_cases hsame : pin = p
  · subst hsame
    rw [if_pos rfl]
    cases level with
    | true => exact pinLevel_bshr_self hpin outdr
    | false => exact pinLevel_bcr_self hpin outdr
  · rw [if_neg hsame]
    cases level with
    | true => exact pinLevel_bshr_of_ne hpin hp hsame outdr
    | false => exact pinLevel_bcr_of_ne hpin hp hsame outdr

@[simp] theorem bshr_zero (outdr : UInt32) : bshr 0 outdr = outdr := by simp [bshr]

@[simp] theorem bcr_zero (outdr : UInt32) : bcr 0 outdr = outdr := by simp [bcr]

end Not232
