import Not232.I2c
import Not232.LastWriter
import Not232.OneWire
import Not232.Spi

/-!
# The pins that a transfer changes

Setup goes through the pin mappings, where the pins 16 to 19 belong to port B, but transfers shift
the raw number into registers of port A. The 16-bit masks of SPI and 1-Wire are empty for these
pins. I2C and the virtual machine write `1 << pin` into the set register, whose upper half clears
bits, so that they clear a bit of port A that belongs to another pin.
-/

namespace Not232

/-- The port and the bit that the mappings assign to a logical pin. -/
def assignedBit (pin : UInt8) : Option (GpioName × ℕ) := do
  let port ← pinPortMapping[pin.toNat]?
  let number ← pinNumberMapping[pin.toNat]?
  some (port, number.toNat)

structure Latches where
  a : UInt32
  b : UInt32

def Latches.port (l : Latches) : GpioName → UInt32
  | .a => l.a
  | .b => l.b

def VmState.latches (s : VmState) : Latches := ⟨s.gpio.a.outdr, s.gpio.b.outdr⟩

/-- No latch bit is changed that is not assigned to one of the named pins. -/
def Frame (pins : List UInt8) (before after : Latches) : Prop :=
  ∀ port, ∀ i < 16, (∀ pin ∈ pins, assignedBit pin ≠ some (port, i)) →
    bit (after.port port) i = bit (before.port port) i

/-- For each of the pins that are raised by a 32-bit mask, the latch bit of port A that the upper
half of the set register clears is assigned to a named pin or already low. -/
def Spares (pins raised : List UInt8) (outdr : UInt32) : Prop :=
  ∀ pin ∈ raised, 16 ≤ pin.toNat →
    (∃ p ∈ pins, p.toNat + 16 = pin.toNat) ∨ bit outdr (pin.toNat - 16) = false

theorem assignedBit_eq_a {pin : UInt8} (hpin : pin < 20) {i : ℕ} (hi : i < 16) :
    assignedBit pin = some (.a, i) ↔ pin.toNat = i := by
  have h : ∀ (n : Fin 20) (i : Fin 16),
      assignedBit (UInt8.ofNat n) = some (.a, i.val) ↔ n.val = i.val := by decide +kernel
  have hpin' := h ⟨pin.toNat, hpin⟩ ⟨i, hi⟩
  rwa [UInt8.ofNat_toNat] at hpin'

/-- A latch that is only changed by clearing the bits under the raised pins. -/
theorem frame_iff_spares_of_cleared {pins raised : List UInt8} {before after : Latches}
    (hpins : ∀ pin ∈ pins, pin < 20) (hraised : ∀ pin ∈ raised, pin < 20)
    (hb : after.b = before.b)
    (hlow : ∀ i < 16, (∀ pin ∈ pins, pin.toNat ≠ i) → (∃ pin ∈ raised, pin.toNat = i + 16) →
      bit after.a i = false)
    (hkeep : ∀ i < 16, (∀ pin ∈ pins, pin.toNat ≠ i) → (∀ pin ∈ raised, pin.toNat ≠ i + 16) →
      bit after.a i = bit before.a i) :
    Frame pins before after ↔ Spares pins raised before.a := by
  constructor
  · intro hframe pin hmem hge
    by_cases hnamed : ∃ p ∈ pins, p.toNat + 16 = pin.toNat
    · exact .inl hnamed
    · right
      have hlt : pin.toNat < 20 := hraised pin hmem
      have hi : pin.toNat - 16 < 16 := by omega
      have hfree : ∀ p ∈ pins, p.toNat ≠ pin.toNat - 16 := by
        intro p hp hne
        exact hnamed ⟨p, hp, by omega⟩
      have hcleared := hlow _ hi hfree ⟨pin, hmem, by omega⟩
      have hkept := hframe .a _ hi fun p hp =>
        fun h => hfree p hp ((assignedBit_eq_a (hpins p hp) hi).mp h)
      exact hkept.symm.trans hcleared
  · intro hspares port i hi hfree
    cases port with
    | b => exact congrArg (bit · i) hb
    | a =>
      have hfree' : ∀ pin ∈ pins, pin.toNat ≠ i :=
        fun pin hpin h => hfree pin hpin ((assignedBit_eq_a (hpins pin hpin) hi).mpr h)
      by_cases hcleared : ∃ pin ∈ raised, pin.toNat = i + 16
      · have hafter := hlow i hi hfree' hcleared
        obtain ⟨pin, hmem, hpin⟩ := hcleared
        rcases hspares pin hmem (by omega) with ⟨p, hp, hnamed⟩ | hbefore
        · exact absurd (by omega) (hfree' p hp)
        · have hlatch : pin.toNat - 16 = i := by omega
          rw [hlatch] at hbefore
          exact hafter.trans hbefore.symm
      · exact hkeep i hi hfree' fun pin hpin h => hcleared ⟨pin, hpin, h⟩

/-! ### Masks -/

theorem bit_pinMask_of_ne {pin : UInt8} (hpin : pin < 20) {i : ℕ} (h : pin.toNat ≠ i) :
    bit (pinMask pin) i = false := by
  have hlt : pin.toNat < 20 := hpin
  rw [bit_pinMask (hlt.trans (by decide)), decide_eq_false h]

theorem bit_pinMask16 {pin : UInt8} (hpin : pin < 20) {i : ℕ} (h : pin.toNat ≠ i) :
    bit (pinMask16 pin).toUInt32 i = false := by
  by_cases hi : i < 16
  · have hmask : (pinMask16 pin).toUInt32 = pinMask pin &&& 0xFFFF := by
      apply UInt32.toNat_inj.mp
      simp only [pinMask16, UInt16.toNat_toUInt32, UInt32.toNat_toUInt16, UInt32.toNat_and]
      exact (Nat.and_two_pow_sub_one_eq_mod _ 16).symm
    rw [hmask, bit_and, bit_pinMask_of_ne hpin h, Bool.false_and]
  · exact bit_toUInt32_high _ (Nat.le_of_not_lt hi)

/-- The masks that an I2C transaction writes. -/
def I2cBus.masks (e : I2cBus) : Set UInt32 := {pinMask e.sda, pinMask e.scl, 0}

/-- The masks that an SPI transfer writes. -/
def SpiBus.masks (e : SpiBus) : Set UInt32 :=
  {(pinMask16 e.sckPin).toUInt32, (pinMask16 e.mosiPin).toUInt32}

/-! ### I2C -/

namespace I2cBus

variable {e : I2cBus} {P : UInt32 → Prop}

theorem sda_mem_masks : pinMask e.sda ∈ e.masks := .inl rfl

theorem scl_mem_masks : pinMask e.scl ∈ e.masks := .inr (.inl rfl)

theorem ackMask_mem_masks (ack : Bool) : (if ack then pinMask e.sda else 0) ∈ e.masks := by
  cases ack with
  | true => exact sda_mem_masks
  | false => exact .inr (.inr rfl)

section Closed

variable (hP : Closed e.masks P) (delay : UInt32)
include hP

theorem closed_i2cStart {s : I2cState} (h : P s.outdr) : P (e.i2cStart delay s).outdr := by
  simp only [i2cStart, outdr_i2cDelay, outdr_writeBshr, outdr_writeBcr]
  apply hP.bcr _ scl_mem_masks
  apply hP.bcr _ sda_mem_masks
  apply hP.bshr _ scl_mem_masks
  exact hP.bshr _ sda_mem_masks _ h

theorem closed_i2cSendBit (bit : Bool) {s : I2cState} (h : P s.outdr) :
    P (e.i2cSendBit bit delay s).outdr := by
  simp only [i2cSendBit, outdr_i2cDelay, outdr_writeBshr, outdr_writeBcr]
  apply hP.bcr _ scl_mem_masks
  apply hP.bshr _ scl_mem_masks
  cases bit with
  | true => exact hP.bshr _ sda_mem_masks _ h
  | false => exact hP.bcr _ sda_mem_masks _ h

theorem closed_i2cSendByte (byte : UInt8) {s : I2cState} (h : P s.outdr) :
    P (e.i2cSendByte byte delay s).2.outdr := by
  have hbits : ∀ (bits : List UInt8) (s : I2cState), P s.outdr →
      P (bits.foldl (fun s i => e.i2cSendBit ((byte &&& (1 : UInt8) <<< i) != 0) delay s)
        s).outdr := by
    intro bits
    induction bits with
    | nil => exact fun s h => h
    | cons i rest ih => exact fun s h => ih _ (closed_i2cSendBit hP delay _ h)
  simp only [i2cSendByte, outdr_i2cDelay, outdr_writeBshr, outdr_writeBcr]
  apply hP.bshr _ sda_mem_masks
  apply hP.bcr _ scl_mem_masks
  apply hP.bshr _ scl_mem_masks
  apply hP.bshr _ sda_mem_masks
  exact hbits _ _ h

theorem closed_i2cRecvBit {s : I2cState} (h : P s.outdr) :
    P (e.i2cRecvBit delay s).2.outdr := by
  simp only [i2cRecvBit, outdr_i2cDelay, outdr_writeBshr, outdr_writeBcr]
  apply hP.bcr _ scl_mem_masks
  apply hP.bshr _ scl_mem_masks
  exact hP.bshr _ sda_mem_masks _ h

theorem closed_i2cRecvByte (ack : Bool) {s : I2cState} (h : P s.outdr) :
    P (e.i2cRecvByte ack delay s).2.outdr := by
  have hbits : ∀ (bits : List UInt8) (r : UInt8 × I2cState), P r.2.outdr →
      P (bits.foldl (fun (r : UInt8 × I2cState) i =>
        (r.1 ||| (if (e.i2cRecvBit delay r.2).1 then (1 : UInt8) else 0) <<< i,
          (e.i2cRecvBit delay r.2).2)) r).2.outdr := by
    intro bits
    induction bits with
    | nil => exact fun r h => h
    | cons i rest ih => exact fun r h => ih _ (closed_i2cRecvBit hP delay h)
  simp only [i2cRecvByte, outdr_i2cDelay, outdr_writeBshr, outdr_writeBcr]
  apply hP.bshr _ (ackMask_mem_masks ack)
  apply hP.bcr _ scl_mem_masks
  apply hP.bshr _ scl_mem_masks
  apply hP.bcr _ (ackMask_mem_masks ack)
  apply hP.bshr _ sda_mem_masks
  exact hbits _ _ h

theorem closed_i2cStop {s : I2cState} (h : P s.outdr) : P (e.i2cStop delay s).outdr := by
  simp only [i2cStop, outdr_i2cDelay, outdr_writeBshr]
  apply hP.bshr _ sda_mem_masks
  exact hP.bshr _ scl_mem_masks _ h

theorem closed_stopIf (stop : Int32) {s : I2cState} (h : P s.outdr) :
    P (if stop ≠ 0 then e.i2cStop delay s else s).outdr := by
  split_ifs
  · exact closed_i2cStop hP delay h
  · exact h

theorem closed_sendLoop (buffer : List UInt8) {s : I2cState} (h : P s.outdr) :
    P (e.sendLoop delay buffer s).outdr := by
  induction buffer generalizing s with
  | nil => exact h
  | cons byte rest ih => exact ih (closed_i2cSendByte hP delay byte h)

theorem closed_recvLoop (n : ℕ) {s : I2cState} (h : P s.outdr) :
    P (e.recvLoop delay n s).2.outdr := by
  induction n generalizing s with
  | zero => exact h
  | succ n ih => exact ih (closed_i2cRecvByte hP delay _ h)

end Closed

/-- The start condition raises both pins, and so clears the bits that their masks have in the upper
half. -/
theorem i2cStart_clears {i : ℕ} (hi : i < 16) (hlow : ∀ m ∈ e.masks, bit m i = false)
    (hraised : bit (pinMask e.sda) (i + 16) = true ∨ bit (pinMask e.scl) (i + 16) = true)
    (delay : UInt32) (s : I2cState) : bit (e.i2cStart delay s).outdr i = false := by
  have hclosed := closed_low hi hlow
  have hcleared : ∀ m ∈ e.masks, bit m (i + 16) = true → ∀ outdr, bit (bshr m outdr) i = false := by
    intro m hm hhigh outdr
    rw [bit_bshr _ _ hi, hlow m hm, hhigh, Bool.not_true, Bool.and_false, Bool.false_or]
  simp only [i2cStart, outdr_i2cDelay, outdr_writeBshr, outdr_writeBcr]
  apply hclosed.bcr _ scl_mem_masks
  apply hclosed.bcr _ sda_mem_masks
  rcases hraised with hsda | hscl
  · apply hclosed.bshr _ scl_mem_masks
    exact hcleared _ sda_mem_masks hsda _
  · exact hcleared _ scl_mem_masks hscl _

end I2cBus

/-! ### SPI -/

namespace SpiBus

variable {e : SpiBus} {P : UInt32 → Prop} (hP : Closed e.masks P)
include hP

theorem closed_gpioWriteFast {mask : UInt16} (hmask : mask.toUInt32 ∈ e.masks) (level : UInt8)
    {s : PortA} (h : P s.outdr) : P (gpioWriteFast mask level s).outdr := by
  unfold gpioWriteFast
  split_ifs
  · exact hP.bshr _ hmask _ h
  · exact hP.bcr _ hmask _ h

theorem closed_driveSck (level : UInt8) (delay : UInt32) {s : PortA} (h : P s.outdr) :
    P (e.driveSck level delay s).outdr := by
  rw [driveSck, PortA.outdr_delay]
  exact closed_gpioWriteFast hP (.inl rfl) level h

theorem closed_driveMosi (out : UInt8) {s : PortA} (h : P s.outdr) :
    P (e.driveMosi out s).outdr :=
  closed_gpioWriteFast hP (.inr rfl) _ h

theorem closed_spiXferByteBbCh32 (out mode : UInt8) (delay : UInt32) {s : PortA}
    (h : P s.outdr) : P (e.spiXferByteBbCh32 out mode delay s).2.outdr := by
  have hturns : ∀ (turn : SpiByte → SpiByte),
      (∀ r, P r.port.outdr → P (turn r).port.outdr) → ∀ (n : ℕ) (r : SpiByte), P r.port.outdr →
        P (turn^[n] r).port.outdr := by
    intro turn hturn n
    induction n with
    | zero => exact fun r h => h
    | succ n ih => exact fun r h => ih _ (hturn r h)
  have hstart : ∀ level, P (e.driveSck level delay s).outdr := fun level =>
    closed_driveSck hP level delay h
  unfold spiXferByteBbCh32
  dsimp only
  generalize (if mode >>> 1 ≠ 0 then (1 : UInt8) else 0) = idle
  by_cases hcpha : mode &&& 1 = 0
  · rw [if_pos hcpha]
    refine hturns _ (fun r hr => ?_) 8 _ (hstart idle)
    exact closed_driveSck hP _ _ (closed_driveSck hP _ _ (closed_driveMosi hP _ hr))
  · rw [if_neg hcpha]
    refine hturns _ (fun r hr => ?_) 8 _ (hstart idle)
    exact closed_driveSck hP _ _ (closed_driveMosi hP _ (closed_driveSck hP _ _ hr))

theorem closed_xferBytes (mode : UInt8) (delay : UInt32) (out : List UInt8) {s : PortA}
    (h : P s.outdr) : P (e.xferBytes mode delay out s).2.outdr := by
  induction out generalizing s with
  | nil => exact h
  | cons byte rest ih => exact ih (closed_spiXferByteBbCh32 hP byte mode delay h)

end SpiBus

/-! ### Transfers -/

/-- A transfer; a 1-Wire slot gets the mask of its pin, converted to 16 bits. -/
inductive Transfer
  | i2cScanAddress (e : I2cBus) (address : UInt8) (delay : UInt32)
  | i2cSendBytes (e : I2cBus) (address : UInt8) (buffer : List UInt8) (stop : Int32)
      (delay : UInt32)
  | i2cRecvBytes (e : I2cBus) (address : UInt8) (len : ℕ) (stop : Int32) (delay : UInt32)
  | i2cSendRecvBytes (e : I2cBus) (address : UInt8) (outBuffer : List UInt8) (inLen : ℕ)
      (stop : Int32) (delay : UInt32)
  | spiRead (e : SpiBus) (mode writeValue : UInt8) (delay : UInt32) (len : ℕ)
  | spiWrite (e : SpiBus) (mode : UInt8) (delay : UInt32) (buffer : List UInt8)
  | spiWriteRead (e : SpiBus) (mode : UInt8) (delay : UInt32) (outBuffer : List UInt8)
  | oneWireReset (indr : Indr) (pin : UInt8)
  | oneWireWrite0 (pin : UInt8)
  | oneWireWrite1 (pin : UInt8)
  | oneWireRead (indr : Indr) (pin : UInt8)

namespace Transfer

/-- The pins that the transfer names. -/
def pins : Transfer → List UInt8
  | i2cScanAddress e _ _ | i2cSendBytes e _ _ _ _ | i2cRecvBytes e _ _ _ _
  | i2cSendRecvBytes e _ _ _ _ _ => [e.sda, e.scl]
  | spiRead e _ _ _ _ | spiWrite e _ _ _ | spiWriteRead e _ _ _ =>
    [e.sckPin, e.mosiPin, e.misoPin]
  | oneWireReset _ pin | oneWireWrite0 pin | oneWireWrite1 pin | oneWireRead _ pin => [pin]

/-- The pins that it raises through a 32-bit mask. -/
def raised : Transfer → List UInt8
  | i2cScanAddress e _ _ | i2cSendBytes e _ _ _ _ | i2cRecvBytes e _ _ _ _
  | i2cSendRecvBytes e _ _ _ _ _ => [e.sda, e.scl]
  | _ => []

/-- The output latch of port A behind the transfer. -/
def outdr (outdr : UInt32) : Transfer → UInt32
  | i2cScanAddress e address delay => (e.i2cScanAddress address delay ⟨outdr, []⟩).2.outdr
  | i2cSendBytes e address buffer stop delay =>
    (e.i2cSendBytes address buffer stop delay ⟨outdr, []⟩).outdr
  | i2cRecvBytes e address len stop delay =>
    (e.i2cRecvBytes address len stop delay ⟨outdr, []⟩).2.outdr
  | i2cSendRecvBytes e address outBuffer inLen stop delay =>
    (e.i2cSendRecvBytes address outBuffer inLen stop delay ⟨outdr, []⟩).2.outdr
  | spiRead e mode writeValue delay len =>
    (e.spiRead mode writeValue delay len ⟨outdr, []⟩).2.outdr
  | spiWrite e mode delay buffer => (e.spiWrite mode delay buffer ⟨outdr, []⟩).outdr
  | spiWriteRead e mode delay outBuffer =>
    (e.spiWriteRead mode delay outBuffer ⟨outdr, []⟩).2.outdr
  | oneWireReset indr pin => (Not232.oneWireReset indr (pinMask16 pin) ⟨outdr, []⟩).2.outdr
  | oneWireWrite0 pin => (Not232.oneWireWrite0 (pinMask16 pin) ⟨outdr, []⟩).outdr
  | oneWireWrite1 pin => (Not232.oneWireWrite1 (pinMask16 pin) ⟨outdr, []⟩).outdr
  | oneWireRead indr pin => (Not232.oneWireRead indr (pinMask16 pin) ⟨outdr, []⟩).2.outdr

/-- No transfer writes port B. -/
def run (t : Transfer) (l : Latches) : Latches := { l with a := t.outdr l.a }

end Transfer

/-- The start condition of an I2C transaction, and what its other writes keep, decide which bits of
the latch it changes. -/
theorem frame_iff_spares_i2c {e : I2cBus} (hsda : e.sda < 20) (hscl : e.scl < 20)
    (delay : UInt32) {l : Latches} {outdr : UInt32}
    (h : ∀ P, Closed e.masks P → P (e.i2cStart delay ⟨l.a, []⟩).outdr → P outdr) :
    Frame [e.sda, e.scl] l ⟨outdr, l.b⟩ ↔ Spares [e.sda, e.scl] [e.sda, e.scl] l.a := by
  have hpins : ∀ pin ∈ [e.sda, e.scl], pin < 20 := by
    simp [hsda, hscl]
  have hmasks : ∀ i : ℕ, e.sda.toNat ≠ i → e.scl.toNat ≠ i → ∀ m ∈ e.masks, bit m i = false := by
    intro i hi hi' m hm
    rcases hm with rfl | rfl | rfl
    · exact bit_pinMask_of_ne hsda hi
    · exact bit_pinMask_of_ne hscl hi'
    · exact BitVec.getLsbD_zero
  have hraised : ∀ {pin : UInt8}, pin < 20 → ∀ i, pin.toNat = i → bit (pinMask pin) i = true := by
    intro pin hpin i hi
    rw [bit_pinMask (toNat_lt_width hpin (by decide)), decide_eq_true hi]
  have hb : (⟨outdr, l.b⟩ : Latches).b = l.b := rfl
  refine frame_iff_spares_of_cleared hpins hpins hb ?_ ?_
  · intro i hi hfree hex
    have hlow := hmasks i (hfree _ (by simp)) (hfree _ (by simp))
    apply h _ (closed_low hi hlow)
    apply I2cBus.i2cStart_clears hi hlow
    obtain ⟨pin, hmem, hpin⟩ := hex
    rcases List.mem_pair.mp hmem with rfl | rfl
    · exact .inl (hraised hsda _ hpin)
    · exact .inr (hraised hscl _ hpin)
  · intro i hi hfree hfree'
    have hlow := hmasks i (hfree _ (by simp)) (hfree _ (by simp))
    have hhigh := hmasks (i + 16) (hfree' _ (by simp)) (hfree' _ (by simp))
    have hclosed := closed_bit hi (bit l.a i) hlow hhigh
    exact h _ hclosed (I2cBus.closed_i2cStart hclosed delay rfl)

/-- Writes through 16-bit masks of the named pins change no other bit of the latch. -/
theorem frame_of_masks16 {pins : List UInt8} (masks : Set UInt32) {l : Latches} {outdr : UInt32}
    (hpins : ∀ pin ∈ pins, pin < 20)
    (hmasks : ∀ m ∈ masks, ∃ pin ∈ pins, m = (pinMask16 pin).toUInt32)
    (h : ∀ P, Closed masks P → P l.a → P outdr) : Frame pins l ⟨outdr, l.b⟩ := by
  intro port i hi hfree
  cases port with
  | b => rfl
  | a =>
    have hlow : ∀ m ∈ masks, bit m i = false := by
      intro m hm
      obtain ⟨pin, hpin, rfl⟩ := hmasks m hm
      apply bit_pinMask16 (hpins pin hpin)
      intro hne
      exact hfree pin hpin ((assignedBit_eq_a (hpins pin hpin) hi).mpr hne)
    have hhigh : ∀ m ∈ masks, bit m (i + 16) = false := by
      intro m hm
      obtain ⟨pin, -, rfl⟩ := hmasks m hm
      exact bit_toUInt32_high _ (Nat.le_add_left 16 i)
    exact h _ (closed_bit hi _ hlow hhigh) rfl

theorem spares_nil (pins : List UInt8) (outdr : UInt32) : Spares pins [] outdr := by
  intro pin hpin
  exact absurd hpin List.not_mem_nil

theorem frame_spi {e : SpiBus} (hpins : ∀ pin ∈ [e.sckPin, e.mosiPin, e.misoPin], pin < 20)
    (mode : UInt8) (delay : UInt32) (out : List UInt8) (l : Latches) :
    Frame [e.sckPin, e.mosiPin, e.misoPin] l
      ⟨(e.xferBytes mode delay out ⟨l.a, []⟩).2.outdr, l.b⟩ := by
  apply frame_of_masks16 e.masks hpins
  · rintro m (rfl | rfl)
    · exact ⟨e.sckPin, by simp, rfl⟩
    · exact ⟨e.mosiPin, by simp, rfl⟩
  · intro P hP h
    exact SpiBus.closed_xferBytes hP mode delay out h

/-- A slot is one write that clears the pin and one that sets it. -/
theorem frame_slot {pin : UInt8} (hpin : pin < 20) (l : Latches) :
    Frame [pin] l
      ⟨bshr (pinMask16 pin).toUInt32 (bcr (pinMask16 pin).toUInt32 l.a), l.b⟩ := by
  have hpins : ∀ p ∈ [pin], p < 20 := by simp [hpin]
  have hmem : (pinMask16 pin).toUInt32 ∈ ({(pinMask16 pin).toUInt32} : Set UInt32) := rfl
  apply frame_of_masks16 {(pinMask16 pin).toUInt32} hpins
  · rintro m rfl
    exact ⟨pin, List.mem_singleton_self pin, rfl⟩
  · intro P hP h
    exact hP.bshr _ hmem _ (hP.bcr _ hmem _ h)

theorem frame_iff_spares_transfer (t : Transfer) (l : Latches) (hpins : ∀ pin ∈ t.pins, pin < 20) :
    Frame t.pins l (t.run l) ↔ Spares t.pins t.raised l.a := by
  have hpair : ∀ e : I2cBus, (∀ pin ∈ [e.sda, e.scl], pin < 20) → e.sda < 20 ∧ e.scl < 20 :=
    fun e h => ⟨h _ (by simp), h _ (by simp)⟩
  cases t with
  | i2cScanAddress e address delay =>
    obtain ⟨hsda, hscl⟩ := hpair e hpins
    apply frame_iff_spares_i2c hsda hscl delay
    intro P hP h
    exact I2cBus.closed_i2cStop hP delay (I2cBus.closed_i2cSendByte hP delay _ h)
  | i2cSendBytes e address buffer stop delay =>
    obtain ⟨hsda, hscl⟩ := hpair e hpins
    apply frame_iff_spares_i2c hsda hscl delay
    intro P hP h
    apply I2cBus.closed_stopIf hP
    exact I2cBus.closed_sendLoop hP delay buffer (I2cBus.closed_i2cSendByte hP delay address h)
  | i2cRecvBytes e address len stop delay =>
    obtain ⟨hsda, hscl⟩ := hpair e hpins
    apply frame_iff_spares_i2c hsda hscl delay
    intro P hP h
    apply I2cBus.closed_stopIf hP
    exact I2cBus.closed_recvLoop hP delay len (I2cBus.closed_i2cSendByte hP delay _ h)
  | i2cSendRecvBytes e address outBuffer inLen stop delay =>
    obtain ⟨hsda, hscl⟩ := hpair e hpins
    apply frame_iff_spares_i2c hsda hscl delay
    intro P hP h
    apply I2cBus.closed_stopIf hP
    apply I2cBus.closed_recvLoop hP delay
    apply I2cBus.closed_i2cSendByte hP delay
    apply I2cBus.closed_i2cStart hP delay
    exact I2cBus.closed_sendLoop hP delay outBuffer (I2cBus.closed_i2cSendByte hP delay address h)
  | spiRead e mode writeValue delay len =>
    exact iff_of_true (frame_spi hpins mode delay _ l) (spares_nil _ _)
  | spiWrite e mode delay buffer =>
    exact iff_of_true (frame_spi hpins mode delay buffer l) (spares_nil _ _)
  | spiWriteRead e mode delay outBuffer =>
    exact iff_of_true (frame_spi hpins mode delay outBuffer l) (spares_nil _ _)
  | oneWireReset indr pin =>
    have hframe := frame_slot (hpins pin (List.mem_singleton_self pin)) l
    rw [← outdr_oneWireReset indr (pinMask16 pin) ⟨l.a, []⟩] at hframe
    exact iff_of_true hframe (spares_nil _ _)
  | oneWireWrite0 pin =>
    have hframe := frame_slot (hpins pin (List.mem_singleton_self pin)) l
    rw [← outdr_oneWireWrite0 (pinMask16 pin) ⟨l.a, []⟩] at hframe
    exact iff_of_true hframe (spares_nil _ _)
  | oneWireWrite1 pin =>
    have hframe := frame_slot (hpins pin (List.mem_singleton_self pin)) l
    rw [← outdr_oneWireWrite1 (pinMask16 pin) ⟨l.a, []⟩] at hframe
    exact iff_of_true hframe (spares_nil _ _)
  | oneWireRead indr pin =>
    have hframe := frame_slot (hpins pin (List.mem_singleton_self pin)) l
    rw [← outdr_oneWireRead indr (pinMask16 pin) ⟨l.a, []⟩] at hframe
    exact iff_of_true hframe (spares_nil _ _)

/-! ### The virtual machine -/

/-- The pin that a shift-out or a pop drives, and its level. -/
def Instr.driven (s : VmState) : Instr → Option (UInt8 × Bool)
  | shiftOut dir pin reg => some (pin, s.shiftedBit dir reg)
  | pop dir pin => some (pin, s.poppedBit dir)
  | _ => none

theorem gpio_of_driven {i : Instr} {input : VmInput} {s s' : VmState} {pin : UInt8} {level : Bool}
    (hdriven : i.driven s = some (pin, level)) (h : execute i input s = .running s') :
    s'.gpio = (s.drivePin pin level).gpio := by
  cases i with
  | shiftOut dir p reg =>
    cases hdriven
    exact gpio_shiftOut (ofOption_eq_running.mp h)
  | pop dir p =>
    cases hdriven
    exact gpio_pop (ofOption_eq_running.mp h)
  | _ => cases hdriven

theorem frame_iff_spares_drivePin {pin : UInt8} (hpin : pin < 20) (level : Bool) (s : VmState) :
    Frame [pin] s.latches (s.drivePin pin level).latches ↔
      Spares [pin] (if level then [pin] else []) s.latch := by
  have hpins : ∀ p ∈ [pin], p < 20 := by simp [hpin]
  have hlt := toNat_lt_width hpin (by decide)
  cases level with
  | true =>
    refine frame_iff_spares_of_cleared hpins hpins rfl ?_ ?_
    · intro i hi hfree hex
      obtain ⟨p, hp, hp'⟩ := hex
      rw [List.mem_singleton.mp hp] at hp'
      change bit (bshr (pinMask pin) s.latch) i = false
      rw [bit_bshr _ _ hi, bit_pinMask hlt, bit_pinMask hlt,
        decide_eq_false (hfree pin (List.mem_singleton_self pin)), decide_eq_true hp']
      simp
    · intro i hi hfree hfree'
      change bit (bshr (pinMask pin) s.latch) i = bit s.latch i
      rw [bit_bshr _ _ hi, bit_pinMask hlt, bit_pinMask hlt,
        decide_eq_false (hfree pin (List.mem_singleton_self pin)),
        decide_eq_false (hfree' pin (List.mem_singleton_self pin))]
      simp
  | false =>
    refine iff_of_true ?_ (spares_nil _ _)
    intro port i hi hfree
    cases port with
    | b => rfl
    | a =>
      change bit (bcr (pinMask pin) s.latch) i = bit s.latch i
      have hne : pin.toNat ≠ i := fun h =>
        hfree pin (List.mem_singleton_self pin) ((assignedBit_eq_a hpin hi).mpr h)
      rw [bit_bcr _ _ hi, bit_pinMask hlt, decide_eq_false hne, Bool.not_false, Bool.and_true]

/-- A transfer, or an executed instruction that drives a pin, with the pins that it names, those
that it raises, and the latches before and after it. -/
inductive Drives : List UInt8 → List UInt8 → Latches → Latches → Prop
  | transfer (t : Transfer) (l : Latches) : Drives t.pins t.raised l (t.run l)
  | instr {i : Instr} {input : VmInput} {s s' : VmState} {pin : UInt8} {level : Bool}
      (hdriven : i.driven s = some (pin, level)) (h : execute i input s = .running s') :
      Drives [pin] (if level then [pin] else []) s.latches s'.latches

/-- A transfer, or an instruction that drives a pin, changes only latch bits that are assigned to
its pins if and only if none of the pins of port B that it raises shares its number with a bit of
port A that is high and not its own. -/
theorem frame_iff_spares (pins raised : List UInt8) (l l' : Latches) (h : Drives pins raised l l')
    (hpins : ∀ pin ∈ pins, pin < 20) : Frame pins l l' ↔ Spares pins raised l.a := by
  cases h with
  | transfer t l => exact frame_iff_spares_transfer t l hpins
  | @instr i input s s' pin level hdriven hexecute =>
    have hlatches : s'.latches = (s.drivePin pin level).latches :=
      congrArg (fun g => (⟨g.a.outdr, g.b.outdr⟩ : Latches)) (gpio_of_driven hdriven hexecute)
    rw [hlatches]
    exact frame_iff_spares_drivePin (hpins pin (List.mem_singleton_self pin)) level s

/-- A scan on pins of port A. -/
theorem frame_iff_spares_scan :
    Frame [0, 1] ⟨0x4, 0⟩
        ((Transfer.i2cScanAddress ⟨0, 1, fun _ => true⟩ 0x20 0).run ⟨0x4, 0⟩) ↔
      Spares [0, 1] [0, 1] 0x4 := by
  apply frame_iff_spares [0, 1] [0, 1] ⟨0x4, 0⟩ _
    (.transfer (.i2cScanAddress ⟨0, 1, fun _ => true⟩ 0x20 0) _)
  intro pin hpin
  rcases List.mem_pair.mp hpin with rfl | rfl
  · decide
  · decide

/-- An address scan with its data line on pin 16 pulls down PA0, which pin 0 is assigned to. -/
theorem i2cScan_clears_pa0 :
    let e : I2cBus := ⟨16, 1, fun _ => true⟩
    assignedBit 16 = some (.b, 0) ∧ assignedBit 1 = some (.a, 1) ∧
      assignedBit 0 = some (.a, 0) ∧ bit 0x1 0 = true ∧
      bit ((Transfer.i2cScanAddress e 0x20 0).run ⟨0x1, 0⟩).a 0 = false ∧
      ¬ Frame [16, 1] ⟨0x1, 0⟩ ((Transfer.i2cScanAddress e 0x20 0).run ⟨0x1, 0⟩) := by
  intro e
  have hcleared : bit ((Transfer.i2cScanAddress e 0x20 0).run ⟨0x1, 0⟩).a 0 = false := by
    decide +kernel
  have hfree : ∀ pin ∈ ([16, 1] : List UInt8), assignedBit pin ≠ some (.a, 0) := by
    intro pin hpin h
    rcases List.mem_pair.mp hpin with rfl | rfl
    · exact absurd ((assignedBit_eq_a (by decide) (by decide)).mp h) (by decide)
    · exact absurd ((assignedBit_eq_a (by decide) (by decide)).mp h) (by decide)
  refine ⟨rfl, rfl, rfl, rfl, hcleared, fun hframe => ?_⟩
  have hkept := hframe .a 0 (by decide) hfree
  have hset : bit (Latches.port ⟨0x1, 0⟩ .a) 0 = true := by decide
  exact Bool.false_ne_true (hcleared.symm.trans (hkept.trans hset))

end Not232
