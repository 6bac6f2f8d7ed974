import Not232.RunReport

/-!
# The last writer of an output pin

Eight instructions write the output latch of port A: through its set register, through its clear
register, or by reading and writing the latch with a mask. The masks of the bank writes are too
narrow or in the wrong place, so these leave the commanded levels only for some latches and values.
-/

namespace Not232

/-- Bit `i` of a byte. -/
def byteBit (b : UInt8) (i : ℕ) : Bool := b.toBitVec.getLsbD i

namespace VmState

def latch (s : VmState) : UInt32 := s.gpio.a.outdr

def register (s : VmState) (reg : UInt8) : UInt8 := s.registers[reg.toNat]?.getD 0

/-- The bit that a shift takes out of a register. -/
def shiftedBit (s : VmState) (dir : ShiftDir) (reg : UInt8) : Bool :=
  byteBit (s.register reg) (match dir with
    | .left => 7
    | .right => 0)

/-- The bit of the transmit pile that the next pop reads. -/
def poppedBit (s : VmState) (dir : PileDir) : Bool :=
  let index := pileIndex dir (s.tp - 1)
  byteBit (s.pileT[(index / 8).toNat]?.getD 0) (index % 8).toNat

end VmState

namespace Instr

/-- The level that the instruction commands on a pin of port A. -/
def command (s : VmState) (p : UInt8) : Instr → Option Bool
  | setPins mask => if bit mask.toUInt32 p.toNat then some true else none
  | clearPins mask => if bit mask.toUInt32 p.toNat then some false else none
  | shiftOut dir pin reg => if pin = p then some (s.shiftedBit dir reg) else none
  | writeBank .a reg => if p < 8 then some (byteBit (s.register reg) p.toNat) else none
  | writeBank .d reg => if p < 8 then none else some (byteBit (s.register reg) (p.toNat - 8))
  | pop dir pin => if pin = p then some (s.poppedBit dir) else none
  | _ => none

/-- A pin operand is below 16. -/
def LowPin : Instr → Prop
  | shiftOut _ pin _ | pop _ pin => pin < 16
  | _ => True

/-- A bank write finds a latch whose bits its mask does not get wrong on pin `p`. -/
def MasksRight (s : VmState) (p : UInt8) : Instr → Prop
  | writeBank .a reg =>
    4 ≤ p ∧ p < 8 → pinLevel s.latch p = true → byteBit (s.register reg) p.toNat = true
  | writeBank .d reg =>
    (4 ≤ p ∧ p < 8 → pinLevel s.latch p = false) ∧
      (8 ≤ p → pinLevel s.latch p = true → byteBit (s.register reg) (p.toNat - 8) = true)
  | _ => True

end Instr

/-- Instructions executed one after the other, each with what it sees. -/
def executeSeq : List (Instr × VmInput) → VmState → Outcome
  | [], s => .running s
  | (i, input) :: rest, s =>
    match execute i input s with
    | .running s => executeSeq rest s
    | outcome => outcome

/-- The level that the last instruction addressing a pin commands, from its level before them. -/
def lastCommand (p : UInt8) : List (Instr × VmInput) → VmState → Bool → Bool
  | [], _, level => level
  | (i, input) :: rest, s, level =>
    match execute i input s with
    | .running s' => lastCommand p rest s' ((i.command s p).getD level)
    | _ => level

theorem bit_toUInt32 (b : UInt8) (i : ℕ) : bit b.toUInt32 i = byteBit b i := by
  have hword : b.toUInt32.toBitVec = b.toBitVec.setWidth 32 := rfl
  rw [bit, hword, BitVec.getLsbD_setWidth, byteBit]
  by_cases hi : i < 32
  · simp [hi]
  · have hlow : b.toBitVec.getLsbD i = false := BitVec.getLsbD_of_ge _ _ (by omega)
    simp [hi, hlow]

theorem bit_toUInt32_high (mask : UInt16) {i : ℕ} (hi : 16 ≤ i) : bit mask.toUInt32 i = false := by
  have hword : mask.toUInt32.toBitVec = mask.toBitVec.setWidth 32 := rfl
  rw [bit, hword, BitVec.getLsbD_setWidth, BitVec.getLsbD_of_ge _ _ hi, Bool.and_false]

theorem bit_shiftLeft_8 (b : UInt8) {i : ℕ} (hi : i < 16) :
    bit (b.toUInt32 <<< 8) i = (decide (8 ≤ i) && byteBit b (i - 8)) := by
  have hshift : (b.toUInt32 <<< 8).toBitVec = b.toUInt32.toBitVec <<< 8 := rfl
  have hbit := bit_toUInt32 b (i - 8)
  rw [bit] at hbit
  rw [bit, hshift, BitVec.getLsbD_shiftLeft, hbit]
  by_cases h8 : 8 ≤ i
  · have hi32 : i < 32 := by omega
    simp [h8, hi32]
  · have hi8 : i < 8 := by omega
    simp [h8, hi8]

/-- The masks of the bank writes on the pins of port A. -/
theorem bit_bankMasks {i : ℕ} (hi : i < 16) :
    bit 0xFFFFFFF0 i = decide (4 ≤ i) ∧ bit 0xFFFFFF0F i = decide (¬ (4 ≤ i ∧ i < 8)) := by
  have h : ∀ i : Fin 16, bit 0xFFFFFFF0 i = decide (4 ≤ i.val) ∧
      bit 0xFFFFFF0F i = decide (¬ (4 ≤ i.val ∧ i.val < 8)) := by decide
  exact h ⟨i, hi⟩

theorem and_80_ne_zero (b : UInt8) : (b &&& 0x80 != 0) = byteBit b 7 :=
  forall_uint8 (p := fun b => (b &&& 0x80 != 0) = byteBit b 7) (by decide +kernel) b

theorem and_1_ne_zero (b : UInt8) : (b &&& 1 != 0) = byteBit b 0 :=
  forall_uint8 (p := fun b => (b &&& 1 != 0) = byteBit b 0) (by decide +kernel) b

theorem and_pileMask_ne_zero (b : UInt8) (index : UInt32) :
    (b &&& pileMask index != 0) = byteBit b (index % 8).toNat := by
  have hlt : (index % 8).toNat < 8 := by
    rw [UInt32.toNat_mod]
    exact Nat.mod_lt _ (by decide)
  have h : ∀ (n : Fin 8) (m : Fin 256),
      (UInt8.ofNat m &&& 1 <<< (UInt32.ofNat n).toUInt8 != 0) = byteBit (UInt8.ofNat m) n := by
    decide +kernel
  have hbyte := h ⟨_, hlt⟩ ⟨b.toNat, b.toNat_lt⟩
  rwa [UInt32.ofNat_toNat, UInt8.ofNat_toNat] at hbyte

/-! ### One instruction -/

section Step

variable {s s' : VmState} {p : UInt8}

theorem latch_drivePin (pin : UInt8) (level : Bool) (s : VmState) :
    (s.drivePin pin level).latch =
      if level then bshr (pinMask pin) s.latch else bcr (pinMask pin) s.latch := by
  cases level <;> rfl

theorem pinLevel_drivePin {pin : UInt8} (hpin : pin < 16) (hp : p < 16) (level : Bool)
    (s : VmState) :
    pinLevel (s.drivePin pin level).latch p =
      ((if pin = p then some level else none).getD (pinLevel s.latch p)) := by
  rw [latch_drivePin, pinLevel_drive hpin hp]
  by_cases hsame : pin = p
  · rw [if_pos hsame, if_pos hsame, Option.getD_some]
  · rw [if_neg hsame, if_neg hsame, Option.getD_none]

theorem byteBit_of_ge (b : UInt8) {i : ℕ} (hi : 8 ≤ i) : byteBit b i = false :=
  BitVec.getLsbD_of_ge _ _ hi

theorem register_eq {reg value : UInt8} (h : s.registers[reg.toNat]? = some value) :
    s.register reg = value := by
  rw [VmState.register, h, Option.getD_some]

theorem pinLevel_writeBank_a {reg : UInt8} (hp : p < 16) (h : writeBank .a reg s = some s') :
    pinLevel s'.latch p = (((Instr.writeBank .a reg).command s p).getD (pinLevel s.latch p)) ↔
      (Instr.writeBank .a reg).MasksRight s p := by
  simp only [writeBank, Option.bind_eq_bind, Option.bind_eq_some_iff, Option.some.injEq] at h
  obtain ⟨value, hvalue, rfl⟩ := h
  have hregister : s.register reg = value := register_eq hvalue
  have hp' : p.toNat < 16 := hp
  have h4 : 4 ≤ p ↔ 4 ≤ p.toNat := Iff.rfl
  have h8 : p < 8 ↔ p.toNat < 8 := Iff.rfl
  change pinLevel ((s.latch &&& (0xFFFFFFF0 : UInt32)) ||| value.toUInt32) p = _ ↔ _
  simp only [pinLevel_eq, bit_or, bit_and, bit_toUInt32, (bit_bankMasks hp').1, Instr.command,
    Instr.MasksRight, hregister, h4, h8]
  by_cases hlow : p.toNat < 8
  · simp only [hlow, if_true, Option.getD_some, and_true]
    by_cases hmask : 4 ≤ p.toNat
    · cases bit s.latch p.toNat <;> simp [hmask]
    · simp [hmask]
  · have hmask : 4 ≤ p.toNat := by omega
    simp [hlow, hmask, byteBit_of_ge value (Nat.le_of_not_lt hlow)]

theorem pinLevel_writeBank_d {reg : UInt8} (hp : p < 16) (h : writeBank .d reg s = some s') :
    pinLevel s'.latch p = (((Instr.writeBank .d reg).command s p).getD (pinLevel s.latch p)) ↔
      (Instr.writeBank .d reg).MasksRight s p := by
  simp only [writeBank, Option.bind_eq_bind, Option.bind_eq_some_iff, Option.some.injEq] at h
  obtain ⟨value, hvalue, rfl⟩ := h
  have hregister : s.register reg = value := register_eq hvalue
  have hp' : p.toNat < 16 := hp
  have h4 : 4 ≤ p ↔ 4 ≤ p.toNat := Iff.rfl
  have h8 : p < 8 ↔ p.toNat < 8 := Iff.rfl
  have h8' : 8 ≤ p ↔ 8 ≤ p.toNat := Iff.rfl
  change pinLevel ((s.latch &&& (0xFFFFFF0F : UInt32)) ||| (value.toUInt32 <<< 8)) p = _ ↔ _
  simp only [pinLevel_eq, bit_or, bit_and, bit_shiftLeft_8 value hp', (bit_bankMasks hp').2,
    Instr.command, Instr.MasksRight, hregister, h4, h8, h8']
  by_cases hlow : p.toNat < 8
  · by_cases hmask : 4 ≤ p.toNat
    · cases bit s.latch p.toNat <;> simp [hlow, hmask]
    · simp [hlow, hmask]
  · have hmask : 8 ≤ p.toNat := by omega
    cases bit s.latch p.toNat <;> simp [hlow, hmask]

theorem pinLevel_bshr_mask (mask : UInt16) (hp : p < 16) (outdr : UInt32) :
    pinLevel (bshr mask.toUInt32 outdr) p =
      (if bit mask.toUInt32 p.toNat then some true else none).getD (pinLevel outdr p) := by
  have hp16 : p.toNat < 16 := hp
  rw [pinLevel_eq, bit_bshr _ _ hp16, bit_toUInt32_high mask (Nat.le_add_left 16 _), pinLevel_eq]
  cases bit mask.toUInt32 p.toNat <;> simp

theorem pinLevel_bcr_mask (mask : UInt16) (hp : p < 16) (outdr : UInt32) :
    pinLevel (bcr mask.toUInt32 outdr) p =
      (if bit mask.toUInt32 p.toNat then some false else none).getD (pinLevel outdr p) := by
  have hp16 : p.toNat < 16 := hp
  rw [pinLevel_eq, bit_bcr _ _ hp16, pinLevel_eq]
  cases bit mask.toUInt32 p.toNat <;> simp

theorem gpio_shiftOut {dir : ShiftDir} {pin reg : UInt8} (h : shiftOut dir pin reg s = some s') :
    s'.gpio = (s.drivePin pin (s.shiftedBit dir reg)).gpio := by
  simp only [shiftOut, Option.bind_eq_bind, Option.bind_eq_some_iff, Option.some.injEq] at h
  obtain ⟨value, hvalue, rfl⟩ := h
  have hregister : s.register reg = value := register_eq hvalue
  cases dir with
  | left =>
    rw [VmState.shiftedBit, hregister, ← and_80_ne_zero]
    rfl
  | right =>
    rw [VmState.shiftedBit, hregister, ← and_1_ne_zero]
    rfl

theorem gpio_pop {dir : PileDir} {pin : UInt8} (h : pop dir pin s = some s') :
    s'.gpio = (s.drivePin pin (s.poppedBit dir)).gpio := by
  simp only [pop, Option.bind_eq_bind, Option.bind_eq_some_iff, Option.some.injEq] at h
  obtain ⟨lipo, hlipo, rfl⟩ := h
  have hbit : s.poppedBit dir = byteBit lipo (pileIndex dir (s.tp - 1) % 8).toNat := by
    rw [VmState.poppedBit, hlipo, Option.getD_some]
  rw [hbit, ← and_pileMask_ne_zero]
  rfl

theorem pinLevel_shiftOut {dir : ShiftDir} {pin reg : UInt8} (hp : p < 16) (hpin : pin < 16)
    (h : shiftOut dir pin reg s = some s') :
    pinLevel s'.latch p =
      ((Instr.shiftOut dir pin reg).command s p).getD (pinLevel s.latch p) := by
  rw [VmState.latch, gpio_shiftOut h]
  exact pinLevel_drivePin hpin hp _ s

theorem pinLevel_pop {dir : PileDir} {pin : UInt8} (hp : p < 16) (hpin : pin < 16)
    (h : pop dir pin s = some s') :
    pinLevel s'.latch p = ((Instr.pop dir pin).command s p).getD (pinLevel s.latch p) := by
  rw [VmState.latch, gpio_pop h]
  exact pinLevel_drivePin hpin hp _ s

/-- An executed instruction leaves the commanded level on a pin, or the level before it, if and only
if its mask is right there. -/
theorem pinLevel_execute_iff {i : Instr} {input : VmInput} (hp : p < 16) (hpin : i.LowPin)
    (h : execute i input s = .running s') :
    pinLevel s'.latch p = ((i.command s p).getD (pinLevel s.latch p)) ↔ i.MasksRight s p := by
  cases i with
  | setPins mask =>
    cases h
    exact iff_of_true (pinLevel_bshr_mask mask hp s.latch) trivial
  | clearPins mask =>
    cases h
    exact iff_of_true (pinLevel_bcr_mask mask hp s.latch) trivial
  | shiftOut dir pin reg =>
    exact iff_of_true (pinLevel_shiftOut hp hpin (ofOption_eq_running.mp h)) trivial
  | pop dir pin =>
    exact iff_of_true (pinLevel_pop hp hpin (ofOption_eq_running.mp h)) trivial
  | writeBank bank reg =>
    cases bank with
    | a => exact pinLevel_writeBank_a hp (ofOption_eq_running.mp h)
    | d => exact pinLevel_writeBank_d hp (ofOption_eq_running.mp h)
  | _ => exact iff_of_true (congrArg (pinLevel · p) ((execute_leavesAlone h).latch rfl)) trivial

end Step

/-! ### Sequences -/

/-- After every part of a sequence the pin has the level that the last instruction addressing it
commands, and the level it started with if there is none. -/
def LastWriterWins (p : UInt8) (seq : List (Instr × VmInput)) (s : VmState) : Prop :=
  ∀ before, before <+: seq → ∀ s', executeSeq before s = .running s' →
    pinLevel s'.latch p = lastCommand p before s (pinLevel s.latch p)

/-- Every instruction of a sequence finds a latch for which its mask is right on the pin. -/
def MasksRightAlong (p : UInt8) : List (Instr × VmInput) → VmState → Prop
  | [], _ => True
  | (i, input) :: rest, s =>
    i.MasksRight s p ∧ ∀ s', execute i input s = .running s' → MasksRightAlong p rest s'

theorem lastWriterWins_cons {p : UInt8} {i : Instr} {input : VmInput}
    {rest : List (Instr × VmInput)} {s s' : VmState} (h : execute i input s = .running s')
    (hlevel : pinLevel s'.latch p = (i.command s p).getD (pinLevel s.latch p)) :
    LastWriterWins p ((i, input) :: rest) s ↔ LastWriterWins p rest s' := by
  constructor
  · intro hwins before hbefore t ht
    have hlong := hwins ((i, input) :: before) (List.cons_prefix_cons.mpr ⟨rfl, hbefore⟩) t
    simp only [executeSeq, lastCommand, h] at hlong
    rw [hlevel]
    exact hlong ht
  · intro hwins before hbefore t ht
    rcases List.prefix_cons_iff.mp hbefore with rfl | ⟨tail, rfl, htail⟩
    · cases ht
      rfl
    · simp only [executeSeq, lastCommand, h] at ht ⊢
      rw [← hlevel]
      exact hwins tail htail t ht

/-- On each pin the last writer wins throughout a sequence if and only if no bank write of the
sequence finds a latch that its mask gets wrong there. -/
theorem lastWriterWins_iff (seq : List (Instr × VmInput)) (s final : VmState) (p : UInt8)
    (hp : p < 16) (hpins : ∀ x ∈ seq, x.1.LowPin) (h : executeSeq seq s = .running final) :
    LastWriterWins p seq s ↔ MasksRightAlong p seq s := by
  induction seq generalizing s with
  | nil =>
    refine iff_of_true (fun before hbefore t ht => ?_) trivial
    obtain rfl := List.prefix_nil.mp hbefore
    cases ht
    rfl
  | cons x rest ih =>
    rcases x with ⟨i, input⟩
    have hpin : i.LowPin := hpins (i, input) List.mem_cons_self
    have hrest : ∀ x ∈ rest, x.1.LowPin := fun x hx => hpins x (List.mem_cons_of_mem _ hx)
    cases hstep : execute i input s with
    | running s' =>
      simp only [executeSeq, hstep] at h
      have hiff := pinLevel_execute_iff hp hpin hstep
      constructor
      · intro hwins
        have hlevel : pinLevel s'.latch p = (i.command s p).getD (pinLevel s.latch p) := by
          have hone := hwins [(i, input)] (List.cons_prefix_cons.mpr ⟨rfl, List.nil_prefix⟩) s'
          simp only [executeSeq, lastCommand, hstep] at hone
          exact hone trivial
        refine ⟨hiff.mp hlevel, fun t ht => ?_⟩
        obtain rfl : s' = t := by rwa [hstep, Outcome.running.injEq] at ht
        exact (ih s' hrest h).mp ((lastWriterWins_cons hstep hlevel).mp hwins)
      · rintro ⟨hmask, htail⟩
        have hlevel := hiff.mpr hmask
        exact (lastWriterWins_cons hstep hlevel).mpr ((ih s' hrest h).mpr (htail s' hstep))
    | exited t =>
      simp only [executeSeq, hstep] at h
      cases h
    | fault =>
      simp only [executeSeq, hstep] at h
      cases h

/-- A machine whose registers are zero, with a given output latch. -/
def machineWithLatch (outdr : UInt32) : VmState :=
  { blankState (fun _ => 0) 0 with gpio := { blankGpio with a := ⟨0, 0, outdr⟩ } }

theorem lastWriterWins_iff_set_write :
    LastWriterWins 3 [(.setPins 0x8, ⟨0, false⟩), (.writeBank .a 0, ⟨0, false⟩)]
        (machineWithLatch 0x10) ↔
      MasksRightAlong 3 [(.setPins 0x8, ⟨0, false⟩), (.writeBank .a 0, ⟨0, false⟩)]
        (machineWithLatch 0x10) := by
  refine lastWriterWins_iff _ _ _ 3 (by decide) (fun x hx => ?_) rfl
  simp only [List.mem_cons, List.not_mem_nil, or_false] at hx
  rcases hx with rfl | rfl
  · exact trivial
  · exact trivial

/-- A write of zero to bank A leaves PA4 high. -/
theorem writeBank_leaves_high :
    ∃ s', executeSeq [(.writeBank .a 0, ⟨0, false⟩)] (machineWithLatch 0x10) = .running s' ∧
      lastCommand 4 [(.writeBank .a 0, ⟨0, false⟩)] (machineWithLatch 0x10)
        (pinLevel (machineWithLatch 0x10).latch 4) = false ∧
      pinLevel s'.latch 4 = true :=
  ⟨_, rfl, by decide +kernel, by decide +kernel⟩

end Not232
