import Not232.CallReturn
import Not232.LastWriter
import Not232.MsbFirst

/-!
# Registers as shift registers

A register that is only shifted, in one direction, is a line of eight bits: a shift pushes a bit in
at the far end, the sampled pin or a zero, and the bit at the near end falls out, onto the driven
pin. Whatever else is executed between the shifts, the register holds the last eight bits of what it
held and of what was pushed in, and the pins have seen the bits before these.
-/

namespace Not232

/-- The bits of a register in the order in which shifts push them out. -/
def ShiftDir.bits (dir : ShiftDir) (value : UInt8) : List Bool :=
  match dir with
  | .left => msbFirst value
  | .right => (msbFirst value).reverse

namespace Instr

/-- The bit that the instruction pushes into register `reg`. -/
def pushesInto (reg : UInt8) (input : VmInput) : Instr → Option Bool
  | shiftIn _ pin r => if r = reg then some (readPin input pin) else none
  | shiftOut _ _ r => if r = reg then some false else none
  | _ => none

/-- If the instruction stores into register `reg`, it shifts it in direction `dir`. -/
def OnlyShifts (dir : ShiftDir) (reg : UInt8) : Instr → Prop
  | shiftIn d _ r | shiftOut d _ r => r = reg → d = dir
  | readBank _ r | assign r _ => r ≠ reg
  | _ => True

end Instr

/-- A line of bits with another one behind it and one less in front. -/
def shiftLine (line : List Bool) : Option Bool → List Bool
  | none => line
  | some bit => line.tail ++ [bit]

/-- The bit that turn `n` pushes into register `reg`. -/
def pushedAt (opcodes : ℕ → UInt8) (inputs : ℕ → VmInput) (start : VmState) (reg : UInt8) (n : ℕ) :
    Option Bool :=
  match run opcodes inputs start n with
  | .running s =>
    match s.phase with
    | .fetch => (fetch opcodes s.pc).pushesInto reg (inputs n)
    | .poll _ _ => none
  | _ => none

/-- The bits pushed into register `reg` in the `d` turns from turn `m` on. -/
def pushed (opcodes : ℕ → UInt8) (inputs : ℕ → VmInput) (start : VmState) (reg : UInt8) (m d : ℕ) :
    List Bool :=
  (List.range' m d).filterMap (pushedAt opcodes inputs start reg)

theorem length_shiftBits (dir : ShiftDir) (value : UInt8) : (dir.bits value).length = 8 := by
  cases dir <;> rfl

/-- A shift pushes a bit in at the far end. -/
theorem bits_shiftBits (dir : ShiftDir) (value : UInt8) (bit : Bool) :
    dir.bits (shiftBits dir value (if bit then 1 else 0)) = (dir.bits value).tail ++ [bit] := by
  revert value bit
  cases dir with
  | left => exact forall_byte (by decide +kernel)
  | right => exact forall_byte (by decide +kernel)

/-- The bit that falls out is the one at the near end. -/
theorem head?_bits (dir : ShiftDir) (s : VmState) (reg : UInt8) :
    (dir.bits (s.register reg)).head? = some (s.shiftedBit dir reg) := by
  cases dir with
  | left => exact congrArg some (and_80_ne_zero (s.register reg))
  | right => exact congrArg some (and_1_ne_zero (s.register reg))

section Step

variable {dir : ShiftDir} {reg : UInt8} {input : VmInput} {s t : VmState}

theorem register_setRegister {r value old : UInt8} (h : s.registers[r.toNat]? = some old) :
    (s.setRegister r value).register r = value := by
  obtain ⟨hlt, -⟩ := Vector.getElem?_eq_some_iff.mp h
  rw [VmState.register, VmState.setRegister, Vector.getElem?_setIfInBounds, if_pos rfl, if_pos hlt]
  rfl

theorem register_setRegister_of_ne {r : UInt8} (value : UInt8) (h : r ≠ reg) :
    (s.setRegister r value).register reg = s.register reg := by
  have hne : r.toNat ≠ reg.toNat := fun heq => h (UInt8.toNat_inj.mp heq)
  rw [VmState.register, VmState.setRegister, Vector.getElem?_setIfInBounds, if_neg hne]
  rfl

/-- A store of a shifted value. -/
theorem bits_stored {d : ShiftDir} {r value : UInt8} (bit : Bool) (honly : r = reg → d = dir)
    (hvalue : s.registers[r.toNat]? = some value) (hstored : t.registers =
      (s.setRegister r (shiftBits d value (if bit then 1 else 0))).registers) :
    dir.bits (t.register reg) =
      shiftLine (dir.bits (s.register reg)) (if r = reg then some bit else none) := by
  have hregister : t.register reg =
      (s.setRegister r (shiftBits d value (if bit then 1 else 0))).register reg := by
    rw [VmState.register, hstored]
    rfl
  rw [hregister]
  by_cases hr : r = reg
  · subst hr
    obtain rfl := honly rfl
    rw [register_setRegister hvalue, bits_shiftBits, if_pos rfl, register_eq hvalue]
    rfl
  · rw [register_setRegister_of_ne _ hr, if_neg hr]
    rfl

theorem bits_shiftIn {d : ShiftDir} {pin r : UInt8} (honly : r = reg → d = dir)
    (h : shiftIn d pin r input s = some t) : dir.bits (t.register reg) = shiftLine
      (dir.bits (s.register reg)) ((Instr.shiftIn d pin r).pushesInto reg input) := by
  obtain ⟨value, hvalue, hsome⟩ := Option.bind_eq_some_iff.mp h
  cases d with
  | left =>
    cases hsome
    exact bits_stored (readPin input pin) honly hvalue rfl
  | right =>
    cases hsome
    exact bits_stored (readPin input pin) honly hvalue rfl

theorem bits_shiftOut {d : ShiftDir} {pin r : UInt8} (honly : r = reg → d = dir)
    (h : shiftOut d pin r s = some t) : dir.bits (t.register reg) = shiftLine
      (dir.bits (s.register reg)) ((Instr.shiftOut d pin r).pushesInto reg input) := by
  obtain ⟨value, hvalue, hsome⟩ := Option.bind_eq_some_iff.mp h
  cases d with
  | left =>
    cases hsome
    apply bits_stored false honly hvalue
    rw [shiftBits, if_neg Bool.false_ne_true, UInt8.or_zero]
    rfl
  | right =>
    cases hsome
    apply bits_stored false honly hvalue
    have hzero : (0 : UInt8) <<< 7 = 0 := rfl
    rw [shiftBits, if_neg Bool.false_ne_true, hzero, UInt8.or_zero]
    rfl

/-- An instruction that only shifts the register moves its line of bits. -/
theorem bits_execute {i : Instr} (honly : i.OnlyShifts dir reg)
    (h : execute i input s = .running t) :
    dir.bits (t.register reg) =
      shiftLine (dir.bits (s.register reg)) (i.pushesInto reg input) := by
  cases i with
  | shiftIn d pin r => exact bits_shiftIn honly (ofOption_eq_running.mp h)
  | shiftOut d pin r => exact bits_shiftOut honly (ofOption_eq_running.mp h)
  | readBank bank r =>
    obtain ⟨value, -, rfl⟩ := ofOption_bind_eq_running.mp h
    exact congrArg dir.bits (register_setRegister_of_ne _ honly)
  | assign destination source =>
    obtain ⟨value, -, hs⟩ := Option.bind_eq_some_iff.mp (ofOption_eq_running.mp h)
    obtain ⟨_, -, hs⟩ := Option.bind_eq_some_iff.mp hs
    cases hs
    exact congrArg dir.bits (register_setRegister_of_ne _ honly)
  | initPin mode pin =>
    obtain ⟨gpio, -, rfl⟩ := Option.map_eq_some_iff.mp (ofOption_eq_running.mp h)
    rfl
  | writeBank bank r =>
    obtain ⟨value, -, rfl⟩ := ofOption_bind_eq_running.mp h
    rfl
  | call target =>
    obtain ⟨link, -, rfl⟩ := ofOption_bind_eq_running.mp h
    rfl
  | ret =>
    obtain ⟨link, -, rfl⟩ := ofOption_bind_eq_running.mp h
    rfl
  | push d pin =>
    obtain ⟨lipo, -, rfl⟩ := ofOption_bind_eq_running.mp h
    rfl
  | pop d pin =>
    obtain ⟨lipo, -, rfl⟩ := ofOption_bind_eq_running.mp h
    rfl
  | exit => cases h
  | _ =>
    cases h
    rfl

theorem register_poll (pin : UInt8) (levels : List Bool) :
    (poll pin levels input s).register reg = s.register reg := by
  obtain ⟨pc, timer, phase, h⟩ := poll_eq pin levels input s
  rw [h]
  rfl

end Step

section Run

variable {opcodes : ℕ → UInt8} {inputs : ℕ → VmInput} {start s t : VmState} {dir : ShiftDir}
  {reg : UInt8} {m d : ℕ}

theorem pushed_succ : pushed opcodes inputs start reg m (d + 1) =
    pushed opcodes inputs start reg m d ++ (pushedAt opcodes inputs start reg (m + d)).toList := by
  rw [pushed, pushed, List.range'_1_concat, List.filterMap_append]
  congr 1

/-- A line of eight bits as the end of all the bits that have been in it. -/
theorem shiftLine_drop {line before : List Bool} (hline : line.length = 8) (bit : Option Bool) :
    shiftLine ((line ++ before).drop before.length) bit =
      (line ++ (before ++ bit.toList)).drop (before ++ bit.toList).length := by
  cases bit with
  | none =>
    rw [Option.toList_none, List.append_nil]
    rfl
  | some b =>
    have hle : (before ++ [b]).length ≤ (line ++ before).length := by
      rw [List.length_append, List.length_append, hline, List.length_singleton]
      omega
    rw [Option.toList_some, ← List.append_assoc, List.drop_append_of_le_length hle, shiftLine,
      List.tail_drop, List.length_append, List.length_singleton]

/-- One turn moves the line of bits. -/
theorem bits_turn (hs : run opcodes inputs start m = .running s)
    (ht : run opcodes inputs start (m + 1) = .running t)
    (honly : ∀ i, Executes opcodes inputs start m s i → i.OnlyShifts dir reg) :
    dir.bits (t.register reg) =
      shiftLine (dir.bits (s.register reg)) (pushedAt opcodes inputs start reg m) := by
  rw [run_succ_of_running hs] at ht
  cases hphase : s.phase with
  | poll pin levels =>
    simp only [step, hphase, Outcome.running.injEq] at ht
    simp only [pushedAt, hs, hphase]
    rw [← ht, register_poll]
    rfl
  | fetch =>
    have hexec : Executes opcodes inputs start m s (fetch opcodes s.pc) := ⟨hs, hphase, rfl⟩
    simp only [step, hphase] at ht
    simp only [pushedAt, hs, hphase]
    exact bits_execute (honly _ hexec) ht

theorem bits_run (honly : ∀ j < d, ∀ u i, Executes opcodes inputs start (m + j) u i →
      i.OnlyShifts dir reg)
    (hs : run opcodes inputs start m = .running s)
    (ht : run opcodes inputs start (m + d) = .running t) :
    dir.bits (t.register reg) = (dir.bits (s.register reg) ++
      pushed opcodes inputs start reg m d).drop (pushed opcodes inputs start reg m d).length := by
  induction d generalizing t with
  | zero =>
    rw [Nat.add_zero, hs] at ht
    cases ht
    exact (List.append_nil _).symm
  | succ d ih =>
    obtain ⟨u, hu⟩ := running_of_le (Nat.le_succ (m + d)) ht
    have hline := ih (fun j hj => honly j (Nat.lt_succ_of_lt hj)) hu
    rw [bits_turn hu ht (honly d d.lt_succ_self u), hline, shiftLine_drop (length_shiftBits dir _),
      pushed_succ]

/-- While register `reg` is only shifted in one direction, it holds the last eight bits of what it
held and of what has been pushed in since, and a shift that drives a pin drives it to the bit before
these. -/
theorem shift_register_line (honly : ∀ j < d, ∀ u i, Executes opcodes inputs start (m + j) u i →
      i.OnlyShifts dir reg)
    (hs : run opcodes inputs start m = .running s)
    (ht : run opcodes inputs start (m + d) = .running t) :
    dir.bits (t.register reg) =
        (dir.bits (s.register reg) ++ pushed opcodes inputs start reg m d).drop
          (pushed opcodes inputs start reg m d).length ∧
      ∀ pin u, Executes opcodes inputs start (m + d) t (.shiftOut dir pin reg) → pin < 16 →
        run opcodes inputs start (m + d + 1) = .running u →
        (dir.bits (s.register reg) ++ pushed opcodes inputs start reg m d)[
          (pushed opcodes inputs start reg m d).length]? = some (pinLevel u.latch pin) := by
  have hline := bits_run honly hs ht
  refine ⟨hline, ?_⟩
  intro pin u hexec hpin hu
  have hdrives : shiftOut dir pin reg t = some u := by
    rw [run_succ_of_running ht] at hu
    simp only [step, hexec.phase, ← hexec.fetched] at hu
    exact ofOption_eq_running.mp hu
  have hlevel := pinLevel_shiftOut hpin hpin hdrives
  rw [Instr.command, if_pos rfl, Option.getD_some] at hlevel
  rw [hlevel, ← head?_bits, hline, List.head?_drop]

end Run

/-- Register 0 is shifted onto pin 0, pin 1 into it, and it onto pin 0 again. -/
def shiftsOutInOut : ℕ → UInt8 :=
  loadProgram [0x0C, 0, 0, 0, 0x03, 0, 1, 0, 0x0C, 0, 0, 0, 0xFF, 0, 0, 0] fun _ => 0

theorem shift_register_line_out_in :
    ∃ t, run shiftsOutInOut (fun _ => ⟨2, false⟩) (blankState shiftsOutInOut 16) 2 = .running t ∧
      ShiftDir.left.bits (t.register 0) =
        [false, false, false, false, false, false, false, true] := by
  obtain ⟨t, ht⟩ : ∃ t, run shiftsOutInOut (fun _ => ⟨2, false⟩) (blankState shiftsOutInOut 16)
    (0 + 2) = .running t := ⟨_, rfl⟩
  have honly : ∀ j < 2, ∀ u i, Executes shiftsOutInOut (fun _ => ⟨2, false⟩)
      (blankState shiftsOutInOut 16) (0 + j) u i → i.OnlyShifts .left 0 := by
    rintro j hj u i ⟨hreached, -, rfl⟩
    match j with
    | 0 =>
      cases hreached
      exact fun _ => rfl
    | 1 =>
      cases hreached
      exact fun _ => rfl
  have hline := (shift_register_line honly rfl ht).1
  exact ⟨t, ht, hline.trans rfl⟩

end Not232
