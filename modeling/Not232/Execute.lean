import Not232.Gpio
import Not232.Opcodes

/-!
# The virtual machine

`step` executes one instruction, or one turn of a waiting loop, on one sample of the pins and of the
timer. An access outside an array of the machine is a fault.
-/

namespace Not232

def registerCount : ℕ := 32
def stackSize : ℕ := 16
def pileSize : ℕ := 256

/-- What the machine can see in one step: the pins of port A and whether the timer has run out. -/
structure VmInput where
  indr : UInt32
  timeout : Bool

inductive ShiftDir
  | left
  | right

inductive Bank
  | a
  | d

inductive PileDir
  | up
  | down

inductive DelayUnit
  | nops
  | ticks
  | micros
  | millis

inductive Instr
  | nop
  | initPin (mode : GpioMode) (pin : UInt8)
  | setPins (mask : UInt16)
  | clearPins (mask : UInt16)
  | wait (levels : List Bool) (pin timeout : UInt8)
  | shiftIn (dir : ShiftDir) (pin reg : UInt8)
  | shiftOut (dir : ShiftDir) (pin reg : UInt8)
  | writeBank (bank : Bank) (reg : UInt8)
  | readBank (bank : Bank) (reg : UInt8)
  | delay (unit : DelayUnit) (count : UInt16)
  | call (target : UInt16)
  | ret
  | assign (destination source : UInt8)
  | push (dir : PileDir) (pin : UInt8)
  | pop (dir : PileDir) (pin : UInt8)
  | exit
  | unknown

open Opcode in
/-- The instruction of a record with opcode `op` and operand bytes `x` and `y`. The levels of a wait
are those its loops wait to end, in order. -/
def decode (op x y : UInt8) : Instr :=
  let xy : UInt16 := x.toUInt16 ||| (y.toUInt16 <<< 8)
  if op = nop then .nop
  else if op = inputFloating then .initPin .inFloating x
  else if op = inputPullDown then .initPin .ipd x
  else if op = inputPullUp then .initPin .ipu x
  else if op = outputPP then .initPin .outPP x
  else if op = outputOD then .initPin .outOD x
  else if op = setPinX then .setPins xy
  else if op = clearPinX then .clearPins xy
  else if op = waitForRisingEdgeXTimeoutY then .wait [true, false] x y
  else if op = waitForFallingEdgeXTimeoutY then .wait [false, true] x y
  else if op = waitForLowPinXTimeoutY then .wait [true] x y
  else if op = waitForHighPinXTimeoutY then .wait [false] x y
  else if op = shiftLeftInPinXToRegY then .shiftIn .left x y
  else if op = shiftRightOutPinXFromRegY then .shiftOut .right x y
  else if op = shiftRightInPinXToRegY then .shiftIn .right x y
  else if op = shiftLeftOutPinXFromRegY then .shiftOut .left x y
  else if op = writeBankARegX then .writeBank .a x
  else if op = writeBankDRegX then .writeBank .d x
  else if op = readBankARegX then .readBank .a x
  else if op = readBankDRegX then .readBank .d x
  else if op = delayNopsX then .delay .nops xy
  else if op = delayTicksX then .delay .ticks xy
  else if op = delayMicrosX then .delay .micros xy
  else if op = delayMillisX then .delay .millis xy
  else if op = callX then .call xy
  else if op = ret then .ret
  else if op = assignRegXValueofRegY then .assign x y
  else if op = pushUpPileRFromPinX then .push .up x
  else if op = pushDownPileRFromPinX then .push .down x
  else if op = popUpPileTIntoPinX then .pop .up x
  else if op = popDownPileTIntoPinX then .pop .down x
  else if op = exit then .exit
  else .unknown

namespace Instr

def pushesPile : Instr → Bool
  | push _ _ => true
  | _ => false

def popsPile : Instr → Bool
  | pop _ _ => true
  | _ => false

def writesLatch : Instr → Bool
  | setPins _ | clearPins _ | shiftOut _ _ _ | writeBank _ _ | pop _ _ => true
  | _ => false

/-- The instruction goes on to the next record at once. -/
def fallsThrough : Instr → Bool
  | wait _ _ _ | call _ | ret | exit | unknown => false
  | _ => true

/-- The instruction with its operands set to zero. -/
def skeleton : Instr → Instr
  | initPin mode _ => initPin mode 0
  | setPins _ => setPins 0
  | clearPins _ => clearPins 0
  | wait levels _ _ => wait levels 0 0
  | shiftIn dir _ _ => shiftIn dir 0 0
  | shiftOut dir _ _ => shiftOut dir 0 0
  | writeBank bank _ => writeBank bank 0
  | readBank bank _ => readBank bank 0
  | delay unit _ => delay unit 0
  | call _ => call 0
  | assign _ _ => assign 0 0
  | push dir _ => push dir 0
  | pop dir _ => pop dir 0
  | i => i

end Instr

theorem skeleton_decode (op x y : UInt8) : (decode op x y).skeleton = decode op 0 0 := by
  unfold decode
  simp only [apply_ite Instr.skeleton]
  rfl

theorem forall_uint8 {p : UInt8 → Prop} (h : ∀ n : Fin 256, p (.ofNat n)) (b : UInt8) : p b := by
  have hb := h ⟨b.toNat, b.toNat_lt⟩
  rwa [UInt8.ofNat_toNat] at hb

open Opcode

/-- Between two instructions, or in a waiting loop with the levels still to end. -/
inductive Phase
  | fetch
  | poll (pin : UInt8) (levels : List Bool)

structure VmState where
  pc : UInt32
  sp : UInt32
  stack : Vector UInt32 stackSize
  registers : Vector UInt8 registerCount
  pileT : Vector UInt8 pileSize
  pileR : Vector UInt8 pileSize
  tp : UInt32
  rp : UInt32
  timer : Option UInt8
  phase : Phase
  gpio : Gpio

inductive Outcome
  | running (s : VmState)
  | exited (s : VmState)
  | fault

namespace VmState

def advance (s : VmState) : VmState := { s with pc := s.pc + .ofNat bytesPerInstruction }

def setRegister (reg value : UInt8) (s : VmState) : VmState :=
  { s with registers := s.registers.setIfInBounds reg.toNat value }

def writeA (reg : GpioReg) (value : UInt32) (s : VmState) : VmState :=
  { s with gpio := s.gpio.write .a reg value }

/-- Drives a pin of port A. -/
def drivePin (pin : UInt8) (level : Bool) (s : VmState) : VmState :=
  s.writeA (if level then .bshr else .bcr) (pinMask pin)

end VmState

def readPin (input : VmInput) (pin : UInt8) : Bool := input.indr &&& pinMask pin != 0

/-- The position in a pile of the bit with number `count`. -/
def pileIndex (dir : PileDir) (count : UInt32) : UInt32 :=
  match dir with
  | .up => count
  | .down => .ofNat (pileSize * 8 - 1) - count

def pileMask (index : UInt32) : UInt8 := 1 <<< (index % 8).toUInt8

def wait (levels : List Bool) (pin timeout : UInt8) (s : VmState) : VmState :=
  { s with timer := some timeout, phase := .poll pin levels }

def shiftIn (dir : ShiftDir) (pin reg : UInt8) (input : VmInput) (s : VmState) :
    Option VmState := do
  let value ← s.registers[reg.toNat]?
  let bit : UInt8 := if readPin input pin then 1 else 0
  let shifted : UInt8 := match dir with
    | .left => (value <<< 1) ||| bit
    | .right => (value >>> 1) ||| (bit <<< 7)
  some (s.setRegister reg shifted).advance

def shiftOut (dir : ShiftDir) (pin reg : UInt8) (s : VmState) : Option VmState := do
  let value ← s.registers[reg.toNat]?
  let (bit, shifted) : UInt8 × UInt8 := match dir with
    | .left => (value &&& 0x80, value <<< 1)
    | .right => (value &&& 1, value >>> 1)
  some ((s.setRegister reg shifted).drivePin pin (bit != 0)).advance

def writeBank (bank : Bank) (reg : UInt8) (s : VmState) : Option VmState := do
  let value ← s.registers[reg.toNat]?
  let outdr := s.gpio.a.outdr
  let outdr : UInt32 := match bank with
    | .a => (outdr &&& (0xFFFFFFF0 : UInt32)) ||| value.toUInt32
    | .d => (outdr &&& (0xFFFFFF0F : UInt32)) ||| (value.toUInt32 <<< 8)
  some (s.writeA .outdr outdr).advance

def readBank (bank : Bank) (reg : UInt8) (input : VmInput) (s : VmState) : Option VmState := do
  let _ ← s.registers[reg.toNat]?
  let value : UInt32 := match bank with
    | .a => input.indr &&& 0xFF
    | .d => (input.indr >>> 8) &&& 0xFF
  some (s.setRegister reg value.toUInt8).advance

def call (target : UInt16) (s : VmState) : Option VmState := do
  let _ ← s.stack[s.sp.toNat]?
  some { s with
    stack := s.stack.setIfInBounds s.sp.toNat (s.pc + .ofNat bytesPerInstruction)
    sp := s.sp + 1
    pc := target.toUInt32 }

def ret (s : VmState) : Option VmState := do
  let link ← s.stack[(s.sp - 1).toNat]?
  some { s with sp := s.sp - 1, pc := link }

def assign (destination source : UInt8) (s : VmState) : Option VmState := do
  let value ← s.registers[source.toNat]?
  let _ ← s.registers[destination.toNat]?
  some (s.setRegister destination value).advance

def push (dir : PileDir) (pin : UInt8) (input : VmInput) (s : VmState) : Option VmState := do
  let index := pileIndex dir s.rp
  let lipo ← s.pileR[(index / 8).toNat]?
  let mask := pileMask index
  let lipo := if readPin input pin then lipo ||| mask else lipo &&& ~~~mask
  let s := { s with pileR := s.pileR.setIfInBounds (index / 8).toNat lipo, rp := s.rp + 1 }
  some s.advance

def pop (dir : PileDir) (pin : UInt8) (s : VmState) : Option VmState := do
  let s := { s with tp := s.tp - 1 }
  let index := pileIndex dir s.tp
  let lipo ← s.pileT[(index / 8).toNat]?
  some (s.drivePin pin (lipo &&& pileMask index != 0)).advance

def Outcome.ofOption : Option VmState → Outcome
  | some s => .running s
  | none => .fault

theorem ofOption_eq_running {o : Option VmState} {s : VmState} :
    Outcome.ofOption o = .running s ↔ o = some s := by
  cases o <;> simp [Outcome.ofOption]

theorem ofOption_eq_fault {o : Option VmState} : Outcome.ofOption o = .fault ↔ o = none := by
  cases o <;> simp [Outcome.ofOption]

theorem ofOption_bind_eq_running {α : Type} {o : Option α} {f : α → VmState} {s : VmState} :
    Outcome.ofOption (o.bind fun a => some (f a)) = .running s ↔ ∃ a, o = some a ∧ f a = s := by
  rw [ofOption_eq_running]
  simp [Option.bind_eq_some_iff]

theorem ofOption_bind_eq_fault {α : Type} {o : Option α} {f : α → VmState} :
    Outcome.ofOption (o.bind fun a => some (f a)) = .fault ↔ o = none := by
  rw [ofOption_eq_fault]
  cases o <;> simp

/-- An opcode without a case leaves the machine where it is. -/
def execute (i : Instr) (input : VmInput) (s : VmState) : Outcome :=
  match i with
  | .nop => .running s.advance
  | .initPin mode pin =>
    .ofOption ((gpioInitPin pin mode s.gpio).map fun gpio => { s with gpio := gpio }.advance)
  | .setPins mask => .running (s.writeA .bshr mask.toUInt32).advance
  | .clearPins mask => .running (s.writeA .bcr mask.toUInt32).advance
  | .wait levels pin timeout => .running (wait levels pin timeout s)
  | .shiftIn dir pin reg => .ofOption (shiftIn dir pin reg input s)
  | .shiftOut dir pin reg => .ofOption (shiftOut dir pin reg s)
  | .writeBank bank reg => .ofOption (writeBank bank reg s)
  | .readBank bank reg => .ofOption (readBank bank reg input s)
  | .delay _ _ => .running s.advance
  | .call target => .ofOption (call target s)
  | .ret => .ofOption (ret s)
  | .assign destination source => .ofOption (assign destination source s)
  | .push dir pin => .ofOption (push dir pin input s)
  | .pop dir pin => .ofOption (pop dir pin s)
  | .exit => .exited s
  | .unknown => .running s

/-- What an instruction leaves as it was: the counters that it does not move, and the output latch
unless it writes it. -/
structure Instr.LeavesAlone (i : Instr) (s s' : VmState) : Prop where
  sp : (∀ target, i ≠ .call target) → i ≠ .ret → s'.sp = s.sp
  rp : i.pushesPile = false → s'.rp = s.rp
  tp : i.popsPile = false → s'.tp = s.tp
  latch : i.writesLatch = false → s'.gpio.a.outdr = s.gpio.a.outdr

theorem execute_leavesAlone {i : Instr} {input : VmInput} {s s' : VmState}
    (h : execute i input s = .running s') : i.LeavesAlone s s' := by
  cases i with
  | initPin mode pin =>
    obtain ⟨gpio, hgpio, rfl⟩ := Option.map_eq_some_iff.mp (ofOption_eq_running.mp h)
    exact ⟨fun _ _ => rfl, fun _ => rfl, fun _ => rfl, fun _ => outdr_gpioInitPin hgpio⟩
  | shiftIn dir pin reg =>
    obtain ⟨value, -, rfl⟩ := ofOption_bind_eq_running.mp h
    exact ⟨fun _ _ => rfl, fun _ => rfl, fun _ => rfl, fun _ => rfl⟩
  | shiftOut dir pin reg =>
    obtain ⟨value, -, rfl⟩ := ofOption_bind_eq_running.mp h
    exact ⟨fun _ _ => rfl, fun _ => rfl, fun _ => rfl, fun hlatch => Bool.noConfusion hlatch⟩
  | writeBank bank reg =>
    obtain ⟨value, -, rfl⟩ := ofOption_bind_eq_running.mp h
    exact ⟨fun _ _ => rfl, fun _ => rfl, fun _ => rfl, fun hlatch => Bool.noConfusion hlatch⟩
  | readBank bank reg =>
    obtain ⟨value, -, rfl⟩ := ofOption_bind_eq_running.mp h
    exact ⟨fun _ _ => rfl, fun _ => rfl, fun _ => rfl, fun _ => rfl⟩
  | call target =>
    obtain ⟨link, -, rfl⟩ := ofOption_bind_eq_running.mp h
    exact ⟨fun hcall _ => absurd rfl (hcall target), fun _ => rfl, fun _ => rfl, fun _ => rfl⟩
  | ret =>
    obtain ⟨link, -, rfl⟩ := ofOption_bind_eq_running.mp h
    exact ⟨fun _ hret => absurd rfl hret, fun _ => rfl, fun _ => rfl, fun _ => rfl⟩
  | assign destination source =>
    obtain ⟨value, -, hs⟩ := Option.bind_eq_some_iff.mp (ofOption_eq_running.mp h)
    obtain ⟨_, -, hs⟩ := Option.bind_eq_some_iff.mp hs
    cases hs
    exact ⟨fun _ _ => rfl, fun _ => rfl, fun _ => rfl, fun _ => rfl⟩
  | push dir pin =>
    obtain ⟨lipo, -, rfl⟩ := ofOption_bind_eq_running.mp h
    exact ⟨fun _ _ => rfl, fun hpush => Bool.noConfusion hpush, fun _ => rfl, fun _ => rfl⟩
  | pop dir pin =>
    obtain ⟨lipo, -, rfl⟩ := ofOption_bind_eq_running.mp h
    exact ⟨fun _ _ => rfl, fun _ => rfl, fun hpop => Bool.noConfusion hpop,
      fun hlatch => Bool.noConfusion hlatch⟩
  | exit => cases h
  | setPins mask =>
    cases h
    exact ⟨fun _ _ => rfl, fun _ => rfl, fun _ => rfl, fun hlatch => Bool.noConfusion hlatch⟩
  | clearPins mask =>
    cases h
    exact ⟨fun _ _ => rfl, fun _ => rfl, fun _ => rfl, fun hlatch => Bool.noConfusion hlatch⟩
  | _ =>
    cases h
    exact ⟨fun _ _ => rfl, fun _ => rfl, fun _ => rfl, fun _ => rfl⟩

/-- An instruction that falls through leaves the call stack and the timer alone. -/
theorem execute_fallsThrough {i : Instr} {input : VmInput} {s s' : VmState}
    (hi : i.fallsThrough = true) (h : execute i input s = .running s') :
    ∃ registers pileR rp tp gpio, s' = { s with
      registers := registers, pileR := pileR, rp := rp, tp := tp, gpio := gpio }.advance := by
  cases i with
  | wait levels pin timeout => cases hi
  | call target => cases hi
  | ret => cases hi
  | exit => cases hi
  | unknown => cases hi
  | initPin mode pin =>
    obtain ⟨gpio, -, rfl⟩ := Option.map_eq_some_iff.mp (ofOption_eq_running.mp h)
    exact ⟨_, _, _, _, _, rfl⟩
  | shiftIn dir pin reg =>
    obtain ⟨value, -, rfl⟩ := ofOption_bind_eq_running.mp h
    exact ⟨_, _, _, _, _, rfl⟩
  | shiftOut dir pin reg =>
    obtain ⟨value, -, rfl⟩ := ofOption_bind_eq_running.mp h
    exact ⟨_, _, _, _, _, rfl⟩
  | writeBank bank reg =>
    obtain ⟨value, -, rfl⟩ := ofOption_bind_eq_running.mp h
    exact ⟨_, _, _, _, _, rfl⟩
  | readBank bank reg =>
    obtain ⟨value, -, rfl⟩ := ofOption_bind_eq_running.mp h
    exact ⟨_, _, _, _, _, rfl⟩
  | assign destination source =>
    obtain ⟨value, -, hs⟩ := Option.bind_eq_some_iff.mp (ofOption_eq_running.mp h)
    obtain ⟨_, -, hs⟩ := Option.bind_eq_some_iff.mp hs
    cases hs
    exact ⟨_, _, _, _, _, rfl⟩
  | push dir pin =>
    obtain ⟨lipo, -, rfl⟩ := ofOption_bind_eq_running.mp h
    exact ⟨_, _, _, _, _, rfl⟩
  | pop dir pin =>
    obtain ⟨lipo, -, rfl⟩ := ofOption_bind_eq_running.mp h
    exact ⟨_, _, _, _, _, rfl⟩
  | _ =>
    cases h
    exact ⟨_, _, _, _, _, rfl⟩

def endWait (s : VmState) : VmState := { s with timer := none, phase := .fetch }.advance

/-- One turn of a waiting loop; behind the last loop the timer is reset. -/
def poll (pin : UInt8) (levels : List Bool) (input : VmInput) (s : VmState) : VmState :=
  match levels with
  | [] => endWait s
  | level :: later =>
    if readPin input pin = level ∧ ¬ input.timeout then s
    else if later = [] then endWait s
    else { s with phase := .poll pin later }

theorem poll_eq (pin : UInt8) (levels : List Bool) (input : VmInput) (s : VmState) :
    ∃ pc timer phase, poll pin levels input s =
      { s with pc := pc, timer := timer, phase := phase } := by
  unfold poll
  cases levels with
  | nil => exact ⟨_, _, _, rfl⟩
  | cons level later =>
    dsimp only
    split_ifs
    · exact ⟨_, _, _, rfl⟩
    · exact ⟨_, _, _, rfl⟩
    · exact ⟨_, _, _, rfl⟩

def fetch (opcodes : ℕ → UInt8) (pc : UInt32) : Instr :=
  decode (opcodes pc.toNat) (opcodes (pc + 2).toNat) (opcodes (pc + 3).toNat)

def step (opcodes : ℕ → UInt8) (input : VmInput) (s : VmState) : Outcome :=
  match s.phase with
  | .fetch => execute (fetch opcodes s.pc) input s
  | .poll pin levels => .running (poll pin levels input s)

/-- `run` after `n` steps, with the input of each step. -/
def run (opcodes : ℕ → UInt8) (inputs : ℕ → VmInput) (s : VmState) : ℕ → Outcome
  | 0 => .running s
  | n + 1 =>
    match run opcodes inputs s n with
    | .running s => step opcodes (inputs n) s
    | outcome => outcome

end Not232
