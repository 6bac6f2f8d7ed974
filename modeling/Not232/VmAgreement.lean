import Not232.Execute
import Not232.Words

/-!
# Machines that agree on what is initialised

Two machines that differ only in memory that has not been initialised stay so under any instruction
that reads initialised memory, and drive the pins alike. The stack is initialised below its pointer,
the transmit pile as long as bits are left in it.
-/

namespace Not232

/-- How many bytes of its record an instruction uses, from the opcode on. -/
def Instr.bytesUsed : Instr → ℕ
  | nop | ret | exit | unknown => 1
  | initPin _ _ | writeBank _ _ | readBank _ _ | push _ _ | pop _ _ => 3
  | setPins _ | clearPins _ | wait _ _ _ | shiftIn _ _ _ | shiftOut _ _ _ | delay _ _ | call _
  | assign _ _ => 4

/-- A register after `bit` has been shifted in. -/
def shiftBits (dir : ShiftDir) (value bit : UInt8) : UInt8 :=
  match dir with
  | .left => (value <<< 1) ||| bit
  | .right => (value >>> 1) ||| (bit <<< 7)

/-- The bit of a register that a shift out drives. -/
def outBit : ShiftDir → UInt8
  | .left => 0x80
  | .right => 1

/-- The bits of each register that are initialised after an instruction. -/
def Instr.initialise (i : Instr) (initialised : UInt8 → UInt8) : UInt8 → UInt8 :=
  match i with
  | shiftIn dir _ reg | shiftOut dir _ reg =>
    Function.update initialised reg (shiftBits dir (initialised reg) 1)
  | readBank _ reg => Function.update initialised reg 0xFF
  | assign destination source => Function.update initialised destination (initialised source)
  | _ => initialised

/-- The bits of a register that an instruction drives pins from are initialised. -/
def Instr.Reads (i : Instr) (initialised : UInt8 → UInt8) : Prop :=
  match i with
  | shiftOut dir _ reg => initialised reg &&& outBit dir = outBit dir
  | writeBank _ reg => initialised reg = 0xFF
  | _ => True

theorem shiftBits_congr {value value' mask : UInt8} (dir : ShiftDir) (bit : UInt8)
    (h : value &&& mask = value' &&& mask) :
    shiftBits dir value bit &&& shiftBits dir mask 1 =
      shiftBits dir value' bit &&& shiftBits dir mask 1 := by
  have hbit : ∀ i : ℕ, (value.toBitVec.getLsbD i && mask.toBitVec.getLsbD i) =
      (value'.toBitVec.getLsbD i && mask.toBitVec.getLsbD i) := by
    intro i
    simpa using congrArg (fun b : UInt8 => b.toBitVec.getLsbD i) h
  apply UInt8.toBitVec_inj.mp
  apply BitVec.eq_of_getLsbD_eq
  intro i hi
  cases dir with
  | left =>
    cases i with
    | zero => simp [shiftBits]
    | succ i =>
      have hprev := hbit i
      simp only [shiftBits, UInt8.toBitVec_and, UInt8.toBitVec_or, BitVec.getLsbD_and]
      simp
      grind
  | right =>
    have hnext := hbit (i + 1)
    by_cases hlast : i = 7
    · subst hlast
      simp [shiftBits]
    · have htop : BitVec.getLsbD 128#8 i = false := by
        interval_cases i <;> first | rfl | exact absurd rfl hlast
      have hbelow : i < 7 := by omega
      simp [shiftBits, htop, hbelow]
      grind

theorem and_outBit_congr {value value' mask : UInt8} (dir : ShiftDir)
    (h : value &&& mask = value' &&& mask) (hmask : mask &&& outBit dir = outBit dir) :
    value &&& outBit dir = value' &&& outBit dir := by
  rw [← hmask, ← UInt8.and_assoc, ← UInt8.and_assoc, h]

/-- Two machines agree; `loaded` says that the transmit pile has been received and `cleared` that
the receive pile has been cleared. -/
structure Agree (loaded cleared : Bool) (initialised : UInt8 → UInt8) (s s' : VmState) : Prop where
  pc : s.pc = s'.pc
  sp : s.sp = s'.sp
  tp : s.tp = s'.tp
  rp : s.rp = s'.rp
  timer : s.timer = s'.timer
  phase : s.phase = s'.phase
  gpio : s.gpio = s'.gpio
  stack : ∀ i < s.sp.toNat, s.stack[i]? = s'.stack[i]?
  registers : ∀ reg : UInt8, s.registers[reg.toNat]?.map (· &&& initialised reg) =
    s'.registers[reg.toNat]?.map (· &&& initialised reg)
  pileT : if loaded then s.pileT = s'.pileT else s.tp = 0
  pileR : cleared = true → s.pileR = s'.pileR

/-- Two outcomes of the same kind whose states agree. -/
inductive OutcomeAgree (loaded cleared : Bool) (initialised : UInt8 → UInt8) :
    Outcome → Outcome → Prop
  | running {s s' : VmState} (h : Agree loaded cleared initialised s s') :
      OutcomeAgree loaded cleared initialised (.running s) (.running s')
  | exited {s s' : VmState} (h : Agree loaded cleared initialised s s') :
      OutcomeAgree loaded cleared initialised (.exited s) (.exited s')

theorem toNat_sp_add_one {sp : UInt32} (h : sp.toNat < stackSize) :
    (sp + 1).toNat = sp.toNat + 1 := by
  have hsize : stackSize < 2 ^ 32 - 1 := by decide
  exact toNat_add_one (h.trans hsize)

theorem toNat_sp_sub_one_lt_iff {sp : UInt32} (h : sp.toNat ≤ stackSize) :
    (sp - 1).toNat < stackSize ↔ 0 < sp.toNat := by
  have hsize : stackSize < 2 ^ 32 := by decide
  exact toNat_sub_one_lt_iff hsize h

namespace Agree

variable {loaded cleared : Bool} {initialised initialised' : UInt8 → UInt8} {s s' : VmState}

theorem advance (h : Agree loaded cleared initialised s s') :
    Agree loaded cleared initialised s.advance s'.advance :=
  { h with pc := congrArg (· + _) h.pc }

theorem setGpio (h : Agree loaded cleared initialised s s') (gpio : Gpio) :
    Agree loaded cleared initialised { s with gpio := gpio } { s' with gpio := gpio } :=
  { h with gpio := rfl }

theorem writeA (h : Agree loaded cleared initialised s s') (reg : GpioReg) (value : UInt32) :
    Agree loaded cleared initialised (s.writeA reg value) (s'.writeA reg value) :=
  { h with gpio := congrArg (Gpio.write .a reg value) h.gpio }

theorem setPhase (h : Agree loaded cleared initialised s s') (timer : Option UInt8)
    (phase : Phase) :
    Agree loaded cleared initialised { s with timer := timer, phase := phase }
      { s' with timer := timer, phase := phase } :=
  { h with timer := rfl, phase := rfl }

theorem setPileR (h : Agree loaded cleared initialised s s') (rp : UInt32)
    {pileR pileR' : Vector UInt8 pileSize} (hpile : cleared = true → pileR = pileR') :
    Agree loaded cleared initialised { s with pileR := pileR, rp := rp }
      { s' with pileR := pileR', rp := rp } :=
  { h with rp := rfl, pileR := hpile }

theorem setTp (h : Agree true cleared initialised s s') (tp : UInt32) :
    Agree true cleared initialised { s with tp := tp } { s' with tp := tp } :=
  { h with tp := rfl }

/-- A register that one machine has, the other has too, with the same initialised bits. -/
theorem register (h : Agree loaded cleared initialised s s') {reg value : UInt8}
    (hv : s.registers[reg.toNat]? = some value) :
    ∃ value', s'.registers[reg.toNat]? = some value' ∧
      value &&& initialised reg = value' &&& initialised reg := by
  have heq := h.registers reg
  rw [hv, Option.map_some, eq_comm, Option.map_eq_some_iff] at heq
  obtain ⟨value', hv', heq⟩ := heq
  exact ⟨value', hv', heq.symm⟩

theorem setRegister (h : Agree loaded cleared initialised s s') {reg value value' mask : UInt8}
    (hreg : value &&& mask = value' &&& mask) :
    Agree loaded cleared (Function.update initialised reg mask) (s.setRegister reg value)
      (s'.setRegister reg value') := by
  refine { h with registers := fun r => ?_ }
  change (s.registers.setIfInBounds reg.toNat value)[r.toNat]?.map _ =
    (s'.registers.setIfInBounds reg.toNat value')[r.toNat]?.map _
  rw [Vector.getElem?_setIfInBounds, Vector.getElem?_setIfInBounds]
  by_cases heq : r = reg
  · subst heq
    rw [Function.update_self, if_pos rfl, if_pos rfl]
    split_ifs
    · exact congrArg some hreg
    · rfl
  · have hne : reg.toNat ≠ r.toNat := fun ht => heq (UInt8.toNat_inj.mp ht).symm
    rw [Function.update_of_ne heq, if_neg hne, if_neg hne]
    exact h.registers r

theorem shiftIn (h : Agree loaded cleared initialised s s') {dir : ShiftDir} {pin reg : UInt8}
    {input : VmInput} {t : VmState} (ht : Not232.shiftIn dir pin reg input s = some t) :
    ∃ t', Not232.shiftIn dir pin reg input s' = some t' ∧
      Agree loaded cleared
        (Function.update initialised reg (shiftBits dir (initialised reg) 1)) t t' := by
  simp only [Not232.shiftIn, Option.bind_eq_bind, Option.bind_eq_some_iff] at ht
  obtain ⟨value, hv, ht⟩ := ht
  obtain ⟨value', hv', heq⟩ := h.register hv
  cases ht
  refine ⟨_, by simp only [Not232.shiftIn, hv']; rfl, ?_⟩
  have hshift := shiftBits_congr dir (if readPin input pin then 1 else 0) heq
  cases dir with
  | left => exact (h.setRegister hshift).advance
  | right => exact (h.setRegister hshift).advance

theorem shiftOut (h : Agree loaded cleared initialised s s') {dir : ShiftDir} {pin reg : UInt8}
    {t : VmState} (hi : initialised reg &&& outBit dir = outBit dir)
    (ht : Not232.shiftOut dir pin reg s = some t) :
    ∃ t', Not232.shiftOut dir pin reg s' = some t' ∧
      Agree loaded cleared
        (Function.update initialised reg (shiftBits dir (initialised reg) 1)) t t' := by
  simp only [Not232.shiftOut, Option.bind_eq_bind, Option.bind_eq_some_iff] at ht
  obtain ⟨value, hv, ht⟩ := ht
  obtain ⟨value', hv', heq⟩ := h.register hv
  cases ht
  refine ⟨_, by simp only [Not232.shiftOut, hv']; rfl, ?_⟩
  have hout := and_outBit_congr dir heq hi
  have hshift := shiftBits_congr dir 0 heq
  cases dir with
  | left =>
    simp only [shiftBits, outBit, UInt8.or_zero] at hshift hout ⊢
    rw [hout]
    exact ((h.setRegister hshift).writeA _ _).advance
  | right =>
    simp only [shiftBits, outBit, UInt8.zero_shiftLeft, UInt8.or_zero] at hshift hout ⊢
    rw [hout]
    exact ((h.setRegister hshift).writeA _ _).advance

theorem writeBank (h : Agree loaded cleared initialised s s') {bank : Bank} {reg : UInt8}
    {t : VmState} (hi : initialised reg = 0xFF) (ht : Not232.writeBank bank reg s = some t) :
    ∃ t', Not232.writeBank bank reg s' = some t' ∧ Agree loaded cleared initialised t t' := by
  simp only [Not232.writeBank, Option.bind_eq_bind, Option.bind_eq_some_iff] at ht
  obtain ⟨value, hv, ht⟩ := ht
  obtain ⟨value', hv', heq⟩ := h.register hv
  have hones : ∀ b : UInt8, b &&& 0xFF = b := fun b => UInt8.and_neg_one
  rw [hi, hones, hones] at heq
  subst heq
  cases ht
  refine ⟨_, by simp only [Not232.writeBank, hv']; rfl, ?_⟩
  rw [h.gpio]
  exact (h.writeA _ _).advance

theorem readBank (h : Agree loaded cleared initialised s s') {bank : Bank} {reg : UInt8}
    {input : VmInput} {t : VmState} (ht : Not232.readBank bank reg input s = some t) :
    ∃ t', Not232.readBank bank reg input s' = some t' ∧
      Agree loaded cleared (Function.update initialised reg 0xFF) t t' := by
  simp only [Not232.readBank, Option.bind_eq_bind, Option.bind_eq_some_iff] at ht
  obtain ⟨value, hv, ht⟩ := ht
  obtain ⟨value', hv', -⟩ := h.register hv
  cases ht
  exact ⟨_, by simp only [Not232.readBank, hv']; rfl, (h.setRegister rfl).advance⟩

theorem assign (h : Agree loaded cleared initialised s s') {destination source : UInt8}
    {t : VmState} (ht : Not232.assign destination source s = some t) :
    ∃ t', Not232.assign destination source s' = some t' ∧
      Agree loaded cleared (Function.update initialised destination (initialised source)) t t' := by
  simp only [Not232.assign, Option.bind_eq_bind, Option.bind_eq_some_iff] at ht
  obtain ⟨value, hv, old, hold, ht⟩ := ht
  obtain ⟨value', hv', heq⟩ := h.register hv
  obtain ⟨old', hold', -⟩ := h.register hold
  cases ht
  exact ⟨_, by simp only [Not232.assign, hv', hold']; rfl, (h.setRegister heq).advance⟩

theorem call (h : Agree loaded cleared initialised s s') {target : UInt16} {t : VmState}
    (ht : Not232.call target s = some t) :
    ∃ t', Not232.call target s' = some t' ∧ Agree loaded cleared initialised t t' := by
  simp only [Not232.call, Option.bind_eq_bind, Option.bind_eq_some_iff] at ht
  obtain ⟨old, hold, ht⟩ := ht
  obtain ⟨hlt, -⟩ := Vector.getElem?_eq_some_iff.mp hold
  obtain ⟨old', hold'⟩ : ∃ old', s'.stack[s'.sp.toNat]? = some old' :=
    ⟨_, Vector.getElem?_eq_getElem (h.sp ▸ hlt)⟩
  have hnext := toNat_sp_add_one hlt
  cases ht
  refine ⟨_, by simp only [Not232.call, hold']; rfl, ?_⟩
  refine { h with sp := congrArg (· + 1) h.sp, pc := rfl, stack := fun i hi => ?_ }
  rw [hnext] at hi
  rw [Vector.getElem?_setIfInBounds, Vector.getElem?_setIfInBounds, ← h.sp, ← h.pc]
  by_cases heq : s.sp.toNat = i
  · rw [if_pos heq, if_pos heq]
  · rw [if_neg heq, if_neg heq]
    exact h.stack i (by omega)

theorem ret (h : Agree loaded cleared initialised s s') {t : VmState}
    (ht : Not232.ret s = some t) :
    ∃ t', Not232.ret s' = some t' ∧ Agree loaded cleared initialised t t' := by
  simp only [Not232.ret, Option.bind_eq_bind, Option.bind_eq_some_iff] at ht
  obtain ⟨link, hlink, ht⟩ := ht
  obtain ⟨hlt, -⟩ := Vector.getElem?_eq_some_iff.mp hlink
  have hprev : (s.sp - 1).toNat < s.sp.toNat := by
    rw [UInt32.toNat_sub] at hlt ⊢
    simp only [stackSize, UInt32.reduceToNat] at hlt ⊢
    have hsp := s.sp.toNat_lt
    omega
  have hlink' : s'.stack[(s'.sp - 1).toNat]? = some link := by
    rw [← h.sp, ← h.stack _ hprev, hlink]
  cases ht
  refine ⟨_, by simp only [Not232.ret, hlink']; rfl, ?_⟩
  exact { h with
    sp := congrArg (· - 1) h.sp, pc := rfl, stack := fun i hi => h.stack i (hi.trans hprev) }

theorem push (h : Agree loaded cleared initialised s s') {dir : PileDir} {pin : UInt8}
    {input : VmInput} {t : VmState} (ht : Not232.push dir pin input s = some t) :
    ∃ t', Not232.push dir pin input s' = some t' ∧
      Agree loaded cleared initialised t t' := by
  simp only [Not232.push, Option.bind_eq_bind, Option.bind_eq_some_iff] at ht
  obtain ⟨lipo, hlipo, ht⟩ := ht
  obtain ⟨hlt, -⟩ := Vector.getElem?_eq_some_iff.mp hlipo
  obtain ⟨lipo', hlipo'⟩ : ∃ lipo', s'.pileR[(pileIndex dir s'.rp / 8).toNat]? = some lipo' :=
    ⟨_, Vector.getElem?_eq_getElem (h.rp ▸ hlt)⟩
  cases ht
  refine ⟨_, by simp only [Not232.push, hlipo']; rfl, ?_⟩
  rw [← h.rp] at hlipo' ⊢
  refine (h.setPileR (s.rp + 1) fun hc => ?_).advance
  rw [h.pileR hc] at hlipo ⊢
  rw [Option.some.inj (hlipo.symm.trans hlipo')]

/-- Nothing can be popped when no bits are left. -/
theorem pop_of_tp_zero {dir : PileDir} {pin : UInt8} (htp : s.tp = 0) :
    Not232.pop dir pin s = none := by
  have hnone : s.pileT[(pileIndex dir (s.tp - 1) / 8).toNat]? = none := by
    rw [Vector.getElem?_eq_none_iff, htp]
    cases dir <;> decide
  simp only [Not232.pop, hnone]
  rfl

theorem pop (h : Agree loaded cleared initialised s s') {dir : PileDir} {pin : UInt8}
    {t : VmState} (ht : Not232.pop dir pin s = some t) :
    ∃ t', Not232.pop dir pin s' = some t' ∧ Agree loaded cleared initialised t t' := by
  cases loaded with
  | false =>
    have htp : s.tp = 0 := h.pileT
    rw [pop_of_tp_zero htp] at ht
    cases ht
  | true =>
    have hpile : s.pileT = s'.pileT := h.pileT
    simp only [Not232.pop, Option.bind_eq_bind, Option.bind_eq_some_iff] at ht
    obtain ⟨lipo, hlipo, ht⟩ := ht
    have hlipo' : s'.pileT[(pileIndex dir (s'.tp - 1) / 8).toNat]? = some lipo := by
      rw [← hpile, ← h.tp, hlipo]
    cases ht
    refine ⟨_, by simp only [Not232.pop, hlipo']; rfl, ?_⟩
    rw [h.tp]
    exact ((h.setTp (s'.tp - 1)).writeA _ _).advance

end Agree

open Agree

variable {loaded cleared : Bool} {initialised : UInt8 → UInt8} {s s' : VmState}

theorem OutcomeAgree.ofOption {o o' : Option VmState}
    (h : ∀ t, o = some t → ∃ t', o' = some t' ∧ Agree loaded cleared initialised t t')
    (hfault : Outcome.ofOption o ≠ .fault) :
    OutcomeAgree loaded cleared initialised (.ofOption o) (.ofOption o') := by
  cases o with
  | none => exact absurd rfl hfault
  | some t =>
    obtain ⟨t', rfl, ht⟩ := h t rfl
    exact .running ht

/-- An instruction that reads only initialised registers keeps two machines in agreement. -/
theorem execute_agree (h : Agree loaded cleared initialised s s') (i : Instr) (input : VmInput)
    (hreads : i.Reads initialised) (hfault : execute i input s ≠ .fault) :
    OutcomeAgree loaded cleared (i.initialise initialised) (execute i input s)
      (execute i input s') := by
  cases i with
  | nop => exact .running h.advance
  | initPin mode pin =>
    refine .ofOption (fun t ht => ?_) hfault
    obtain ⟨gpio, hg, rfl⟩ := Option.map_eq_some_iff.mp ht
    rw [h.gpio] at hg
    exact ⟨_, by rw [hg]; rfl, (h.setGpio gpio).advance⟩
  | setPins mask => exact .running (h.writeA _ _).advance
  | clearPins mask => exact .running (h.writeA _ _).advance
  | wait levels pin timeout => exact .running (h.setPhase _ _)
  | shiftIn dir pin reg => exact .ofOption (fun t => h.shiftIn) hfault
  | shiftOut dir pin reg => exact .ofOption (fun t => h.shiftOut hreads) hfault
  | writeBank bank reg => exact .ofOption (fun t => h.writeBank hreads) hfault
  | readBank bank reg => exact .ofOption (fun t => h.readBank) hfault
  | delay unit count => exact .running h.advance
  | call target => exact .ofOption (fun t => h.call) hfault
  | ret => exact .ofOption (fun t => h.ret) hfault
  | assign destination source => exact .ofOption (fun t => h.assign) hfault
  | push dir pin => exact .ofOption (fun t => h.push) hfault
  | pop dir pin => exact .ofOption (fun t => h.pop) hfault
  | exit => exact .exited h
  | unknown => exact .running h

theorem poll_agree (h : Agree loaded cleared initialised s s') (pin : UInt8) (levels : List Bool)
    (input : VmInput) :
    Agree loaded cleared initialised (poll pin levels input s) (poll pin levels input s') := by
  have hend : Agree loaded cleared initialised (endWait s) (endWait s') :=
    (h.setPhase none .fetch).advance
  cases levels with
  | nil => exact hend
  | cons level later =>
    simp only [poll]
    split_ifs
    · exact h
    · exact hend
    · exact { h with phase := rfl }

/-! ### What of a record an instruction depends on -/

theorem Instr.bytesUsed_skeleton (i : Instr) : i.skeleton.bytesUsed = i.bytesUsed := by
  cases i <;> rfl

theorem Instr.bytesUsed_pos (i : Instr) : 0 < i.bytesUsed := by
  cases i <;> simp [bytesUsed]

theorem Instr.skeleton_eq_self {i : Instr} (h : i.bytesUsed < 3) : i.skeleton = i := by
  cases i <;> first | rfl | exact absurd h (by simp [bytesUsed])

/-- The instruction without the operand in its last byte. -/
def Instr.dropLast (i : Instr) : Instr := if i.bytesUsed = 4 then i.skeleton else i

theorem bytesUsed_decode (op x y : UInt8) :
    (decode op x y).bytesUsed = (decode op 0 0).bytesUsed := by
  rw [← Instr.bytesUsed_skeleton, skeleton_decode]

theorem dropLast_decode (op x y : UInt8) :
    (decode op x y).dropLast = (decode op x 0).dropLast := by
  unfold decode
  simp only [apply_ite Instr.dropLast]
  rfl

theorem decode_congr {op x y x' y' : UInt8} (hx : 3 ≤ (decode op x y).bytesUsed → x = x')
    (hy : 4 ≤ (decode op x y).bytesUsed → y = y') : decode op x y = decode op x' y' := by
  have hsame : (decode op x' y').bytesUsed = (decode op x y).bytesUsed := by
    rw [bytesUsed_decode, ← bytesUsed_decode op x y]
  by_cases h3 : 3 ≤ (decode op x y).bytesUsed
  · obtain rfl := hx h3
    by_cases h4 : 4 ≤ (decode op x y).bytesUsed
    · rw [hy h4]
    · have hdrop := (dropLast_decode op x y).trans (dropLast_decode op x y').symm
      rwa [Instr.dropLast, Instr.dropLast, if_neg (by omega), if_neg (by omega)] at hdrop
  · rw [← Instr.skeleton_eq_self (i := decode op x y) (by omega),
      ← Instr.skeleton_eq_self (i := decode op x' y') (by omega), skeleton_decode, skeleton_decode]

/-- An instruction within the part of two programs that is the same is the same in both. -/
theorem fetch_congr {opcodes opcodes' : ℕ → UInt8} {pc : UInt32} {len : ℕ}
    (hsame : ∀ i < len, opcodes i = opcodes' i) (hlen : len < 2 ^ 32)
    (hpc : pc.toNat + (fetch opcodes pc).bytesUsed ≤ len) :
    fetch opcodes pc = fetch opcodes' pc := by
  have hone := (fetch opcodes pc).bytesUsed_pos
  unfold fetch at hpc hone ⊢
  rw [← hsame pc.toNat (by omega)]
  apply decode_congr
  · intro h3
    have hroom : pc.toNat + 2 < 2 ^ 32 := by omega
    have hadd : (pc + 2).toNat = pc.toNat + 2 := toNat_add_ofNat hroom
    exact hsame _ (by omega)
  · intro h4
    have hroom : pc.toNat + 3 < 2 ^ 32 := by omega
    have hadd : (pc + 3).toNat = pc.toNat + 3 := toNat_add_ofNat hroom
    exact hsame _ (by omega)

/-- The initialised bits after a step. -/
def initialiseStep (opcodes : ℕ → UInt8) (s : VmState) (initialised : UInt8 → UInt8) :
    UInt8 → UInt8 :=
  match s.phase with
  | .fetch => (fetch opcodes s.pc).initialise initialised
  | .poll _ _ => initialised

/-- An instruction about to be executed lies within the first `len` bytes of the program and drives
only initialised bits. -/
def StepContained (opcodes : ℕ → UInt8) (len : ℕ) (initialised : UInt8 → UInt8) (s : VmState) :
    Prop :=
  s.phase = .fetch → s.pc.toNat + (fetch opcodes s.pc).bytesUsed ≤ len ∧
    (fetch opcodes s.pc).Reads initialised

theorem step_agree (h : Agree loaded cleared initialised s s') {opcodes opcodes' : ℕ → UInt8}
    {len : ℕ} (hsame : ∀ i < len, opcodes i = opcodes' i) (hlen : len < 2 ^ 32) (input : VmInput)
    (hstep : StepContained opcodes len initialised s) (hfault : step opcodes input s ≠ .fault) :
    OutcomeAgree loaded cleared (initialiseStep opcodes s initialised) (step opcodes input s)
      (step opcodes' input s') := by
  unfold step initialiseStep at *
  rw [← h.phase]
  cases hphase : s.phase with
  | fetch =>
    obtain ⟨hpc, hreads⟩ := hstep hphase
    simp only [hphase] at hfault ⊢
    rw [← h.pc, ← fetch_congr hsame hlen hpc]
    exact execute_agree h _ input hreads hfault
  | poll pin levels => exact .running (poll_agree h pin levels input)

end Not232
