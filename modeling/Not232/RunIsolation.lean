import Not232.RunReport
import Not232.VmAgreement

/-!
# Isolation of a RUN request

What a request does to the pins and what it answers, from two memories that differ in everything the
handler does not initialise. The handler clears or receives an array when a scan of the program says
so, and the machine does not stop at the end of the program, so only a run that stays in its program
and drives initialised bits is isolated.
-/

namespace Not232

/-- A program with the blocks that its scans ask for, zero for the others. -/
structure RunRequest where
  programSize : UInt32
  program : Vector UInt8 programSize.toNat
  blocks : RunBlocks

namespace RunRequest

def opcodes (q : RunRequest) (l : Leftovers) : ℕ → UInt8 :=
  loadProgram q.program.toList l.megaBuffer

def start (q : RunRequest) (l : Leftovers) (gpio : Gpio) : RunStart :=
  startOf l gpio (q.opcodes l) q.programSize.toNat q.blocks

end RunRequest

theorem loadProgram_congr {program : List UInt8} (megaBuffer megaBuffer' : ℕ → UInt8) {i : ℕ}
    (hi : i < program.length) :
    loadProgram program megaBuffer i = loadProgram program megaBuffer' i := by
  rw [loadProgram, loadProgram, List.getElem?_eq_getElem hi]
  rfl

/-- The scans of a program do not depend on what lies behind it. -/
theorem scan_loadProgram {stride : ℕ} (hs : 0 < stride) (codes : List UInt8) {size : ℕ}
    (program : Vector UInt8 size) (megaBuffer megaBuffer' : ℕ → UInt8) :
    scan stride codes (loadProgram program.toList megaBuffer) size =
      scan stride codes (loadProgram program.toList megaBuffer') size := by
  apply scan_congr stride hs
  intro i hi
  exact loadProgram_congr _ _ (by rwa [Vector.length_toList])

/-- What can be seen of a run: the writes to the ports, and the response once it has stopped. -/
def RunStart.observe (r : RunStart) (inputs : ℕ → VmInput) (n : ℕ) :
    Option (List GpioWrite × Option (List UInt8)) :=
  match run r.opcodes inputs r.state n with
  | .running s => some (s.gpio.writes, none)
  | .exited s => some (s.gpio.writes, some (runResponse r.opcodes r.programSize s))
  | .fault => none

/-- The bits of each register that the handler has cleared or received. -/
def RunStart.initialised (r : RunStart) : UInt8 → UInt8 := fun _ =>
  if readsRegisters r.opcodes r.programSize ∨ writesRegisters r.opcodes r.programSize then 0xFF
  else 0

/-- The bits of each register that are initialised after `n` steps. -/
def initialisedAt (opcodes : ℕ → UInt8) (inputs : ℕ → VmInput) (s : VmState)
    (initialised : UInt8 → UInt8) : ℕ → UInt8 → UInt8
  | 0 => initialised
  | n + 1 =>
    match run opcodes inputs s n with
    | .running t => initialiseStep opcodes t (initialisedAt opcodes inputs s initialised n)
    | _ => initialisedAt opcodes inputs s initialised n

variable {loaded cleared : Bool} {initialised : UInt8 → UInt8} {s s' : VmState}
  {opcodes opcodes' : ℕ → UInt8} {inputs : ℕ → VmInput} {len n : ℕ}

theorem run_succ_of_running {t : VmState} (h : run opcodes inputs s n = .running t) :
    run opcodes inputs s (n + 1) = step opcodes (inputs n) t := by
  simp only [run, h]

theorem run_succ_of_exited {t : VmState} (h : run opcodes inputs s n = .exited t) :
    run opcodes inputs s (n + 1) = .exited t := by
  simp only [run, h]

theorem run_succ_of_fault (h : run opcodes inputs s n = .fault) :
    run opcodes inputs s (n + 1) = .fault := by
  simp only [run, h]

/-- Every instruction that the first `n` steps execute is contained, and none faults. -/
structure RunContained (opcodes : ℕ → UInt8) (len : ℕ) (initialised : UInt8 → UInt8)
    (inputs : ℕ → VmInput) (s : VmState) (n : ℕ) : Prop where
  noFault : run opcodes inputs s n ≠ .fault
  contained : ∀ m < n, ∀ t, run opcodes inputs s m = .running t →
    StepContained opcodes len (initialisedAt opcodes inputs s initialised m) t

theorem RunContained.prev (h : RunContained opcodes len initialised inputs s (n + 1)) :
    RunContained opcodes len initialised inputs s n := by
  refine ⟨fun hfault => h.noFault (run_succ_of_fault hfault), fun m hm => ?_⟩
  exact h.contained m (by omega)

/-- Machines that agree on what is initialised agree after every contained run. -/
theorem run_agree (h : Agree loaded cleared initialised s s')
    (hsame : ∀ i < len, opcodes i = opcodes' i) (hlen : len < 2 ^ 32)
    (hrun : RunContained opcodes len initialised inputs s n) :
    OutcomeAgree loaded cleared (initialisedAt opcodes inputs s initialised n)
      (run opcodes inputs s n) (run opcodes' inputs s' n) := by
  induction n with
  | zero => exact .running h
  | succ n ih =>
    have hprev := ih hrun.prev
    have hfault := hrun.noFault
    have hstep := hrun.contained n (Nat.lt_succ_self n)
    rw [initialisedAt]
    generalize ht : run opcodes inputs s n = outcome at hprev hstep ⊢
    generalize ht' : run opcodes' inputs s' n = outcome' at hprev
    cases hprev with
    | running hagree =>
      rw [run_succ_of_running ht] at hfault ⊢
      rw [run_succ_of_running ht']
      exact step_agree hagree hsame hlen _ (hstep _ rfl) hfault
    | exited hagree =>
      rw [run_succ_of_exited ht, run_succ_of_exited ht']
      exact .exited hagree

/-- Registers that are initialised stay so. -/
theorem Instr.initialise_full {i : Instr} (h : ∀ reg, initialised reg = 0xFF) (reg : UInt8) :
    i.initialise initialised reg = 0xFF := by
  have hset : ∀ r mask, mask = 0xFF → Function.update initialised r mask reg = 0xFF := by
    intro r mask hmask
    rw [Function.update_apply]
    split_ifs
    · exact hmask
    · exact h reg
  have hshift : ∀ dir, shiftBits dir 0xFF 1 = 0xFF := by
    intro dir
    cases dir <;> rfl
  cases i with
  | shiftIn dir pin r => exact hset r _ (by rw [h, hshift])
  | shiftOut dir pin r => exact hset r _ (by rw [h, hshift])
  | readBank bank r => exact hset r _ rfl
  | assign destination source => exact hset destination _ (h source)
  | _ => exact h reg

theorem initialisedAt_full (h : ∀ reg, initialised reg = 0xFF) (n : ℕ) (reg : UInt8) :
    initialisedAt opcodes inputs s initialised n reg = 0xFF := by
  induction n generalizing reg with
  | zero => exact h reg
  | succ n ih =>
    rw [initialisedAt]
    cases run opcodes inputs s n with
    | running t =>
      simp only [initialiseStep]
      cases t.phase with
      | fetch => exact Instr.initialise_full ih reg
      | poll pin levels => exact ih reg
    | exited t => exact ih reg
    | fault => exact ih reg

theorem Agree.registers_eq (h : Agree loaded cleared initialised s s')
    (hfull : ∀ reg, initialised reg = 0xFF) : s.registers = s'.registers := by
  have hones : ∀ o : Option UInt8, o.map (· &&& 0xFF) = o := by
    intro o
    cases o with
    | none => rfl
    | some b => exact congrArg some UInt8.and_neg_one
  apply Vector.ext
  intro i hi
  have hbyte : (UInt8.ofNat i).toNat = i := by
    rw [UInt8.toNat_ofNat']
    simp only [registerCount] at hi
    omega
  have heq := h.registers (.ofNat i)
  rw [hfull, hones, hones, hbyte, Vector.getElem?_eq_getElem hi,
    Vector.getElem?_eq_getElem hi] at heq
  exact Option.some.inj heq

variable (q : RunRequest) (l l' : Leftovers) (gpio : Gpio)

theorem start_opcodes_congr :
    ∀ i < q.programSize.toNat, (q.start l gpio).opcodes i = (q.start l' gpio).opcodes i := by
  intro i hi
  exact loadProgram_congr _ _ (by rwa [Vector.length_toList])

theorem start_readsRegisters :
    readsRegisters (q.start l gpio).opcodes q.programSize.toNat =
      readsRegisters (q.start l' gpio).opcodes q.programSize.toNat :=
  scan_loadProgram (by decide) _ q.program _ _

theorem start_writesRegisters :
    writesRegisters (q.start l gpio).opcodes q.programSize.toNat =
      writesRegisters (q.start l' gpio).opcodes q.programSize.toNat :=
  scan_loadProgram (by decide) _ q.program _ _

theorem start_readsPile :
    readsPile (q.start l gpio).opcodes q.programSize.toNat =
      readsPile (q.start l' gpio).opcodes q.programSize.toNat :=
  scan_loadProgram (by decide) _ q.program _ _

theorem start_writesPile :
    writesPile (q.start l gpio).opcodes q.programSize.toNat =
      writesPile (q.start l' gpio).opcodes q.programSize.toNat :=
  scan_loadProgram (by decide) _ q.program _ _

theorem start_registers :
    (q.start l gpio).state.registers =
      if readsRegisters (q.start l gpio).opcodes q.programSize.toNat then q.blocks.registers
      else if writesRegisters (q.start l gpio).opcodes q.programSize.toNat then
        .replicate registerCount 0
      else l.registers := rfl

theorem start_tp :
    (q.start l gpio).state.tp =
      if readsPile (q.start l gpio).opcodes q.programSize.toNat then q.blocks.tp else 0 := rfl

theorem start_pileT :
    (q.start l gpio).state.pileT =
      if readsPile (q.start l gpio).opcodes q.programSize.toNat then q.blocks.pileT
      else l.pileT := rfl

theorem start_pileR :
    (q.start l gpio).state.pileR =
      if writesPile (q.start l gpio).opcodes q.programSize.toNat then .replicate pileSize 0
      else l.pileR := rfl

theorem and_zero_registers (v v' : Vector UInt8 registerCount) (i : ℕ) :
    v[i]?.map (· &&& 0) = v'[i]?.map (· &&& 0) := by
  by_cases hi : i < registerCount
  · rw [Vector.getElem?_eq_getElem hi, Vector.getElem?_eq_getElem hi]
    simp only [Option.map_some, UInt8.and_zero]
  · rw [Vector.getElem?_eq_none (by omega), Vector.getElem?_eq_none (by omega)]

/-- One request starts agreeing machines on any two memories. -/
theorem start_agree :
    Agree (readsPile (q.start l gpio).opcodes q.programSize.toNat)
      (writesPile (q.start l gpio).opcodes q.programSize.toNat) (q.start l gpio).initialised
      (q.start l gpio).state (q.start l' gpio).state where
  pc := rfl
  sp := rfl
  tp := by rw [start_tp, start_tp, start_readsPile q l l' gpio]
  rp := rfl
  timer := rfl
  phase := rfl
  gpio := rfl
  stack := by
    intro i hi
    exact absurd hi (Nat.not_lt_zero i)
  registers := by
    intro reg
    rw [start_registers, start_registers, ← start_readsRegisters q l l' gpio,
      ← start_writesRegisters q l l' gpio]
    by_cases hr : readsRegisters (q.start l gpio).opcodes q.programSize.toNat = true
    · rw [if_pos hr, if_pos hr]
    · rw [if_neg hr, if_neg hr]
      by_cases hw : writesRegisters (q.start l gpio).opcodes q.programSize.toNat = true
      · rw [if_pos hw, if_pos hw]
      · have hzero : (q.start l gpio).initialised reg = 0 := if_neg (not_or.mpr ⟨hr, hw⟩)
        rw [if_neg hw, if_neg hw, hzero]
        exact and_zero_registers _ _ _
  pileT := by
    rw [start_pileT, start_pileT, start_tp, ← start_readsPile q l l' gpio]
    split_ifs <;> rfl
  pileR := by
    intro hcleared
    rw [start_pileR, start_pileR, ← start_writesPile q l l' gpio, if_pos hcleared, if_pos hcleared]

theorem reportBytes_congr {registers pile : Bool} {s s' : VmState} (hrp : s.rp = s'.rp)
    (hregisters : registers = true → s.registers = s'.registers)
    (hpile : pile = true → s.pileR = s'.pileR) :
    reportBytes registers pile s = reportBytes registers pile s' := by
  unfold reportBytes
  cases registers <;> cases pile <;> simp_all

/-- Agreeing machines that have stopped answer alike. -/
theorem response_agree {n : ℕ} {inputs : ℕ → VmInput} {t t' : VmState}
    (h : Agree (readsPile (q.start l gpio).opcodes q.programSize.toNat)
      (writesPile (q.start l gpio).opcodes q.programSize.toNat)
      (initialisedAt (q.start l gpio).opcodes inputs (q.start l gpio).state
        (q.start l gpio).initialised n) t t') :
    runResponse (q.start l gpio).opcodes q.programSize.toNat t =
      runResponse (q.start l' gpio).opcodes q.programSize.toNat t' := by
  rw [runResponse_eq, runResponse_eq, ← start_writesRegisters q l l' gpio,
    ← start_writesPile q l l' gpio]
  apply reportBytes_congr h.rp _ h.pileR
  intro hw
  exact h.registers_eq (initialisedAt_full (fun _ => if_pos (.inr hw)) n)

/-- One request that is run contained shows the same on any two memories. -/
theorem observe_start {n : ℕ} {inputs : ℕ → VmInput}
    (h : RunContained (q.start l gpio).opcodes q.programSize.toNat (q.start l gpio).initialised
      inputs (q.start l gpio).state n) :
    (q.start l gpio).observe inputs n = (q.start l' gpio).observe inputs n := by
  have hagree := run_agree (start_agree q l l' gpio) (start_opcodes_congr q l l' gpio)
    q.programSize.toNat_lt h
  unfold RunStart.observe
  generalize run (q.start l gpio).opcodes inputs (q.start l gpio).state n = o at hagree ⊢
  generalize run (q.start l' gpio).opcodes inputs (q.start l' gpio).state n = o' at hagree ⊢
  cases hagree with
  | running ht => simp only [ht.gpio]
  | exited ht =>
    have hresponse := response_agree q l l' gpio ht
    simp only [ht.gpio]
    exact congrArg (fun bytes => some (_, some bytes)) hresponse

end Not232
