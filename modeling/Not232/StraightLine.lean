import Not232.CallReturn

/-!
# Straight-line programs

A program without calls and returns goes on from record to record: every instruction either falls
through at once or is a wait that its timer ends. The exceptions are opcodes without a case, on
which the machine never moves again, and the setup of a pin that does not exist.
-/

namespace Not232

/-- The timer of every wait runs out in the end. -/
def TimersExpire (opcodes : ℕ → UInt8) (inputs : ℕ → VmInput) (start : VmState) : Prop :=
  ∀ m s pin levels, run opcodes inputs start m = .running s → s.phase = .poll pin levels →
    ∃ d, (inputs (m + d)).timeout = true

/-- Every instruction that the run executes stays inside the arrays of the machine. -/
def AccessesInBounds (opcodes : ℕ → UInt8) (inputs : ℕ → VmInput) (start : VmState) : Prop :=
  ∀ m s i, Executes opcodes inputs start m s i → ∀ a ∈ i.accesses s, a.InBounds

/-- The instruction has a case in the dispatch, and the pin that it sets up exists. -/
def Instr.Proceeds : Instr → Prop
  | .unknown => False
  | .initPin _ pin => pin.toNat < pinPortMapping.length
  | _ => True

theorem gpioInitPin_eq_none_iff {pin : UInt8} {mode : GpioMode} {g : Gpio} :
    gpioInitPin pin mode g = none ↔ ¬ pin.toNat < pinPortMapping.length := by
  rw [gpioInitPin]
  by_cases hpin : pin.toNat < pinPortMapping.length
  · have hnumber : pin.toNat < pinNumberMapping.length := hpin
    rw [List.getElem?_eq_getElem hpin, List.getElem?_eq_getElem hnumber]
    simp [hpin]
  · rw [List.getElem?_eq_none (Nat.le_of_not_lt hpin)]
    simp [hpin]

theorem execute_eq_exited {i : Instr} {input : VmInput} {s t : VmState}
    (h : execute i input s = .exited t) : i = .exit := by
  have hof : ∀ o : Option VmState, Outcome.ofOption o ≠ .exited t := by
    intro o
    cases o <;> exact Outcome.noConfusion
  cases i with
  | exit => rfl
  | nop => cases h
  | setPins mask => cases h
  | clearPins mask => cases h
  | wait levels pin timeout => cases h
  | delay unit count => cases h
  | unknown => cases h
  | _ => exact absurd h (hof _)

/-- An instruction that falls through is faultless if it proceeds with its accesses in bounds. -/
theorem execute_ne_fault {i : Instr} {input : VmInput} {s : VmState} (hi : i.Proceeds)
    (hbounds : ∀ a ∈ i.accesses s, a.InBounds) : execute i input s ≠ .fault := by
  intro hfault
  cases i with
  | initPin mode pin =>
    have hnone := Option.map_eq_none_iff.mp (ofOption_eq_fault.mp hfault)
    exact gpioInitPin_eq_none_iff.mp hnone hi
  | _ => exact (execute_eq_fault_iff (by nofun)).mp hfault hbounds

section Run

variable {opcodes : ℕ → UInt8} {inputs : ℕ → VmInput} {start s : VmState} {m n j k e : ℕ}

theorem exited_of_le (h : run opcodes inputs start m = .exited s) (hmn : m ≤ n) :
    run opcodes inputs start n = .exited s := by
  induction hmn with
  | refl => exact h
  | step _ ih => exact run_succ_of_exited ih

theorem fault_of_le (h : run opcodes inputs start m = .fault) (hmn : m ≤ n) :
    run opcodes inputs start n = .fault := by
  induction hmn with
  | refl => exact h
  | step _ ih => exact run_succ_of_fault ih

/-- The machine stands before record `j`, with the records below `j` executed. -/
structure AtRecord (opcodes : ℕ → UInt8) (inputs : ℕ → VmInput) (start : VmState) (j m : ℕ)
    (s : VmState) : Prop where
  reached : run opcodes inputs start m = .running s
  phase : s.phase = .fetch
  pc : s.pc = .ofNat (bytesPerInstruction * j)
  before : executed opcodes inputs start m = (List.range j).map (record opcodes)

theorem fetch_record (hj : bytesPerInstruction * (j + 1) < 2 ^ 32) :
    fetch opcodes (.ofNat (bytesPerInstruction * j)) = record opcodes j := by
  have hsize : UInt32.size = 2 ^ 32 := rfl
  rw [bytesPerInstruction] at hj
  have hpc : (UInt32.ofNat (4 * j)).toNat = 4 * j := UInt32.toNat_ofNat_of_lt (by omega)
  have hadd : ∀ d : UInt32, d.toNat < 4 →
      (UInt32.ofNat (4 * j) + d).toNat = 4 * j + d.toNat := by
    intro d hd
    rw [toNat_add_of_lt (by omega), hpc]
  rw [fetch, record, bytesPerInstruction, hpc, hadd 2 (by decide), hadd 3 (by decide)]
  rfl

theorem AtRecord.run_succ (h : AtRecord opcodes inputs start j m s)
    (hj : bytesPerInstruction * (j + 1) < 2 ^ 32) :
    run opcodes inputs start (m + 1) = execute (record opcodes j) (inputs m) s := by
  rw [run_succ_of_running h.reached]
  simp only [step, h.phase]
  rw [h.pc, fetch_record hj]

theorem AtRecord.executes (h : AtRecord opcodes inputs start j m s)
    (hj : bytesPerInstruction * (j + 1) < 2 ^ 32) :
    Executes opcodes inputs start m s (record opcodes j) :=
  ⟨h.reached, h.phase, by rw [h.pc, fetch_record hj]⟩

theorem AtRecord.executed_succ (h : AtRecord opcodes inputs start j m s)
    (hj : bytesPerInstruction * (j + 1) < 2 ^ 32) :
    executed opcodes inputs start (m + 1) = (List.range (j + 1)).map (record opcodes) := by
  rw [(h.executes hj).executed_succ, h.before, List.range_succ, List.map_append, List.map_singleton]

theorem run_succ_of_poll {pin : UInt8} {levels : List Bool}
    (h : run opcodes inputs start m = .running s) (hphase : s.phase = .poll pin levels) :
    run opcodes inputs start (m + 1) = .running (poll pin levels (inputs m) s) := by
  rw [run_succ_of_running h]
  simp only [step, hphase]

/-- A waiting loop ends at the latest when the timer runs out, in `d` more turns. -/
theorem wait_level {pin : UInt8} {level : Bool} {later : List Bool}
    (h : run opcodes inputs start m = .running s) (hphase : s.phase = .poll pin (level :: later))
    {d : ℕ} (hd : (inputs (m + d)).timeout = true) :
    ∃ n, executed opcodes inputs start n = executed opcodes inputs start m ∧
      run opcodes inputs start n =
        .running (if later = [] then endWait s else { s with phase := .poll pin later }) := by
  induction d generalizing m with
  | zero =>
    have hnext := run_succ_of_poll h hphase
    rw [poll, if_neg fun hstay => hstay.2 hd] at hnext
    exact ⟨m + 1, executed_succ_of_poll h hphase, hnext⟩
  | succ d ih =>
    have hnext := run_succ_of_poll h hphase
    have hexecuted := executed_succ_of_poll h hphase
    by_cases hstay : readPin (inputs m) pin = level ∧ ¬ (inputs m).timeout
    · rw [poll, if_pos hstay] at hnext
      obtain ⟨n, hn, hleft⟩ := ih hnext (by rwa [Nat.add_right_comm])
      exact ⟨n, hn.trans hexecuted, hleft⟩
    · rw [poll, if_neg hstay] at hnext
      exact ⟨m + 1, hexecuted, hnext⟩

/-- Behind a wait the machine goes on to the next record. -/
theorem wait_ends (htimers : TimersExpire opcodes inputs start) {pin : UInt8} (levels : List Bool)
    (h : run opcodes inputs start m = .running s) (hphase : s.phase = .poll pin levels) :
    ∃ n t, run opcodes inputs start n = .running t ∧ t.phase = .fetch ∧
      t.pc = s.pc + .ofNat bytesPerInstruction ∧
      executed opcodes inputs start n = executed opcodes inputs start m := by
  induction levels generalizing m s with
  | nil =>
    exact ⟨m + 1, _, run_succ_of_poll h hphase, rfl, rfl, executed_succ_of_poll h hphase⟩
  | cons level later ih =>
    obtain ⟨d, hd⟩ := htimers m s pin _ h hphase
    obtain ⟨n, hn, hleft⟩ := wait_level h hphase hd
    by_cases hlater : later = []
    · rw [if_pos hlater] at hleft
      exact ⟨n, _, hleft, rfl, rfl, hn⟩
    · rw [if_neg hlater] at hleft
      obtain ⟨k, t, hk, htphase, htpc, htexecuted⟩ := ih hleft rfl
      exact ⟨k, t, hk, htphase, htpc, htexecuted.trans hn⟩

/-- From a record that proceeds the machine comes to the next one. -/
theorem AtRecord.next (h : AtRecord opcodes inputs start j m s)
    (hj : bytesPerInstruction * (j + 1) < 2 ^ 32) (htimers : TimersExpire opcodes inputs start)
    (hbounds : AccessesInBounds opcodes inputs start) (hcall : (record opcodes j).isCall = false)
    (hret : (record opcodes j).isRet = false) (hexit : record opcodes j ≠ .exit)
    (hproceeds : (record opcodes j).Proceeds) :
    ∃ n t, AtRecord opcodes inputs start (j + 1) n t := by
  have hexec := h.executes hj
  have hrun := h.run_succ hj
  have hexecuted := h.executed_succ hj
  have hpc : s.pc + .ofNat bytesPerInstruction = .ofNat (bytesPerInstruction * (j + 1)) := by
    rw [h.pc, ← UInt32.ofNat_add, Nat.mul_succ]
  by_cases hfalls : (record opcodes j).fallsThrough = true
  · cases hnext : execute (record opcodes j) (inputs m) s with
    | running t =>
      obtain ⟨registers, pileR, rp, tp, gpio, rfl⟩ := execute_fallsThrough hfalls hnext
      exact ⟨m + 1, _, hrun.trans hnext, h.phase, hpc, hexecuted⟩
    | exited t => exact absurd (execute_eq_exited hnext) hexit
    | fault => exact absurd hnext (execute_ne_fault hproceeds (hbounds m s _ hexec))
  · cases hrecord : record opcodes j with
    | wait levels pin timeout =>
      rw [hrecord] at hrun
      obtain ⟨n, t, hn, hphase, htpc, hnexecuted⟩ := wait_ends htimers levels hrun rfl
      exact ⟨n, t, hn, hphase, htpc.trans hpc, hnexecuted.trans hexecuted⟩
    | call target =>
      rw [hrecord] at hcall
      cases hcall
    | ret =>
      rw [hrecord] at hret
      cases hret
    | exit => exact absurd hrecord hexit
    | unknown =>
      rw [hrecord] at hproceeds
      exact hproceeds.elim
    | _ =>
      rw [hrecord] at hfalls
      exact absurd rfl hfalls

end Run

/-- Wait for a low pin, shift a bit into register 3, exit. -/
def waitShiftExit : RunRequest :=
  ⟨12, #v[0x05, 0, 0, 1, 0x03, 0, 0, 3, 0xFF, 0, 0, 0], ⟨.replicate _ 0, 0, .replicate _ 0⟩⟩

end Not232
