import Not232.StraightLine

/-!
# Why a wait returns

A turn of a waiting loop samples the pin and, if that does not end the loop, the timer. An edge wait
is two loops under one timer, so a timer that runs out in the first one ends both.
-/

namespace Not232

open Opcode in
/-- The waiting opcodes, with the levels that they wait for. -/
def waitOpcodes : List (UInt8 × List Bool) :=
  [(waitForRisingEdgeXTimeoutY, [false, true]), (waitForFallingEdgeXTimeoutY, [true, false]),
    (waitForLowPinXTimeoutY, [false]), (waitForHighPinXTimeoutY, [true])]

/-- Between two steps the pin was sampled at the levels, one after the other. -/
def SampledInOrder (inputs : ℕ → VmInput) (pin : UInt8) (last : ℕ) : (first : ℕ) → List Bool → Prop
  | _, [] => True
  | first, level :: later => ∃ i, first ≤ i ∧ i < last ∧ readPin (inputs i) pin = level ∧
      SampledInOrder inputs pin last (i + 1) later

/-- Seen from step `m`, the timer runs out before turn `T`. -/
def ExpiresAt (inputs : ℕ → VmInput) (m T : ℕ) : Prop :=
  ∀ k, (inputs (m + k)).timeout = decide (T ≤ k)

section Wait

variable {opcodes : ℕ → UInt8} {inputs : ℕ → VmInput} {start s : VmState} {m T : ℕ} {pin : UInt8}

theorem ExpiresAt.later (h : ExpiresAt inputs m T) (d : ℕ) : ExpiresAt inputs (m + d) (T - d) := by
  intro k
  rw [Nat.add_assoc, h (d + k), decide_eq_decide]
  omega

theorem SampledInOrder.weaken {last first : ℕ} {levels : List Bool} (n : ℕ)
    (h : SampledInOrder inputs pin last (first + n) levels) :
    SampledInOrder inputs pin last first levels := by
  cases levels with
  | nil => trivial
  | cons level later =>
    obtain ⟨i, hfirst, hrest⟩ := h
    exact ⟨i, (Nat.le_add_right first n).trans hfirst, hrest⟩

/-- A loop ends with the turn that samples the other level or finds the timer run out. -/
theorem loop_ends {level : Bool} {later : List Bool}
    (h : run opcodes inputs start m = .running s) (hphase : s.phase = .poll pin (level :: later))
    (hexpires : ExpiresAt inputs m T) :
    ∃ d ≤ T, (∀ k ≤ d, run opcodes inputs start (m + k) = .running s) ∧
      run opcodes inputs start (m + d + 1) =
        .running (if later = [] then endWait s else { s with phase := .poll pin later }) ∧
      (d < T → readPin (inputs (m + d)) pin = !level) := by
  induction T generalizing m with
  | zero =>
    have hexpired : (inputs m).timeout = true := hexpires 0
    have hnext := run_succ_of_poll h hphase
    rw [poll, if_neg fun hstay => hstay.2 hexpired] at hnext
    refine ⟨0, le_refl 0, fun k hk => ?_, hnext, fun hlt => absurd hlt (lt_irrefl 0)⟩
    rwa [Nat.le_zero.mp hk]
  | succ T ih =>
    have hearly : (inputs m).timeout = false := hexpires 0
    have hnext := run_succ_of_poll h hphase
    by_cases hlevel : readPin (inputs m) pin = level
    · rw [poll, if_pos ⟨hlevel, Bool.eq_false_iff.mp hearly⟩] at hnext
      obtain ⟨d, hd, hstays, hleft, hsampled⟩ := ih hnext (hexpires.later 1)
      refine ⟨d + 1, Nat.succ_le_succ hd, fun k hk => ?_, ?_, fun hlt => ?_⟩
      · cases k with
        | zero => exact h
        | succ k =>
          rw [← Nat.add_assoc, Nat.add_right_comm]
          exact hstays k (Nat.le_of_succ_le_succ hk)
      · rwa [← Nat.add_assoc, Nat.add_right_comm m d 1]
      · rw [← Nat.add_assoc, Nat.add_right_comm]
        exact hsampled (Nat.lt_of_succ_lt_succ hlt)
    · rw [poll, if_neg fun hstay => hlevel hstay.1] at hnext
      refine ⟨0, Nat.zero_le _, fun k hk => ?_, hnext, fun _ => ?_⟩
      · rwa [Nat.le_zero.mp hk]
      · exact Bool.eq_not.mpr hlevel

/-- A wait ends, at the latest with one turn for each loop behind the end of the timer. Before that
it polls, and unless the timer ran out it has sampled the levels in order. -/
theorem poll_returns {levels : List Bool} (hlevels : levels ≠ [])
    (h : run opcodes inputs start m = .running s)
    (hphase : s.phase = .poll pin (levels.map not)) (hexpires : ExpiresAt inputs m T) :
    ∃ d t, d ≤ T + levels.length ∧ run opcodes inputs start (m + d) = .running t ∧
      t.phase = .fetch ∧ t.pc = s.pc + .ofNat bytesPerInstruction ∧ t.timer = none ∧
      (∀ k < d, ∃ u rest, run opcodes inputs start (m + k) = .running u ∧
        u.phase = .poll pin rest) ∧
      (d ≤ T → SampledInOrder inputs pin (m + d) m levels) := by
  induction levels generalizing m s T with
  | nil => exact absurd rfl hlevels
  | cons level later ih =>
    obtain ⟨d, hd, hstays, hleft, hsampled⟩ := loop_ends h hphase hexpires
    have hpolls : ∀ k ≤ d, ∃ u rest, run opcodes inputs start (m + k) = .running u ∧
        u.phase = .poll pin rest := fun k hk => ⟨s, _, hstays k hk, hphase⟩
    rw [Bool.not_not] at hsampled
    cases later with
    | nil =>
      rw [List.map_nil, if_pos rfl] at hleft
      refine ⟨d + 1, _, Nat.succ_le_succ hd, hleft, rfl, rfl, rfl,
        fun k hk => hpolls k (Nat.le_of_lt_succ hk), fun hlt => ?_⟩
      exact ⟨m + d, Nat.le_add_right m d, Nat.lt_succ_self _, hsampled hlt, trivial⟩
    | cons next rest =>
      rw [if_neg (by simp)] at hleft
      obtain ⟨k, t, hk, hrun, htphase, htpc, httimer, hwaits, horder⟩ :=
        ih (by simp) hleft rfl (hexpires.later (d + 1))
      have hsum : m + d + 1 + k = m + (d + 1 + k) := by omega
      refine ⟨d + 1 + k, t, ?_, ?_, htphase, htpc, httimer, fun j hj => ?_, fun hle => ?_⟩
      · simp only [List.length_cons] at hk ⊢
        omega
      · rwa [← hsum]
      · by_cases hjd : j ≤ d
        · exact hpolls j hjd
        · obtain ⟨u, left, hu, huphase⟩ := hwaits (j - (d + 1)) (by omega)
          have hindex : m + d + 1 + (j - (d + 1)) = m + j := by omega
          rw [hindex] at hu
          exact ⟨u, left, hu, huphase⟩
      · have hrest := horder (by omega)
        rw [hsum] at hrest
        exact ⟨m + d, Nat.le_add_right m d, by omega, hsampled (by omega), hrest⟩

theorem decode_waitOpcode {op x y : UInt8} {levels : List Bool} (h : (op, levels) ∈ waitOpcodes) :
    levels ≠ [] ∧ decode op x y = .wait (levels.map not) x y := by
  simp only [waitOpcodes, List.mem_cons, Prod.mk.injEq, List.not_mem_nil, or_false] at h
  rcases h with ⟨rfl, rfl⟩ | ⟨rfl, rfl⟩ | ⟨rfl, rfl⟩ | ⟨rfl, rfl⟩
  · exact ⟨by simp, rfl⟩
  · exact ⟨by simp, rfl⟩
  · exact ⟨by simp, rfl⟩
  · exact ⟨by simp, rfl⟩

/-- A waiting instruction at step `m` starts the timer, polls and returns to the next record: with
its levels sampled in order since the start, or with the timer run out. -/
theorem wait_returns {op : UInt8} {levels : List Bool} (hop : (op, levels) ∈ waitOpcodes)
    (h : run opcodes inputs start m = .running s) (hphase : s.phase = .fetch)
    (hcode : opcodes s.pc.toNat = op) (hexpires : ExpiresAt inputs (m + 1) T) :
    let pin := opcodes (s.pc + 2).toNat
    ∃ d t, d ≤ T + levels.length ∧ run opcodes inputs start (m + 1 + d) = .running t ∧
      t.phase = .fetch ∧ t.pc = s.pc + .ofNat bytesPerInstruction ∧ t.timer = none ∧
      (∀ k < d, ∃ u rest, run opcodes inputs start (m + 1 + k) = .running u ∧
        u.phase = .poll pin rest) ∧
      (d ≤ T → SampledInOrder inputs pin (m + 1 + d) (m + 1) levels) := by
  intro pin
  obtain ⟨hlevels, hdecode⟩ :=
    decode_waitOpcode (x := pin) (y := opcodes (s.pc + 3).toNat) hop
  have hnext : run opcodes inputs start (m + 1) =
      .running (wait (levels.map not) pin (opcodes (s.pc + 3).toNat) s) := by
    rw [run_succ_of_running h]
    simp only [step, hphase, fetch, hcode]
    rw [hdecode, execute]
  have hreturns := poll_returns hlevels hnext rfl hexpires
  exact hreturns

end Wait

open Opcode in
/-- A wait for a low pin that is low, with the timer running for three more turns. -/
theorem wait_returns_low :
    ∃ d t, d ≤ 4 ∧ run (waitShiftExit.opcodes blankLeftovers) (fun m => ⟨0, decide (4 ≤ m)⟩)
        (waitShiftExit.start blankLeftovers blankGpio).state (1 + d) = .running t ∧
      t.phase = .fetch ∧ t.timer = none := by
  have hop : (waitForLowPinXTimeoutY, [false]) ∈ waitOpcodes := by decide
  have hexpires : ExpiresAt (fun m => ⟨0, decide (4 ≤ m)⟩) (0 + 1) 3 := by
    intro k
    rw [decide_eq_decide]
    omega
  have hstart : run (waitShiftExit.opcodes blankLeftovers) (fun m => ⟨0, decide (4 ≤ m)⟩)
      (waitShiftExit.start blankLeftovers blankGpio).state 0 =
        .running (waitShiftExit.start blankLeftovers blankGpio).state := rfl
  obtain ⟨d, t, hd, hrun, hphase, -, htimer, -⟩ :=
    wait_returns hop hstart rfl rfl hexpires
  exact ⟨d, t, hd, hrun, hphase, htimer⟩

end Not232
