import Not232.VmBounds

/-!
# Calls and returns

A call saves the address behind it on the call stack. Whatever is executed behind it, as long as its
calls and returns are matched, stays above the saved address, and the return that matches the call
finds it.
-/

namespace Not232

/-- No prefix has more returns than calls, and there are as many of both. -/
structure Matched (body : List Instr) : Prop where
  prefix_le : ∀ before, before <+: body →
    before.countP Instr.isRet ≤ before.countP Instr.isCall
  eq : body.countP Instr.isRet = body.countP Instr.isCall

/-- Behind a call that was executed in state `s`, and the instructions `before` after it, the return
address of the call is in its place and the stack below it is as it was. -/
structure Framed (s : VmState) (before : List Instr) (t : VmState) : Prop where
  sp : t.sp.toNat + before.countP Instr.isRet = s.sp.toNat + 1 + before.countP Instr.isCall
  link : t.stack[s.sp.toNat]? = some (s.pc + .ofNat bytesPerInstruction)
  below : ∀ i < s.sp.toNat, t.stack[i]? = s.stack[i]?

section Step

variable {s t t' : VmState} {before : List Instr} {input : VmInput}

theorem framed_call {target : UInt16} (h : execute (.call target) input s = .running t) :
    Framed s [] t := by
  obtain ⟨link, hlink, rfl⟩ := ofOption_bind_eq_running.mp h
  obtain ⟨hlt, -⟩ := Vector.getElem?_eq_some_iff.mp hlink
  refine ⟨?_, ?_, fun i hi => ?_⟩
  · exact toNat_sp_add_one hlt
  · rw [Vector.getElem?_setIfInBounds, if_pos rfl, if_pos hlt]
  · rw [Vector.getElem?_setIfInBounds, if_neg (by omega)]

/-- The pieces of a frame that do not depend on the instruction. -/
theorem Framed.same (h : Framed s before t) {i : Instr} (hcall : i.isCall = false)
    (hret : i.isRet = false) (hsp : t'.sp = t.sp) (hstack : t'.stack = t.stack) :
    Framed s (before ++ [i]) t' := by
  refine ⟨?_, hstack ▸ h.link, hstack ▸ h.below⟩
  rw [List.countP_append, List.countP_append, List.countP_singleton, List.countP_singleton, hcall,
    hret, hsp]
  exact h.sp

theorem Framed.call (h : Framed s before t) {target : UInt16}
    (hle : before.countP Instr.isRet ≤ before.countP Instr.isCall)
    (hstep : execute (.call target) input t = .running t') :
    Framed s (before ++ [.call target]) t' := by
  obtain ⟨link, hlink, rfl⟩ := ofOption_bind_eq_running.mp hstep
  obtain ⟨hlt, -⟩ := Vector.getElem?_eq_some_iff.mp hlink
  have hsp := h.sp
  have hnext := toNat_sp_add_one hlt
  refine ⟨?_, ?_, fun i hi => ?_⟩
  · rw [List.countP_append, List.countP_append]
    change (t.sp + 1).toNat + (_ + 0) = _ + (_ + 1)
    omega
  · rw [Vector.getElem?_setIfInBounds, if_neg (by omega)]
    exact h.link
  · rw [Vector.getElem?_setIfInBounds, if_neg (by omega)]
    exact h.below i hi

theorem Framed.ret (h : Framed s before t)
    (hle : (before ++ [Instr.ret]).countP Instr.isRet ≤ (before ++ [Instr.ret]).countP Instr.isCall)
    (hstep : execute .ret input t = .running t') : Framed s (before ++ [.ret]) t' := by
  obtain ⟨link, -, rfl⟩ := ofOption_bind_eq_running.mp hstep
  have hsp := h.sp
  rw [List.countP_append, List.countP_append] at hle
  change _ + 1 ≤ _ + 0 at hle
  have hprev : (t.sp - 1).toNat + 1 = t.sp.toNat := toNat_sub_one (by omega)
  refine ⟨?_, h.link, h.below⟩
  rw [List.countP_append, List.countP_append]
  change (t.sp - 1).toNat + (_ + 1) = _ + (_ + 0)
  omega

/-- An instruction behind which no more returns than calls have been executed keeps the frame. -/
theorem Framed.execute (h : Framed s before t) {i : Instr}
    (hle : before.countP Instr.isRet ≤ before.countP Instr.isCall)
    (hle' : (before ++ [i]).countP Instr.isRet ≤ (before ++ [i]).countP Instr.isCall)
    (hstep : execute i input t = .running t') : Framed s (before ++ [i]) t' := by
  cases i with
  | call target => exact h.call hle hstep
  | ret => exact h.ret hle' hstep
  | wait levels pin timeout =>
    cases hstep
    exact h.same rfl rfl rfl rfl
  | unknown =>
    cases hstep
    exact h.same rfl rfl rfl rfl
  | exit => cases hstep
  | _ =>
    obtain ⟨registers, pileR, rp, tp, gpio, rfl⟩ := execute_fallsThrough rfl hstep
    exact h.same rfl rfl rfl rfl

theorem Framed.poll (h : Framed s before t) (pin : UInt8) (levels : List Bool) :
    Framed s before (poll pin levels input t) := by
  obtain ⟨pc, timer, phase, heq⟩ := poll_eq pin levels input t
  rw [heq]
  exact ⟨h.sp, h.link, h.below⟩

/-- The return that matches the call finds its address. -/
theorem Framed.returns (h : Framed s before t)
    (heq : before.countP Instr.isRet = before.countP Instr.isCall) (input : VmInput) :
    ∃ u, Not232.execute .ret input t = .running u ∧ u.pc = s.pc + .ofNat bytesPerInstruction ∧
      u.sp = s.sp ∧ u.stack = t.stack := by
  have hsp := h.sp
  have hprev : (t.sp - 1).toNat = s.sp.toNat := by
    have hpos : 0 < t.sp.toNat := by omega
    have hback := toNat_sub_one hpos
    omega
  have hret : Not232.ret t =
      some { t with sp := t.sp - 1, pc := s.pc + .ofNat bytesPerInstruction } := by
    rw [Not232.ret, hprev, h.link]
    rfl
  exact ⟨_, ofOption_eq_running.mpr hret, rfl, UInt32.toNat_inj.mp hprev, rfl⟩

end Step

section Run

variable {opcodes : ℕ → UInt8} {inputs : ℕ → VmInput} {start s : VmState} {m k : ℕ}

theorem running_of_le {t : VmState} (hmk : m ≤ k) (h : run opcodes inputs start k = .running t) :
    ∃ u, run opcodes inputs start m = .running u := by
  induction k generalizing t with
  | zero =>
    obtain rfl := Nat.le_zero.mp hmk
    exact ⟨t, h⟩
  | succ k ih =>
    by_cases heq : m = k + 1
    · exact ⟨t, heq ▸ h⟩
    cases hk : run opcodes inputs start k with
    | running u => exact ih (by omega) hk
    | exited u =>
      rw [run_succ_of_exited hk] at h
      cases h
    | fault =>
      rw [run_succ_of_fault hk] at h
      cases h

/-- Up to step `k` every state behind a call is framed by what has been executed behind it. -/
theorem framed_run {target : UInt16} {body : List Instr}
    (hcall : Executes opcodes inputs start m s (.call target))
    (hbody : executed opcodes inputs start k =
      executed opcodes inputs start m ++ .call target :: body)
    (hle : ∀ before, before <+: body →
      before.countP Instr.isRet ≤ before.countP Instr.isCall)
    (j : ℕ) (hj : m + 1 + j ≤ k) {t : VmState}
    (ht : run opcodes inputs start (m + 1 + j) = .running t) :
    ∃ before, before <+: body ∧ Framed s before t ∧
      executed opcodes inputs start (m + 1 + j) =
        executed opcodes inputs start m ++ .call target :: before := by
  have hpre : ∀ {before : List Instr} {n : ℕ}, n ≤ k → executed opcodes inputs start n =
      executed opcodes inputs start m ++ .call target :: before → before <+: body := by
    intro before n hn heq
    have hprefix : executed opcodes inputs start n <+: executed opcodes inputs start k :=
      executed_prefix hn
    rw [heq, hbody, List.prefix_append_right_inj] at hprefix
    exact (List.cons_prefix_cons.mp hprefix).2
  induction j generalizing t with
  | zero =>
    rw [Nat.add_zero, run_succ_of_running hcall.reached] at ht
    simp only [step, hcall.phase, ← hcall.fetched] at ht
    exact ⟨[], List.nil_prefix, framed_call ht, hcall.executed_succ⟩
  | succ j ih =>
    have hearlier : m + 1 + j ≤ m + 1 + (j + 1) := Nat.le_succ (m + 1 + j)
    obtain ⟨u, hu⟩ := running_of_le hearlier ht
    obtain ⟨before, hbefore, hframed, hexecuted⟩ := ih (by omega) hu
    rw [← Nat.add_assoc, run_succ_of_running hu] at ht
    cases hphase : u.phase with
    | fetch =>
      have hexec : Executes opcodes inputs start (m + 1 + j) u (fetch opcodes u.pc) :=
        ⟨hu, hphase, rfl⟩
      have hnext := hexec.executed_succ
      rw [hexecuted, List.append_assoc, List.cons_append] at hnext
      have hprefix := hpre (by omega) hnext
      simp only [step, hphase] at ht
      exact ⟨_, hprefix, hframed.execute (hle _ hbefore) (hle _ hprefix) ht, hnext⟩
    | poll pin levels =>
      have hnext := executed_succ_of_poll hu hphase
      rw [hexecuted] at hnext
      simp only [step, hphase, Outcome.running.injEq] at ht
      exact ⟨before, hbefore, ht ▸ hframed.poll pin levels, hnext⟩

/-- When a call is executed, and behind it matched calls and returns and then a return, this return
goes on behind the call, with the call stack as the call found it. -/
theorem call_ret_bracketed {target : UInt16} {body : List Instr} {t : VmState}
    (hcall : Executes opcodes inputs start m s (.call target)) (hmk : m < k)
    (hret : Executes opcodes inputs start k t .ret)
    (hbody : executed opcodes inputs start k =
      executed opcodes inputs start m ++ .call target :: body) (hmatched : Matched body) :
    ∃ u, run opcodes inputs start (k + 1) = .running u ∧
      u.pc = s.pc + .ofNat bytesPerInstruction ∧ u.sp = s.sp ∧
      ∀ i < s.sp.toNat, u.stack[i]? = s.stack[i]? := by
  obtain ⟨j, rfl⟩ : ∃ j, k = m + 1 + j := ⟨k - (m + 1), by omega⟩
  obtain ⟨before, -, hframed, hexecuted⟩ :=
    framed_run hcall hbody hmatched.prefix_le j le_rfl hret.reached
  obtain rfl : before = body := by
    have h := List.append_cancel_left (hexecuted.symm.trans hbody)
    exact (List.cons.inj h).2
  obtain ⟨u, hu, hpc, hsp, hstack⟩ := hframed.returns hmatched.eq (inputs (m + 1 + j))
  refine ⟨u, ?_, hpc, hsp, hstack ▸ hframed.below⟩
  rw [run_succ_of_running hret.reached]
  simp only [step, hret.phase, ← hret.fetched]
  exact hu

/-- A call of a subroutine that calls another one. -/
def nestedCalls : ℕ → UInt8 :=
  loadProgram [0x15, 0, 8, 0, 0xFF, 0, 0, 0, 0x15, 0, 16, 0, 0x16, 0, 0, 0, 0x16, 0, 0, 0]
    fun _ => 0

theorem matched_call_ret : Matched [.call 16, .ret] where
  prefix_le before h := by
    have hall : ∀ before ∈ List.inits [Instr.call 16, .ret],
        before.countP Instr.isRet ≤ before.countP Instr.isCall := by decide
    exact hall before ((List.mem_inits _ _).mpr h)
  eq := rfl

theorem call_ret_bracketed_nested :
    ∃ u, run nestedCalls lowInputs (blankState nestedCalls 20) 4 = .running u ∧ u.pc = 4 ∧
      u.sp = 0 ∧ ∀ i < 0, u.stack[i]? = (blankState nestedCalls 20).stack[i]? := by
  have hcall : Executes nestedCalls lowInputs (blankState nestedCalls 20) 0
      (blankState nestedCalls 20) (.call 8) := ⟨rfl, rfl, rfl⟩
  obtain ⟨t, hret⟩ : ∃ t, Executes nestedCalls lowInputs (blankState nestedCalls 20) 3 t .ret :=
    ⟨_, rfl, rfl, rfl⟩
  exact call_ret_bracketed hcall (by decide) hret rfl matched_call_ret

end Run

end Not232
