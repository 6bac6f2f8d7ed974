import Not232.RunIsolation

/-!
# What keeps the virtual machine inside its arrays

The machine checks neither its operands nor its counters. An instruction stays inside the arrays
exactly when its registers exist and the instructions executed before it have left room: a call
needs fewer than sixteen calls to be open, a return one, a push fewer than 2048 bits pushed, and a
pop a bit that the host has announced in a pile of at most 2048.
-/

namespace Not232

/-- The arrays of the machine; the piles are indexed by bits. -/
inductive VmArray
  | registers
  | stack
  | pileT
  | pileR

def VmArray.size : VmArray → ℕ
  | registers => registerCount
  | stack => stackSize
  | pileT | pileR => pileSize * 8

structure Access where
  array : VmArray
  index : UInt32

def Access.InBounds (a : Access) : Prop := a.index.toNat < a.array.size

namespace Instr

/-- The elements that the instruction reads or writes in state `s`. -/
def accesses (s : VmState) : Instr → List Access
  | shiftIn _ _ reg | shiftOut _ _ reg | writeBank _ reg | readBank _ reg =>
    [⟨.registers, reg.toUInt32⟩]
  | assign destination source =>
    [⟨.registers, source.toUInt32⟩, ⟨.registers, destination.toUInt32⟩]
  | call _ => [⟨.stack, s.sp⟩]
  | ret => [⟨.stack, s.sp - 1⟩]
  | push dir _ => [⟨.pileR, pileIndex dir s.rp⟩]
  | pop dir _ => [⟨.pileT, pileIndex dir (s.tp - 1)⟩]
  | _ => []

def isCall : Instr → Bool
  | call _ => true
  | _ => false

def isRet : Instr → Bool
  | ret => true
  | _ => false

/-- The condition on an instruction that is executed behind the instructions `before`, in a request
that came with `tp`. -/
def Allowed (tp : UInt32) (before : List Instr) : Instr → Prop
  | shiftIn _ _ reg | shiftOut _ _ reg | writeBank _ reg | readBank _ reg =>
    reg.toNat < registerCount
  | assign destination source => source.toNat < registerCount ∧ destination.toNat < registerCount
  | call _ => before.countP isCall < before.countP isRet + stackSize
  | ret => before.countP isRet < before.countP isCall
  | push _ _ => before.countP pushesPile < pileSize * 8
  | pop _ _ => before.countP popsPile < tp.toNat ∧ tp.toNat ≤ pileSize * 8
  | _ => True

end Instr

/-- The machine in state `s` executes instruction `i` as step `m`. -/
structure Executes (opcodes : ℕ → UInt8) (inputs : ℕ → VmInput) (start : VmState) (m : ℕ)
    (s : VmState) (i : Instr) : Prop where
  reached : run opcodes inputs start m = .running s
  phase : s.phase = .fetch
  fetched : i = fetch opcodes s.pc

/-- The instructions executed in the first `n` steps. -/
def executed (opcodes : ℕ → UInt8) (inputs : ℕ → VmInput) (start : VmState) : ℕ → List Instr
  | 0 => []
  | n + 1 =>
    match run opcodes inputs start n with
    | .running s =>
      match s.phase with
      | .fetch => executed opcodes inputs start n ++ [fetch opcodes s.pc]
      | .poll _ _ => executed opcodes inputs start n
    | _ => executed opcodes inputs start n

section Executed

variable {opcodes : ℕ → UInt8} {inputs : ℕ → VmInput} {start s : VmState} {m k : ℕ}

theorem Executes.executed_succ {i : Instr} (h : Executes opcodes inputs start m s i) :
    executed opcodes inputs start (m + 1) = executed opcodes inputs start m ++ [i] := by
  simp only [executed, h.reached, h.phase, h.fetched]

theorem executed_succ_of_poll {pin : UInt8} {levels : List Bool}
    (h : run opcodes inputs start m = .running s) (hphase : s.phase = .poll pin levels) :
    executed opcodes inputs start (m + 1) = executed opcodes inputs start m := by
  simp only [executed, h, hphase]

theorem executed_prefix_succ (opcodes : ℕ → UInt8) (inputs : ℕ → VmInput) (start : VmState)
    (m : ℕ) : executed opcodes inputs start m <+: executed opcodes inputs start (m + 1) := by
  rw [executed]
  split
  · split
    · exact List.prefix_append _ _
    · exact List.prefix_rfl
  · exact List.prefix_rfl

theorem executed_prefix (h : m ≤ k) :
    executed opcodes inputs start m <+: executed opcodes inputs start k := by
  induction h with
  | refl => exact List.prefix_rfl
  | step _ ih => exact ih.trans (executed_prefix_succ opcodes inputs start _)

end Executed

/-- The counters count the instructions executed so far. -/
structure Counted (tp : UInt32) (before : List Instr) (s : VmState) : Prop where
  sp : s.sp.toNat + before.countP Instr.isRet = before.countP Instr.isCall
  sp_le : s.sp.toNat ≤ stackSize
  rp : s.rp.toNat = before.countP Instr.pushesPile
  rp_le : s.rp.toNat ≤ pileSize * 8
  tp_le : 0 < before.countP Instr.popsPile → tp.toNat ≤ pileSize * 8
  tp : s.tp.toNat + before.countP Instr.popsPile = tp.toNat

theorem pileIndex_lt_iff (dir : PileDir) (count : UInt32) :
    (pileIndex dir count).toNat < pileSize * 8 ↔ count.toNat < pileSize * 8 := by
  have hcount := count.toNat_lt
  cases dir with
  | up => rfl
  | down =>
    have htop : (UInt32.ofNat (pileSize * 8 - 1)).toNat = 2047 := rfl
    have hsize : pileSize * 8 = 2048 := rfl
    rw [pileIndex, UInt32.toNat_sub, htop, hsize]
    omega

theorem pop_index_lt_iff (dir : PileDir) (tp : UInt32) :
    (pileIndex dir (tp - 1)).toNat < pileSize * 8 ↔ 0 < tp.toNat ∧ tp.toNat ≤ pileSize * 8 := by
  have htp := tp.toNat_lt
  have hone : (1 : UInt32).toNat = 1 := rfl
  have hsize : pileSize * 8 = 2048 := rfl
  rw [pileIndex_lt_iff, UInt32.toNat_sub, hone, hsize]
  omega

theorem toNat_div_eight (w : UInt32) : (w / 8).toNat = w.toNat / 8 := UInt32.toNat_div w 8

section Execute

variable {tp : UInt32} {before : List Instr} {s s' : VmState} {input : VmInput}

/-- Setting up pins apart, the machine faults exactly on an access outside an array. -/
theorem execute_eq_fault_iff {i : Instr} (hi : ∀ mode pin, i ≠ .initPin mode pin) :
    execute i input s = .fault ↔ ¬ ∀ a ∈ i.accesses s, a.InBounds := by
  have hbyte : ∀ w : UInt32, (w / 8).toNat < pileSize ↔ w.toNat < pileSize * 8 := by
    intro w
    rw [toNat_div_eight]
    omega
  cases i with
  | initPin mode pin => exact absurd rfl (hi mode pin)
  | shiftIn dir pin reg =>
    apply ofOption_bind_eq_fault.trans
    simp [Instr.accesses, Access.InBounds, VmArray.size]
  | shiftOut dir pin reg =>
    apply ofOption_bind_eq_fault.trans
    simp [Instr.accesses, Access.InBounds, VmArray.size]
  | writeBank bank reg =>
    apply ofOption_bind_eq_fault.trans
    simp [Instr.accesses, Access.InBounds, VmArray.size]
  | readBank bank reg =>
    apply ofOption_bind_eq_fault.trans
    simp [Instr.accesses, Access.InBounds, VmArray.size]
  | assign destination source =>
    change Outcome.ofOption (assign destination source s) = .fault ↔ _
    rw [ofOption_eq_fault, assign]
    by_cases hsource : source.toNat < registerCount
    · rw [Vector.getElem?_eq_getElem hsource]
      apply (ofOption_eq_fault.symm.trans ofOption_bind_eq_fault).trans
      simp [Instr.accesses, Access.InBounds, VmArray.size, hsource]
    · rw [Vector.getElem?_eq_none (Nat.le_of_not_lt hsource)]
      simp [Instr.accesses, Access.InBounds, VmArray.size, hsource]
  | call target =>
    apply ofOption_bind_eq_fault.trans
    simp [Instr.accesses, Access.InBounds, VmArray.size]
  | ret =>
    apply ofOption_bind_eq_fault.trans
    simp [Instr.accesses, Access.InBounds, VmArray.size]
  | push dir pin =>
    apply ofOption_bind_eq_fault.trans
    simp [Instr.accesses, Access.InBounds, VmArray.size, ← hbyte]
  | pop dir pin =>
    apply ofOption_bind_eq_fault.trans
    simp [Instr.accesses, Access.InBounds, VmArray.size, ← hbyte]
  | _ => simp [execute, Instr.accesses]

/-- What an instruction has to do to the counters. -/
theorem Counted.snoc {i : Instr} (hc : Counted tp before s)
    (hsp : s'.sp.toNat + i.isRet.toNat = s.sp.toNat + i.isCall.toNat)
    (hspLe : s'.sp.toNat ≤ stackSize) (hrp : s'.rp.toNat = s.rp.toNat + i.pushesPile.toNat)
    (hrpLe : s'.rp.toNat ≤ pileSize * 8) (htp : s'.tp.toNat + i.popsPile.toNat = s.tp.toNat)
    (htpLe : i.popsPile → s.tp.toNat ≤ pileSize * 8) : Counted tp (before ++ [i]) s' := by
  have hcount : ∀ f : Instr → Bool,
      (before ++ [i]).countP f = before.countP f + (f i).toNat := by
    intro f
    rw [List.countP_append, List.countP_singleton]
    cases f i <;> rfl
  obtain ⟨hsp₀, _, hrp₀, _, htpLe₀, htp₀⟩ := hc
  refine ⟨?_, hspLe, ?_, hrpLe, fun hpos => ?_, ?_⟩
  · rw [hcount, hcount]
    omega
  · rw [hcount]
    omega
  · rw [hcount] at hpos
    by_cases hbefore : 0 < before.countP Instr.popsPile
    · exact htpLe₀ hbefore
    · have hpop : i.popsPile = true := by
        by_contra hne
        rw [Bool.not_eq_true] at hne
        rw [hne] at hpos
        exact hbefore hpos
      have hle := htpLe hpop
      omega
  · rw [hcount]
    omega

/-- An instruction that moves no counter. -/
theorem Counted.of_leavesAlone (hc : Counted tp before s) {i : Instr} (h : i.LeavesAlone s s')
    (hcall : ∀ target, i ≠ .call target) (hret : i ≠ .ret) (hpush : i.pushesPile = false)
    (hpop : i.popsPile = false) : Counted tp (before ++ [i]) s' := by
  have hsp : s'.sp = s.sp := h.sp hcall hret
  have hrp : s'.rp = s.rp := h.rp hpush
  have htp : s'.tp = s.tp := h.tp hpop
  have hnocall : i.isCall = false := by
    cases i with
    | call target => exact absurd rfl (hcall target)
    | _ => rfl
  have hnoret : i.isRet = false := by
    cases i with
    | ret => exact absurd rfl hret
    | _ => rfl
  refine hc.snoc ?_ (hsp ▸ hc.sp_le) ?_ (hrp ▸ hc.rp_le) ?_ ?_
  · rw [hsp, hnocall, hnoret]
  · rw [hrp, hpush]
    rfl
  · rw [htp, hpop]
    rfl
  · rw [hpop]
    exact fun h => Bool.noConfusion h

theorem Counted.call (hc : Counted tp before s) {target : UInt16}
    (h : call target s = some s') : Counted tp (before ++ [.call target]) s' := by
  simp only [Not232.call, Option.bind_eq_bind, Option.bind_eq_some_iff, Option.some.injEq] at h
  obtain ⟨link, hlink, rfl⟩ := h
  obtain ⟨hlt, _⟩ := Vector.getElem?_eq_some_iff.mp hlink
  have hnext := toNat_sp_add_one hlt
  exact hc.snoc hnext (hnext.trans_le hlt) rfl hc.rp_le rfl (fun h => Bool.noConfusion h)

theorem Counted.ret (hc : Counted tp before s) (h : ret s = some s') :
    Counted tp (before ++ [.ret]) s' := by
  simp only [Not232.ret, Option.bind_eq_bind, Option.bind_eq_some_iff, Option.some.injEq] at h
  obtain ⟨link, hlink, rfl⟩ := h
  obtain ⟨hlt, _⟩ := Vector.getElem?_eq_some_iff.mp hlink
  have hpos := (toNat_sp_sub_one_lt_iff hc.sp_le).mp hlt
  exact hc.snoc (toNat_sub_one hpos) hlt.le rfl hc.rp_le rfl (fun h => Bool.noConfusion h)

theorem Counted.push (hc : Counted tp before s) {dir : PileDir} {pin : UInt8}
    (h : push dir pin input s = some s') : Counted tp (before ++ [.push dir pin]) s' := by
  simp only [Not232.push, Option.bind_eq_bind, Option.bind_eq_some_iff, Option.some.injEq] at h
  obtain ⟨lipo, hlipo, rfl⟩ := h
  obtain ⟨hbyte, _⟩ := Vector.getElem?_eq_some_iff.mp hlipo
  rw [toNat_div_eight] at hbyte
  have hlt := (pileIndex_lt_iff dir s.rp).mp (by omega)
  have hwidth : pileSize * 8 < 2 ^ 32 - 1 := by decide
  have hnext := toNat_add_one (hlt.trans hwidth)
  exact hc.snoc rfl hc.sp_le hnext (hnext.trans_le hlt) rfl (fun h => Bool.noConfusion h)

theorem Counted.pop (hc : Counted tp before s) {dir : PileDir} {pin : UInt8}
    (h : pop dir pin s = some s') : Counted tp (before ++ [.pop dir pin]) s' := by
  simp only [Not232.pop, Option.bind_eq_bind, Option.bind_eq_some_iff, Option.some.injEq] at h
  obtain ⟨lipo, hlipo, rfl⟩ := h
  obtain ⟨hbyte, _⟩ := Vector.getElem?_eq_some_iff.mp hlipo
  rw [toNat_div_eight] at hbyte
  obtain ⟨hpos, hle⟩ := (pop_index_lt_iff dir s.tp).mp (by omega)
  exact hc.snoc rfl hc.sp_le rfl hc.rp_le (toNat_sub_one hpos) fun _ => hle

/-- A step from one instruction to the next keeps the counters. -/
theorem Counted.execute (hc : Counted tp before s) {i : Instr}
    (h : execute i input s = .running s') : Counted tp (before ++ [i]) s' := by
  cases i with
  | call target => exact hc.call (ofOption_eq_running.mp h)
  | ret => exact hc.ret (ofOption_eq_running.mp h)
  | push dir pin => exact hc.push (ofOption_eq_running.mp h)
  | pop dir pin => exact hc.pop (ofOption_eq_running.mp h)
  | _ => exact hc.of_leavesAlone (execute_leavesAlone h) nofun nofun rfl rfl

theorem Counted.poll (hc : Counted tp before s) (pin : UInt8) (levels : List Bool) :
    Counted tp before (poll pin levels input s) := by
  obtain ⟨pc, timer, phase, heq⟩ := poll_eq pin levels input s
  rw [heq]
  exact ⟨hc.sp, hc.sp_le, hc.rp, hc.rp_le, hc.tp_le, hc.tp⟩

end Execute

end Not232
