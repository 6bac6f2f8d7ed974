import Mathlib.Data.Nat.Nth
import Not232.StraightLine

/-!
# Subroutines

No instruction chooses where to go on by what it reads, so a program that has come to its exit once
executes the same instructions in every run. Without its calls and returns it is a straight line of
instructions, and in every run, exited or not, the registers, the piles and the pins are those of
this line, which needs no program counter and no call stack. The machine only spends a turn more on
each call and return.
-/

namespace Not232

/-- The instruction goes on to the record behind it, at once or behind a wait. -/
def Instr.isStraight : Instr → Bool
  | .call _ | .ret | .exit | .unknown => false
  | _ => true

/-- The instruction only moves the program counter and the call stack. -/
def Instr.isLink (i : Instr) : Bool := i.isCall || i.isRet

def Outcome.map (f : VmState → VmState) : Outcome → Outcome
  | .running s => .running (f s)
  | .exited s => .exited (f s)
  | .fault => .fault

namespace VmState

/-- The machine with another program counter and call stack. -/
def relocate (pc sp : UInt32) (stack : Vector UInt32 stackSize) (s : VmState) : VmState :=
  { s with pc := pc, sp := sp, stack := stack }

/-- The return addresses on the call stack, innermost first. -/
def links (s : VmState) : List UInt32 := (s.stack.toList.take s.sp.toNat).reverse

/-- The address of the record that is executed next. -/
def next (s : VmState) : UInt32 :=
  match s.phase with
  | .fetch => s.pc
  | .poll _ _ => s.pc + .ofNat bytesPerInstruction

end VmState

/-- Equal but for the program counter and the call stack. -/
def SameEffects (s t : VmState) : Prop := s.relocate t.pc t.sp t.stack = t

inductive SameOutcome : Outcome → Outcome → Prop
  | running {s t : VmState} (h : SameEffects s t) : SameOutcome (.running s) (.running t)
  | exited {s t : VmState} (h : SameEffects s t) : SameOutcome (.exited s) (.exited t)
  | fault : SameOutcome .fault .fault

/-- From address `pc`, with the return addresses `links`, the machine executes the instructions
`line` beside calls and returns, and the last of them is its exit. -/
inductive Unfolds (opcodes : ℕ → UInt8) : UInt32 → List UInt32 → List Instr → Prop
  | exit {pc : UInt32} {links : List UInt32} (hfetch : fetch opcodes pc = .exit) :
    Unfolds opcodes pc links [.exit]
  | straight {pc : UInt32} {links : List UInt32} {line : List Instr}
    (hstraight : (fetch opcodes pc).isStraight = true)
    (hrest : Unfolds opcodes (pc + .ofNat bytesPerInstruction) links line) :
    Unfolds opcodes pc links (fetch opcodes pc :: line)
  | call {pc : UInt32} {links : List UInt32} {line : List Instr} {target : UInt16}
    (hfetch : fetch opcodes pc = .call target) (hroom : links.length < stackSize)
    (hrest : Unfolds opcodes target.toUInt32 ((pc + .ofNat bytesPerInstruction) :: links) line) :
    Unfolds opcodes pc links line
  | ret {pc link : UInt32} {links : List UInt32} {line : List Instr}
    (hfetch : fetch opcodes pc = .ret) (hrest : Unfolds opcodes link links line) :
    Unfolds opcodes pc (link :: links) line

/-- A machine that executes a list of instructions from its head, with what is left of the list. -/
def runLine (line : List Instr) (inputs : ℕ → VmInput) (s : VmState) : ℕ → List Instr × Outcome
  | 0 => (line, .running s)
  | n + 1 =>
    match runLine line inputs s n with
    | (line, .running s) =>
      match s.phase, line with
      | .poll pin levels, line => (line, .running (poll pin levels (inputs n) s))
      | .fetch, [] => ([], .exited s)
      | .fetch, i :: line => (line, execute i (inputs n) s)
    | halted => halted

/-- The machine spends its next turn on a call or a return. -/
def Outcome.links (opcodes : ℕ → UInt8) : Outcome → Bool
  | .running s =>
    match s.phase with
    | .fetch => (fetch opcodes s.pc).isLink
    | .poll _ _ => false
  | _ => false

/-- Turn `n` is not spent on a call or a return. -/
def Works (opcodes : ℕ → UInt8) (inputs : ℕ → VmInput) (start : VmState) (n : ℕ) : Prop :=
  (run opcodes inputs start n).links opcodes = false

instance (opcodes : ℕ → UInt8) (inputs : ℕ → VmInput) (start : VmState) :
    DecidablePred (Works opcodes inputs start) :=
  fun _ => inferInstanceAs (Decidable (_ = false))

/-- The instructions that the first `n` turns execute, without the calls and the returns. -/
def inlined (opcodes : ℕ → UInt8) (inputs : ℕ → VmInput) (start : VmState) (n : ℕ) : List Instr :=
  (executed opcodes inputs start n).filter (!·.isLink)

section Step

variable {opcodes : ℕ → UInt8} {s t t' : VmState} {input : VmInput} {line : List Instr}

/-- What an instruction does does not depend on where it stands. -/
theorem execute_relocate {i : Instr} (hi : i.isStraight = true) (input : VmInput)
    (pc sp : UInt32) (stack : Vector UInt32 stackSize) (s : VmState) :
    ∃ pc', execute i input (s.relocate pc sp stack) =
      (execute i input s).map (VmState.relocate pc' sp stack) := by
  have hoption : ∀ {α : Type} (o : Option α) (f g : α → VmState), (∀ a, g a = (f a).relocate
      (pc + .ofNat bytesPerInstruction) sp stack) → Outcome.ofOption (o.bind fun a => some (g a)) =
      (Outcome.ofOption (o.bind fun a => some (f a))).map
        (VmState.relocate (pc + .ofNat bytesPerInstruction) sp stack) := by
    intro α o f g hfg
    cases o with
    | none => rfl
    | some a => exact congrArg Outcome.running (hfg a)
  cases i with
  | call target => cases hi
  | ret => cases hi
  | exit => cases hi
  | unknown => cases hi
  | wait levels pin timeout => exact ⟨pc, rfl⟩
  | initPin mode pin =>
    refine ⟨pc + .ofNat bytesPerInstruction, ?_⟩
    change Outcome.ofOption ((gpioInitPin pin mode s.gpio).map _) =
      (Outcome.ofOption ((gpioInitPin pin mode s.gpio).map _)).map _
    cases gpioInitPin pin mode s.gpio <;> rfl
  | shiftIn dir pin reg => exact ⟨_, hoption _ _ _ fun _ => rfl⟩
  | shiftOut dir pin reg => exact ⟨_, hoption _ _ _ fun _ => rfl⟩
  | writeBank bank reg => exact ⟨_, hoption _ _ _ fun _ => rfl⟩
  | readBank bank reg => exact ⟨_, hoption _ _ _ fun _ => rfl⟩
  | push dir pin => exact ⟨_, hoption _ _ _ fun _ => rfl⟩
  | pop dir pin => exact ⟨_, hoption _ _ _ fun _ => rfl⟩
  | assign destination source =>
    refine ⟨pc + .ofNat bytesPerInstruction, ?_⟩
    change Outcome.ofOption (s.registers[source.toNat]?.bind fun value =>
        s.registers[destination.toNat]?.bind _) =
      (Outcome.ofOption (s.registers[source.toNat]?.bind fun value =>
        s.registers[destination.toNat]?.bind _)).map _
    cases s.registers[source.toNat]? with
    | none => rfl
    | some value => exact hoption _ _ _ fun _ => rfl
  | _ => exact ⟨_, rfl⟩

theorem next_of_fetch (hphase : s.phase = .fetch) : s.next = s.pc := by
  simp only [VmState.next, hphase]

theorem links_running_iff : (Outcome.running s).links opcodes = true ↔
    s.phase = .fetch ∧ (fetch opcodes s.pc).isLink = true := by
  cases hphase : s.phase with
  | fetch => simp only [Outcome.links, hphase, true_and]
  | poll pin levels => simp [Outcome.links, hphase]

theorem not_isLink_of_straight {i : Instr} (hi : i.isStraight = true) : i.isLink = false := by
  cases i with
  | call target => cases hi
  | ret => cases hi
  | _ => rfl

theorem not_unfolds_unknown {pc : UInt32} {links : List UInt32}
    (hfetch : fetch opcodes pc = .unknown) : ¬ Unfolds opcodes pc links line := by
  intro hunfolds
  cases hunfolds with
  | exit h => cases hfetch.symm.trans h
  | straight h hrest =>
    rw [hfetch] at h
    cases h
  | call h hroom hrest => cases hfetch.symm.trans h
  | ret h hrest => cases hfetch.symm.trans h

theorem next_poll (input : VmInput) (pin : UInt8) (levels : List Bool)
    (hphase : s.phase = .poll pin levels) :
    (poll pin levels input s).next = s.next := by
  have hnext : s.next = s.pc + .ofNat bytesPerInstruction := by
    simp only [VmState.next, hphase]
  have hend : (endWait s).next = s.pc + .ofNat bytesPerInstruction := rfl
  cases levels with
  | nil => exact hend.trans hnext.symm
  | cons level later =>
    simp only [poll]
    split_ifs
    · rfl
    · exact hend.trans hnext.symm
    · exact hnext.symm

theorem links_poll (input : VmInput) (s : VmState) (pin : UInt8) (levels : List Bool) :
    (poll pin levels input s).links = s.links ∧ (poll pin levels input s).sp = s.sp := by
  obtain ⟨pc, timer, phase, h⟩ := poll_eq pin levels input s
  rw [h]
  exact ⟨rfl, rfl⟩

/-- A straight instruction goes on behind itself and leaves the call stack alone. -/
theorem next_straight {i : Instr} (hi : i.isStraight = true) (hphase : s.phase = .fetch)
    (h : execute i input s = .running t) :
    t.next = s.pc + .ofNat bytesPerInstruction ∧ t.links = s.links ∧ t.sp = s.sp := by
  cases i with
  | call target => cases hi
  | ret => cases hi
  | exit => cases hi
  | unknown => cases hi
  | wait levels pin timeout =>
    cases h
    exact ⟨rfl, rfl, rfl⟩
  | _ =>
    obtain ⟨registers, pileR, rp, tp, gpio, rfl⟩ := execute_fallsThrough rfl h
    refine ⟨?_, rfl, rfl⟩
    simp only [VmState.next, VmState.advance, hphase]

theorem length_links (hsp : s.sp.toNat ≤ stackSize) : s.links.length = s.sp.toNat := by
  rw [VmState.links, List.length_reverse, List.length_take, Vector.length_toList]
  exact Nat.min_eq_left hsp

/-- With room on the call stack a call goes on at its target. -/
theorem execute_call (target : UInt16) (input : VmInput) (hroom : s.links.length < stackSize)
    (hsp : s.sp.toNat ≤ stackSize) :
    ∃ sp stack, execute (.call target) input s = .running (s.relocate target.toUInt32 sp stack) ∧
      sp.toNat ≤ stackSize ∧ (s.relocate target.toUInt32 sp stack).links =
        (s.pc + .ofNat bytesPerInstruction) :: s.links := by
  rw [length_links hsp] at hroom
  have hnext := toNat_sp_add_one hroom
  refine ⟨s.sp + 1, s.stack.setIfInBounds s.sp.toNat (s.pc + .ofNat bytesPerInstruction), ?_, ?_,
    ?_⟩
  · change Outcome.ofOption (call target s) = _
    rw [call, Vector.getElem?_eq_getElem hroom]
    rfl
  · omega
  · change (((s.stack.setIfInBounds s.sp.toNat _).toList).take (s.sp + 1).toNat).reverse = _
    have hlength : s.sp.toNat < (s.stack.toList.set s.sp.toNat
        (s.pc + .ofNat bytesPerInstruction)).length := by
      rw [List.length_set, Vector.length_toList]
      exact hroom
    rw [hnext, Vector.toList_setIfInBounds, List.take_succ_eq_append_getElem hlength,
      List.reverse_append, List.getElem_set_self, List.take_set_of_le le_rfl]
    rfl

/-- A return goes on at the innermost return address. -/
theorem execute_ret {link : UInt32} {links : List UInt32} (input : VmInput)
    (hsp : s.sp.toNat ≤ stackSize) (hlinks : s.links = link :: links) :
    ∃ sp, execute .ret input s = .running (s.relocate link sp s.stack) ∧
      sp.toNat ≤ stackSize ∧ (s.relocate link sp s.stack).links = links := by
  have hpos : 0 < s.sp.toNat := by
    rw [← length_links hsp, hlinks]
    exact Nat.succ_pos links.length
  have hlt := (toNat_sp_sub_one_lt_iff hsp).mpr hpos
  have hprev : (s.sp - 1).toNat + 1 = s.sp.toNat := toNat_sub_one hpos
  have hlength : (s.sp - 1).toNat < s.stack.toList.length := by
    rw [Vector.length_toList]
    exact hlt
  have hpop : s.links = s.stack[(s.sp - 1).toNat] ::
      (s.relocate link (s.sp - 1) s.stack).links := by
    rw [VmState.links, ← hprev, List.take_succ_eq_append_getElem hlength, List.reverse_append]
    rfl
  obtain ⟨hlink, hrest⟩ := List.cons.inj (hlinks.symm.trans hpop)
  refine ⟨s.sp - 1, ?_, ?_, hrest.symm⟩
  · change Outcome.ofOption (ret s) = _
    rw [ret, Vector.getElem?_eq_getElem hlt, ← hlink]
    rfl
  · omega

theorem room_of_call {target : UInt16} (h : execute (.call target) input s ≠ .fault)
    (hsp : s.sp.toNat ≤ stackSize) : s.links.length < stackSize := by
  by_contra hfull
  rw [length_links hsp, Nat.not_lt] at hfull
  apply h
  change Outcome.ofOption (call target s) = _
  rw [call, Vector.getElem?_eq_none hfull]
  rfl

theorem link_of_ret (h : execute .ret input s ≠ .fault) (hsp : s.sp.toNat ≤ stackSize) :
    ∃ link links, s.links = link :: links := by
  apply List.exists_cons_of_ne_nil
  intro hempty
  have hlength := length_links hsp
  rw [hempty] at hlength
  have hzero : s.sp = 0 := UInt32.toNat_inj.mp hlength.symm
  apply h
  change Outcome.ofOption (ret s) = _
  rw [ret, hzero]
  rfl

end Step

/-- The state of a program against the state of its line. -/
inductive Follows (opcodes : ℕ → UInt8) : Outcome → List Instr × Outcome → Prop
  | running {s t : VmState} {line : List Instr} (hsame : SameEffects s t)
    (hsp : s.sp.toNat ≤ stackSize) (hunfolds : Unfolds opcodes s.next s.links line) :
    Follows opcodes (.running s) (line, .running t)
  | exited {s t : VmState} {line : List Instr} (hsame : SameEffects s t) :
    Follows opcodes (.exited s) (line, .exited t)
  | fault {line : List Instr} : Follows opcodes .fault (line, .fault)

section Follows

variable {opcodes : ℕ → UInt8} {s t : VmState} {input : VmInput} {line : List Instr}

theorem Follows.sameOutcome {o : Outcome} {l : List Instr × Outcome} (h : Follows opcodes o l) :
    SameOutcome o l.2 := by
  cases h with
  | running hsame hsp hunfolds => exact .running hsame
  | exited hsame => exact .exited hsame
  | fault => exact .fault

/-- A turn of a waiting loop. -/
theorem follows_poll {pin : UInt8} {levels : List Bool} (hsame : SameEffects s t)
    (hsp : s.sp.toNat ≤ stackSize) (hunfolds : Unfolds opcodes s.next s.links line)
    (hphase : s.phase = .poll pin levels) :
    Follows opcodes (.running (poll pin levels input s))
      (line, .running (poll pin levels input t)) := by
  have hnext := next_poll input pin levels hphase
  have hlinks := links_poll input s pin levels
  have hmoved : SameEffects (poll pin levels input s) (poll pin levels input t) := by
    rw [← hsame]
    cases levels with
    | nil => rfl
    | cons level later =>
      simp only [poll]
      split_ifs <;> rfl
  rw [← hnext, ← hlinks.1] at hunfolds
  exact .running hmoved (hlinks.2 ▸ hsp) hunfolds

/-- A straight instruction. -/
theorem follows_straight {i : Instr} (hi : i.isStraight = true) (hsame : SameEffects s t)
    (hsp : s.sp.toNat ≤ stackSize) (hphase : s.phase = .fetch)
    (hrest : Unfolds opcodes (s.pc + .ofNat bytesPerInstruction) s.links line) :
    Follows opcodes (execute i input s) (line, execute i input t) := by
  obtain ⟨pc, hmap⟩ := execute_relocate hi input t.pc t.sp t.stack s
  rw [hsame] at hmap
  rw [hmap]
  cases h : execute i input s with
  | running s' =>
    obtain ⟨hnext, hlinks, hsp'⟩ := next_straight hi hphase h
    rw [← hnext, ← hlinks] at hrest
    exact .running rfl (hsp' ▸ hsp) hrest
  | exited s' => exact .exited rfl
  | fault => exact .fault

/-- A turn that works is a turn of the line. -/
theorem follows_works {l : List Instr × Outcome} {o : Outcome} {inputs lineInputs : ℕ → VmInput}
    {start lineStart : VmState} {n m : ℕ} (hrun : run opcodes inputs start n = o)
    (hline : runLine line lineInputs lineStart m = l) (hinput : lineInputs m = inputs n)
    (h : Follows opcodes o l) (hworks : o.links opcodes = false) :
    Follows opcodes (run opcodes inputs start (n + 1))
      (runLine line lineInputs lineStart (m + 1)) := by
  cases h with
  | exited hsame =>
    rw [run_succ_of_exited hrun]
    simp only [runLine, hline]
    exact .exited hsame
  | fault =>
    rw [run_succ_of_fault hrun]
    simp only [runLine, hline]
    exact .fault
  | @running s t line' hsame hsp hunfolds =>
    have hphase : t.phase = s.phase := (congrArg VmState.phase hsame).symm
    rw [run_succ_of_running hrun]
    cases hs : s.phase with
    | poll pin levels =>
      simp only [runLine, hline, step, hs, hphase, hinput]
      exact follows_poll hsame hsp hunfolds hs
    | fetch =>
      have hpc : s.next = s.pc := by simp only [VmState.next, hs]
      rw [hpc] at hunfolds
      simp only [Outcome.links, hs] at hworks
      simp only [runLine, hline, step, hs, hphase, hinput]
      generalize hstack : s.links = links at hunfolds
      cases hunfolds with
      | exit hfetch =>
        rw [hfetch]
        exact .exited hsame
      | straight hstraight hrest =>
        exact follows_straight hstraight hsame hsp hs (hstack ▸ hrest)
      | call hfetch hroom hrest =>
        rw [hfetch] at hworks
        cases hworks
      | ret hfetch hrest =>
        rw [hfetch] at hworks
        cases hworks

/-- On a call or a return the line waits. -/
theorem follows_links {l : List Instr × Outcome} {o : Outcome} {inputs : ℕ → VmInput}
    {start : VmState} {n : ℕ} (hrun : run opcodes inputs start n = o)
    (h : Follows opcodes o l) (hlinks : o.links opcodes = true) :
    Follows opcodes (run opcodes inputs start (n + 1)) l := by
  cases h with
  | exited hsame => cases hlinks
  | fault => cases hlinks
  | @running s t line' hsame hsp hunfolds =>
    obtain ⟨hphase, hlink⟩ := links_running_iff.mp hlinks
    rw [run_succ_of_running hrun]
    simp only [step, hphase]
    rw [next_of_fetch hphase] at hunfolds
    generalize hstack : s.links = links at hunfolds
    cases hunfolds with
    | exit hfetch =>
      rw [hfetch] at hlink
      cases hlink
    | straight hstraight hrest =>
      rw [not_isLink_of_straight hstraight] at hlink
      cases hlink
    | @call _ _ _ target hfetch hroom hrest =>
      rw [← hstack] at hroom
      obtain ⟨sp, stack, hcall, hsp', hpush⟩ := execute_call target (inputs n) hroom hsp
      rw [hfetch, hcall]
      rw [← hstack, ← hpush] at hrest
      have hmoved : SameEffects (s.relocate target.toUInt32 sp stack) t := hsame
      exact .running hmoved hsp' ((next_of_fetch (s := s.relocate _ sp stack) hphase).symm ▸ hrest)
    | @ret _ link links _ hfetch hrest =>
      obtain ⟨sp, hret, hsp', hpop⟩ := execute_ret (inputs n) hsp hstack
      rw [hfetch, hret]
      rw [← hpop] at hrest
      have hmoved : SameEffects (s.relocate link sp s.stack) t := hsame
      exact .running hmoved hsp' ((next_of_fetch (s := s.relocate link sp _) hphase).symm ▸ hrest)

end Follows

section Run

variable {opcodes : ℕ → UInt8} {inputs : ℕ → VmInput} {start : VmState} {line : List Instr}

/-- The run of a program against the run of its line, on the inputs of the turns that work. -/
theorem follows_run (inputs : ℕ → VmInput)
    (h : Follows opcodes (.running start) (line, .running start)) (n : ℕ) :
    Follows opcodes (run opcodes inputs start n)
      (runLine line (inputs ∘ Nat.nth (Works opcodes inputs start)) start
        (Nat.count (Works opcodes inputs start) n)) := by
  induction n with
  | zero => exact h
  | succ n ih =>
    rw [Nat.count_succ]
    by_cases hworks : Works opcodes inputs start n
    · rw [if_pos hworks]
      have hinput : (inputs ∘ Nat.nth (Works opcodes inputs start))
          (Nat.count (Works opcodes inputs start) n) = inputs n :=
        congrArg inputs (Nat.nth_count hworks)
      exact follows_works rfl rfl hinput ih hworks
    · rw [if_neg hworks, Nat.add_zero]
      have hlinks : (run opcodes inputs start n).links opcodes = true :=
        Bool.eq_true_of_not_eq_false hworks
      exact follows_links rfl ih hlinks

/-- Calls and returns do not go on forever. -/
theorem works_later {pc : UInt32} {links : List UInt32} (hunfolds : Unfolds opcodes pc links line)
    {n : ℕ} {s : VmState} (hrun : run opcodes inputs start n = .running s) (hnext : s.next = pc)
    (hstack : s.links = links) (hsp : s.sp.toNat ≤ stackSize) :
    ∃ m, n ≤ m ∧ Works opcodes inputs start m := by
  induction hunfolds generalizing n s with
  | exit hfetch =>
    refine ⟨n, le_rfl, ?_⟩
    by_contra hworks
    rw [Works, hrun, Bool.not_eq_false] at hworks
    obtain ⟨hphase, hlink⟩ := links_running_iff.mp hworks
    rw [← next_of_fetch hphase, hnext, hfetch] at hlink
    cases hlink
  | straight hstraight hrest ih =>
    refine ⟨n, le_rfl, ?_⟩
    by_contra hworks
    rw [Works, hrun, Bool.not_eq_false] at hworks
    obtain ⟨hphase, hlink⟩ := links_running_iff.mp hworks
    rw [← next_of_fetch hphase, hnext, not_isLink_of_straight hstraight] at hlink
    cases hlink
  | @call _ _ _ target hfetch hroom hrest ih =>
    by_cases hworks : Works opcodes inputs start n
    · exact ⟨n, le_rfl, hworks⟩
    rw [Works, hrun, Bool.not_eq_false] at hworks
    obtain ⟨hphase, -⟩ := links_running_iff.mp hworks
    subst hstack
    obtain rfl := (next_of_fetch hphase).symm.trans hnext
    obtain ⟨sp, stack, hcall, hsp', hpush⟩ := execute_call target (inputs n) hroom hsp
    have hturn : run opcodes inputs start (n + 1) =
        .running (s.relocate target.toUInt32 sp stack) := by
      rw [run_succ_of_running hrun, ← hcall]
      simp only [step, hphase, hfetch]
    obtain ⟨m, hm, hlater⟩ := ih hturn (next_of_fetch hphase) hpush hsp'
    exact ⟨m, Nat.le_of_succ_le hm, hlater⟩
  | @ret _ link links _ hfetch hrest ih =>
    by_cases hworks : Works opcodes inputs start n
    · exact ⟨n, le_rfl, hworks⟩
    rw [Works, hrun, Bool.not_eq_false] at hworks
    obtain ⟨hphase, -⟩ := links_running_iff.mp hworks
    obtain rfl := (next_of_fetch hphase).symm.trans hnext
    obtain ⟨sp, hret, hsp', hpop⟩ := execute_ret (inputs n) hsp hstack
    have hturn : run opcodes inputs start (n + 1) = .running (s.relocate link sp s.stack) := by
      rw [run_succ_of_running hrun, ← hret]
      simp only [step, hphase, hfetch]
    obtain ⟨m, hm, hlater⟩ := ih hturn (next_of_fetch hphase) hpop hsp'
    exact ⟨m, Nat.le_of_succ_le hm, hlater⟩

/-- A turn that works comes after every turn. -/
theorem exists_works (h : Follows opcodes (.running start) (line, .running start)) (n : ℕ) :
    ∃ m, n ≤ m ∧ Works opcodes inputs start m := by
  have hfollows := follows_run inputs h n
  generalize hrun : run opcodes inputs start n = o at hfollows
  generalize runLine line _ start _ = l at hfollows
  cases hfollows with
  | running hsame hsp hunfolds => exact works_later hunfolds hrun rfl rfl hsp
  | exited hsame =>
    refine ⟨n, le_rfl, ?_⟩
    rw [Works, hrun]
    rfl
  | fault =>
    refine ⟨n, le_rfl, ?_⟩
    rw [Works, hrun]
    rfl

theorem inlined_of_exited {m n : ℕ} {t : VmState} (hexit : run opcodes inputs start m = .exited t)
    (hmn : m ≤ n) : inlined opcodes inputs start n = inlined opcodes inputs start m := by
  induction hmn with
  | refl => rfl
  | @step n hmn ih =>
    rw [← ih, inlined, executed, exited_of_le hexit hmn]
    rfl

/-- What a run still executes before it exits is the line of its state. -/
theorem unfolds_of_exited {n : ℕ} {t : VmState} (hexit : run opcodes inputs start n = .exited t)
    (d : ℕ) {m : ℕ} (hm : m + d = n) {s : VmState} (hrun : run opcodes inputs start m = .running s)
    (hsp : s.sp.toNat ≤ stackSize) :
    ∃ line, Unfolds opcodes s.next s.links line ∧
      inlined opcodes inputs start n = inlined opcodes inputs start m ++ line := by
  induction d generalizing m s with
  | zero =>
    obtain rfl : m = n := hm
    rw [hrun] at hexit
    cases hexit
  | succ d ih =>
    have hlater : m + 1 + d = n := by omega
    have hturn := run_succ_of_running hrun
    cases hphase : s.phase with
    | poll pin levels =>
      have hnext := next_poll (inputs m) pin levels hphase
      have hlinks := links_poll (inputs m) s pin levels
      simp only [step, hphase] at hturn
      obtain ⟨line, hunfolds, hline⟩ := ih hlater hturn (hlinks.2 ▸ hsp)
      rw [hnext, hlinks.1] at hunfolds
      rw [inlined, inlined, executed_succ_of_poll hrun hphase] at hline
      exact ⟨line, hunfolds, hline⟩
    | fetch =>
      have hexec : Executes opcodes inputs start m s (fetch opcodes s.pc) := ⟨hrun, hphase, rfl⟩
      have hinlined : inlined opcodes inputs start (m + 1) = inlined opcodes inputs start m ++
          [fetch opcodes s.pc].filter (!·.isLink) := by
        rw [inlined, inlined, hexec.executed_succ, List.filter_append]
      have hfault : run opcodes inputs start (m + 1) ≠ .fault := by
        intro h
        rw [fault_of_le h (by omega)] at hexit
        cases hexit
      simp only [step, hphase] at hturn
      rw [next_of_fetch hphase]
      by_cases hstraight : (fetch opcodes s.pc).isStraight = true
      · cases hexecute : execute (fetch opcodes s.pc) (inputs m) s with
        | fault => exact absurd (hturn.trans hexecute) hfault
        | exited u =>
          rw [execute_eq_exited hexecute] at hstraight
          cases hstraight
        | running u =>
          obtain ⟨hnext, hlinks, hsp'⟩ := next_straight hstraight hphase hexecute
          obtain ⟨line, hunfolds, hline⟩ := ih hlater (hturn.trans hexecute) (hsp' ▸ hsp)
          rw [hnext, hlinks] at hunfolds
          refine ⟨_, .straight hstraight hunfolds, ?_⟩
          rw [hline, hinlined, List.filter_singleton, not_isLink_of_straight hstraight,
            List.append_assoc]
          rfl
      · cases hfetch : fetch opcodes s.pc with
        | exit =>
          refine ⟨[.exit], .exit hfetch, ?_⟩
          rw [hfetch] at hturn
          have hsize : m + 1 ≤ n := by omega
          rw [inlined_of_exited hturn hsize, hinlined, hfetch]
          rfl
        | unknown =>
          rw [hfetch] at hturn
          obtain ⟨line, hunfolds, -⟩ := ih hlater hturn hsp
          rw [next_of_fetch hphase] at hunfolds
          exact absurd hunfolds (not_unfolds_unknown hfetch)
        | call target =>
          rw [hfetch] at hturn hinlined
          have hroom := room_of_call (hturn ▸ hfault) hsp
          obtain ⟨sp, stack, hcall, hsp', hpush⟩ := execute_call target (inputs m) hroom hsp
          obtain ⟨line, hunfolds, hline⟩ := ih hlater (hturn.trans hcall) hsp'
          rw [next_of_fetch (s := s.relocate _ sp stack) hphase, hpush] at hunfolds
          rw [hinlined.trans (List.append_nil _)] at hline
          exact ⟨line, .call hfetch hroom hunfolds, hline⟩
        | ret =>
          rw [hfetch] at hturn hinlined
          obtain ⟨link, links, hlinks⟩ := link_of_ret (hturn ▸ hfault) hsp
          obtain ⟨sp, hret, hsp', hpop⟩ := execute_ret (inputs m) hsp hlinks
          obtain ⟨line, hunfolds, hline⟩ := ih hlater (hturn.trans hret) hsp'
          rw [next_of_fetch (s := s.relocate link sp _) hphase, hpop] at hunfolds
          rw [hinlined.trans (List.append_nil _)] at hline
          rw [hlinks]
          exact ⟨line, .ret hfetch hunfolds, hline⟩
        | _ =>
          rw [hfetch] at hstraight
          exact absurd rfl hstraight

end Run

/-- Every run of a program that has come to its exit once does what the instructions of that run do
without the calls and the returns, on the inputs of the turns that are not spent on these. -/
theorem subroutines_inline {opcodes : ℕ → UInt8} {inputs : ℕ → VmInput} {start t : VmState} {n : ℕ}
    (hsp : start.sp = 0) (hexit : run opcodes inputs start n = .exited t) (inputs' : ℕ → VmInput) :
    (Set.Infinite {m | Works opcodes inputs' start m}) ∧
    ∀ m, SameOutcome (run opcodes inputs' start m)
      (runLine (inlined opcodes inputs start n)
        (inputs' ∘ Nat.nth (Works opcodes inputs' start)) start
        (Nat.count (Works opcodes inputs' start) m)).2 := by
  have hempty : start.sp.toNat ≤ stackSize := hsp ▸ Nat.zero_le stackSize
  obtain ⟨line, hunfolds, hline⟩ :=
    unfolds_of_exited hexit n (Nat.zero_add n) (rfl : run opcodes inputs start 0 = _) hempty
  have hsame : inlined opcodes inputs start n = line := hline
  have hstart : Follows opcodes (.running start) (line, .running start) :=
    .running rfl hempty hunfolds
  rw [hsame]
  constructor
  · apply Set.infinite_of_forall_exists_gt
    intro m
    obtain ⟨k, hk, hworks⟩ := exists_works hstart (m + 1)
    exact ⟨k, hworks, hk⟩
  · intro m
    exact (follows_run inputs' hstart m).sameOutcome

/-- A subroutine that sets pin 0, called twice. -/
def calledTwice : ℕ → UInt8 :=
  loadProgram [0x15, 0, 12, 0, 0x15, 0, 12, 0, 0xFF, 0, 0, 0, 0x01, 0, 1, 0, 0x16, 0, 0, 0]
    fun _ => 0

theorem subroutines_inline_twice :
    inlined calledTwice lowInputs (blankState calledTwice 20) 7 =
        [.setPins 1, .setPins 1, .exit] ∧
      ∀ inputs m, SameOutcome (run calledTwice inputs (blankState calledTwice 20) m)
        (runLine (inlined calledTwice lowInputs (blankState calledTwice 20) 7)
          (inputs ∘ Nat.nth (Works calledTwice inputs (blankState calledTwice 20)))
          (blankState calledTwice 20)
          (Nat.count (Works calledTwice inputs (blankState calledTwice 20)) m)).2 := by
  obtain ⟨t, hexit⟩ : ∃ t, run calledTwice lowInputs (blankState calledTwice 20) 7 = .exited t :=
    ⟨_, rfl⟩
  exact ⟨rfl, fun inputs => (subroutines_inline rfl hexit inputs).2⟩

end Not232
