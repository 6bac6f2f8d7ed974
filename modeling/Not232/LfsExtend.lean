import Not232.LfsAlloc
import Not232.LfsCalls
import Not232.LfsFileRead

/-!
# Growing a file

A file that is written at its end gets a new block. It is a copy of the last block if that has room,
and else a block of pointers back behind it. The blocks that the file has stay as they are, and the
list with the new block holds the same bytes and can be written behind them.
-/

namespace Not232

/-- What the allocator and the device do when a block is tried. The half-words that fail are given
by the program call and the turn in it. -/
structure ExtendTry where
  alloc : Except Int32 UInt32
  erase : EraseOutcome
  status : ℕ → ℕ → ℕ → FlashStatus

inductive ExtendStop
  | done (block : UInt32) (off : ℕ)
  | fail (err : Int32)
  | relocate

/-- How an error of an erase or of a program call goes on. -/
def progStop (err : Int32) : ExtendStop := if err = lfsErrCorrupt then .relocate else .fail err

/-- Copies `n` bytes from offset `i` on; `none` is the end of the loop. -/
def copyLoop (status : ℕ → ℕ → ℕ → FlashStatus) (head nblock : UInt32) :
    (n i : ℕ) → Bd → Option (Option ExtendStop × Bd)
  | 0, _, s => some (none, s)
  | n + 1, i, s =>
    match (BdCall.read false (n + 1) head i 1).run s with
    | none => none
    | some (err, data, s) =>
      if err ≠ 0 then some (some (.fail err), s)
      else
        match (BdCall.prog true (status i) nblock i data).run s with
        | none => none
        | some (err, _, s) =>
          if err ≠ 0 then some (some (progStop err), s)
          else copyLoop status head nblock n (i + 1) s

/-- Writes `n` pointers from the `i`th one on. -/
def pointerLoop (status : ℕ → ℕ → ℕ → FlashStatus) (nblock : UInt32) :
    (n i : ℕ) → UInt32 → Bd → Option (Option ExtendStop × Bd)
  | 0, _, _, s => some (none, s)
  | n + 1, i, nhead, s =>
    match (BdCall.prog true (status i) nblock (4 * i) (leBytes nhead).toList).run s with
    | none => none
    | some (err, _, s) =>
      if err ≠ 0 then some (some (progStop err), s)
      else if n = 0 then some (none, s)
      else
        match (BdCall.read false 4 nhead (4 * i) 4).run s with
        | none => none
        | some (err, data, s) =>
          if err ≠ 0 then some (some (.fail err), s)
          else pointerLoop status nblock n (i + 1) (headAt data 0) s

def extendBlock (t : ExtendTry) (nblock head : UInt32) (size : ℕ) (s : Bd) :
    Option (ExtendStop × Bd) :=
  match (BdCall.erase nblock t.erase).run s with
  | none => none
  | some (err, _, s) =>
    if err ≠ 0 then some (progStop err, s)
    else if size = 0 then some (.done nblock 0, s)
    else
      let (index, off) := lfsCtzIndex (size - 1)
      let noff := off + 1
      if noff ≠ blockSize then
        (copyLoop t.status head nblock noff 0 s).map
          fun r => (r.1.getD (.done nblock noff), r.2)
      else
        let skips := lfsCtz (index + 1) + 1
        (pointerLoop t.status nblock skips 0 head s).map
          fun r => (r.1.getD (.done nblock (4 * skips)), r.2)

/-- The block and the offset to write at, if `fuel` tries from the `k`th one on are enough. -/
def lfsCtzExtend (tries : ℕ → ExtendTry) (head : UInt32) (size : ℕ) :
    (fuel k : ℕ) → Bd → Option (Except Int32 (UInt32 × ℕ) × Bd)
  | 0, _, _ => none
  | fuel + 1, k, s =>
    match (tries k).alloc with
    | .error err => some (.error err, s)
    | .ok nblock =>
      match extendBlock (tries k) nblock head size s with
      | none => none
      | some (.done block off, s) => some (.ok (block, off), s)
      | some (.fail err, s) => some (.error err, s)
      | some (.relocate, s) =>
        lfsCtzExtend tries head size fuel (k + 1) { s with pcache := s.pcache.drop }

/-! ### A block that is written from its start -/

/-- The bytes of a block up to an offset have been programmed, and those behind it are blank. The
other blocks are as before. -/
structure Writing (a₀ : Programs) (block : UInt32) (content : ℕ → Option UInt8) (i : ℕ)
    (a : Programs) : Prop where
  synced : ∀ b ≠ block, a.synced b = a₀.synced b
  others : ∀ b ≠ block, a.image b = a₀.image b
  written : ∀ o < i, a.image block o = content o
  blank : ∀ o, i + i % 2 ≤ o → a.blank block o
  cursor : i = 0 ∧ a.cursor = .idle ∨ a.cursor = .behind block i

/-- How a loop of program calls ends: at its last byte, or at a half-word that has failed. -/
inductive Wrote (a₀ : Programs) (block : UInt32) (content : ℕ → Option UInt8)
    (status : ℕ → ℕ → ℕ → FlashStatus) (last : ℕ) : Option ExtendStop → Programs → Prop
  | all {a : Programs} (h : Writing a₀ block content last a) :
      Wrote a₀ block content status last none a
  | failed {a : Programs} (hothers : ∀ b ≠ block, a.image b = a₀.image b)
      (hfault : ∃ i j k, status i j k ≠ .complete) :
      Wrote a₀ block content status last (some (.fail lfsErrIo)) a

variable {a a₀ : Programs} {s : Bd} {block head : UInt32} {content : ℕ → Option UInt8}
  {status : ℕ → ℕ → ℕ → FlashStatus} {i n : ℕ} {data : List UInt8} {node : ℕ → UInt32}

/-- An allowed call returns and leads on. -/
theorem BdReaches.next (h : BdReaches a s) {c : BdCall} (hc : c.Allowed a) :
    ∃ code data s', c.run s = some (code, data, s') ∧ c.Returns a code data ∧
      BdReaches (c.record code a) s' := by
  obtain ⟨code, data, s', hrun, hreturns, -⟩ := h.stands.call hc
  exact ⟨code, data, s', hrun, hreturns, .call c h hc hrun⟩

theorem progStop_io : progStop lfsErrIo = .fail lfsErrIo := by
  unfold progStop
  exact if_neg (by decide)

namespace Writing

theorem allowed (h : Writing a₀ block content i a) (hblock : block < 40)
    (hfits : i + data.length ≤ 4096) (turns : ℕ → ℕ → FlashStatus) :
    (BdCall.prog true turns block i data).Allowed a := by
  refine ⟨hblock, hfits, ?_, fun o ho _ => h.blank o ho⟩
  rcases h.cursor with ⟨hzero, hidle⟩ | hbehind
  · right
    rw [hzero]
    exact ⟨hidle, rfl⟩
  · exact Or.inl hbehind

theorem prog (h : Writing a₀ block content i a)
    (hdata : ∀ j < data.length, content (i + j) = data[j]?) :
    Writing a₀ block content (i + data.length) (a.prog true block i data) where
  synced := h.synced
  others := by
    intro b hb
    rw [← h.others b hb]
    funext o
    exact if_neg fun hin => hb hin.1
  written := by
    intro o ho
    change (if block = block ∧ i ≤ o ∧ o < i + data.length then data[o - i]? else a.image block o)
      = content o
    by_cases hnew : i ≤ o
    · have hsum : i + (o - i) = o := by omega
      rw [if_pos ⟨rfl, hnew, ho⟩, ← hdata (o - i) (by omega), hsum]
    · rw [if_neg fun hin => hnew hin.2.1]
      exact h.written o (by omega)
  blank := by
    intro o ho
    refine ⟨h.blank o (by omega), ?_⟩
    rintro ⟨-, -, hover⟩
    omega
  cursor := Or.inr rfl

theorem prog_fail (h : Writing a₀ block content i a) :
    ∀ b ≠ block, (a.prog true block i data).fail.image b = a₀.image b := by
  intro b hb
  rw [← h.others b hb]
  funext o
  change (if b = block then none else a.image.put block i data b o) = a.image b o
  rw [if_neg hb]
  exact if_neg fun hin => hb hin.1

/-- A program call writes its bytes or stops the loop. -/
theorem call (h : Writing a₀ block content i a) (hreaches : BdReaches a s) (hblock : block < 40)
    (hfits : i + data.length ≤ 4096) (hdata : ∀ j < data.length, content (i + j) = data[j]?)
    (status : ℕ → ℕ → ℕ → FlashStatus) (k : ℕ) :
    ∃ code data' s' a', (BdCall.prog true (status k) block i data).run s = some (code, data', s') ∧
      BdReaches a' s' ∧
        (code = 0 ∧ Writing a₀ block content (i + data.length) a' ∨
          code ≠ 0 ∧ ∀ last, Wrote a₀ block content status last (some (progStop code)) a') := by
  obtain ⟨code, data', s', hrun, hreturns, hafter⟩ :=
    hreaches.next (h.allowed hblock hfits (status k))
  refine ⟨code, data', s', _, hrun, hafter, ?_⟩
  rcases hreturns with rfl | ⟨rfl, p, q, hfault⟩
  · exact Or.inl ⟨rfl, h.prog hdata⟩
  · right
    have hne : lfsErrIo ≠ 0 := by decide
    refine ⟨hne, fun last => ?_⟩
    rw [progStop_io]
    apply Wrote.failed
    · rw [BdCall.record, if_neg hne]
      exact h.prog_fail
    · exact ⟨k, p, q, hfault⟩

end Writing

/-! ### The two loops -/

/-- Bytes that are known are copied. -/
theorem copyLoop_wrote (hreaches : BdReaches a s) (h : Writing a₀ block content i a)
    (hblock : block < 40) (hhead : head < 40) (hne : head ≠ block) (hfits : i + n ≤ 4096)
    (hknown : ∀ o, i ≤ o → o < i + n → ∃ v, a₀.synced head o = some v ∧ content o = some v) :
    ∃ r s' a', copyLoop status head block n i s = some (r, s') ∧ BdReaches a' s' ∧
      Wrote a₀ block content status (i + n) r a' := by
  induction n generalizing i a s with
  | zero => exact ⟨none, s, a, rfl, hreaches, .all h⟩
  | succ n ih =>
    obtain ⟨v, hstored, hcontent⟩ := hknown i (le_refl i) (by omega)
    obtain ⟨code, data, s₁, hread, ⟨rfl, hlength, hagrees⟩, hreaches₁⟩ :=
      hreaches.next (c := .read false (n + 1) head i 1) ⟨hhead, by omega, by omega, by omega⟩
    have hbyte : data = [v] := by
      obtain ⟨w, rfl⟩ := List.length_eq_one_iff.mp hlength
      have hfirst := hagrees 0 (by rw [hlength]; decide) v (by
        change a.synced head (i + 0) = some v
        rw [h.synced head hne, Nat.add_zero, hstored])
      rw [List.getElem?_cons_zero, Option.some.injEq] at hfirst
      rw [hfirst]
    subst hbyte
    have hdata : ∀ j < [v].length, content (i + j) = [v][j]? := by
      intro j hj
      have hzero : j = 0 := by
        rw [List.length_singleton] at hj
        omega
      rw [hzero, Nat.add_zero, hcontent, List.getElem?_cons_zero]
    obtain ⟨code, data', s₂, a₂, hprog, hreaches₂, hwrote⟩ :=
      h.call hreaches₁ hblock (by rw [List.length_singleton]; omega) hdata status i
    have hsum : i + 1 + n = i + (n + 1) := by omega
    rw [copyLoop, hread]
    dsimp only
    rw [if_neg (not_not.mpr rfl), hprog]
    dsimp only
    rcases hwrote with ⟨rfl, hwriting⟩ | ⟨hcode, hfailed⟩
    · rw [if_neg (not_not.mpr rfl), ← hsum]
      apply ih hreaches₂ hwriting (by omega)
      intro o ho hlt
      exact hknown o (by omega) (by omega)
    · rw [if_pos hcode]
      exact ⟨_, s₂, a₂, rfl, hreaches₂, hfailed _⟩

/-- Behind a hop that is shorter than the last one, the next pointer is that of the same level. -/
theorem next_pointer {image : Programmed} {m : ℕ} (hlist : CtzList image node (m - 1))
    (hi : i < lfsCtz m) :
    node (m - 2 ^ i) < 40 ∧ m - 2 ^ i ≤ m - 1 ∧
      Points image (node (m - 2 ^ i)) (4 * i) (node (m - 2 ^ (i + 1))) := by
  have hne : m ≠ 0 := by
    rintro rfl
    rw [lfsCtz, padicValNat_zero_right] at hi
    exact Nat.not_lt_zero i hi
  have hpow : 2 ^ (i + 1) ≤ m := SkipList.pow_le_of_le_padicValNat hne hi
  have hdouble : 2 ^ (i + 1) = 2 * 2 ^ i := pow_succ' 2 i
  have hpos : 0 < 2 ^ i := Nat.two_pow_pos i
  have hctz : lfsCtz (m - 2 ^ i) = i := SkipList.padicValNat_sub_pow hi
  have hle : m - 2 ^ i ≤ m - 1 := by omega
  refine ⟨hlist.block _ hle, hle, ?_⟩
  have hpoints := hlist.pointer (m - 2 ^ i) hle i (by rw [hctz]) (by omega)
  have hsub : m - 2 ^ i - 2 ^ i = m - 2 ^ (i + 1) := by omega
  rwa [hsub] at hpoints

/-- The pointers of a block behind the list. -/
theorem pointerLoop_wrote {m : ℕ} (hreaches : BdReaches a s)
    (h : Writing a₀ block content (4 * i) a) (hblock : block < 40)
    (hlist : CtzList a₀.synced node (m - 1)) (hfresh : ∀ c ≤ m - 1, node c ≠ block)
    (hm : m < 2 ^ 32) (hleft : i + n = lfsCtz m + 1)
    (hcontent : ∀ k ≤ lfsCtz m, ∀ j < 4,
      content (4 * k + j) = (leBytes (node (m - 2 ^ k))).toList[j]?) :
    ∃ r s' a', pointerLoop status block n i (node (m - 2 ^ i)) s = some (r, s') ∧ BdReaches a' s' ∧
      Wrote a₀ block content status (4 * (i + n)) r a' := by
  induction n generalizing i a s with
  | zero => exact ⟨none, s, a, rfl, hreaches, .all h⟩
  | succ n ih =>
    have hsmall : lfsCtz m < 32 := lfsCtz_lt hm
    have hlength : (leBytes (node (m - 2 ^ i))).toList.length = 4 := leBytes_length _
    have hdata : ∀ j < (leBytes (node (m - 2 ^ i))).toList.length,
        content (4 * i + j) = (leBytes (node (m - 2 ^ i))).toList[j]? := by
      intro j hj
      exact hcontent i (by omega) j (by omega)
    obtain ⟨code, data', s₁, a₁, hprog, hreaches₁, hwrote⟩ :=
      h.call hreaches hblock (by omega) hdata status i
    rw [pointerLoop, hprog]
    dsimp only
    rcases hwrote with ⟨rfl, hwriting⟩ | ⟨hcode, hfailed⟩
    · rw [if_neg (not_not.mpr rfl)]
      rw [hlength] at hwriting
      by_cases hlast : n = 0
      · rw [if_pos hlast, hlast]
        exact ⟨none, s₁, a₁, rfl, hreaches₁, .all hwriting⟩
      · obtain ⟨hnode, hle, hpoints⟩ := next_pointer hlist (by omega : i < lfsCtz m)
        obtain ⟨code, data, s₂, hread, ⟨rfl, hfour, hagrees⟩, hreaches₂⟩ :=
          hreaches₁.next (c := .read false 4 (node (m - 2 ^ i)) (4 * i) 4)
            ⟨hnode, by omega, by decide, by decide⟩
        have hknown : Points a₁.synced (node (m - 2 ^ i)) (4 * i) (node (m - 2 ^ (i + 1))) := by
          intro j hj
          rw [hwriting.synced _ (hfresh _ hle)]
          exact hpoints j hj
        have hword : headAt data 0 = node (m - 2 ^ (i + 1)) := by
          have hbytes : headAt ([] ++ ((leBytes (node (m - 2 ^ (i + 1)))).toList ++ [])) 0 = _ :=
            headAt_append rfl _ _
          rw [List.nil_append, List.append_nil] at hbytes
          rw [eq_leBytes hfour hagrees hknown, hbytes]
        have hnext : 4 * i + 4 = 4 * (i + 1) := rfl
        have hsum : i + 1 + n = i + (n + 1) := by omega
        rw [hnext] at hwriting
        rw [if_neg hlast, hread]
        dsimp only
        rw [if_neg (not_not.mpr rfl), hword, ← hsum]
        exact ih hreaches₂ hwriting (by omega)
    · rw [if_pos hcode]
      exact ⟨_, s₁, a₁, rfl, hreaches₁, hfailed _⟩

/-! ### The new block in the list -/

/-- The first blocks hold the bytes of the file, and it can be written behind them. -/
structure Writable (node : ℕ → UInt32) (data : List UInt8) (m off : ℕ) (a : Programs) : Prop where
  list : CtzList a.image node m
  content : ∀ pos i o, pos < data.length → CtzAt pos i o → a.image (node i) o = data[pos]?
  position : CtzAt data.length m off
  blank : ∀ o, off + off % 2 ≤ o → a.blank (node m) o
  cursor : off = 0 ∧ a.cursor = .idle ∨ a.cursor = .behind (node m) off

/-- A file starts in an empty block. -/
theorem Writing.writable_zero (h : Writing a₀ block content 0 a) (hblock : block < 40) :
    Writable (Function.update node 0 block) [] 0 0 a where
  list := by
    constructor
    · intro i hi
      rw [Nat.le_zero.mp hi, Function.update_self]
      exact hblock
    · intro i hi k _ hpos
      omega
  content := fun _ _ _ hpos => absurd hpos (Nat.not_lt_zero _)
  position := ⟨le_refl 0, by decide, rfl⟩
  blank := by
    intro o ho
    rw [Function.update_self]
    exact h.blank o ho
  cursor := by
    rw [Function.update_self]
    exact h.cursor

theorem le_ctzStart (hn : n < 2 ^ 32) : n ≤ ctzStart n := by
  induction n with
  | zero => exact Nat.zero_le _
  | succ n ih =>
    have hbefore := ih (by omega)
    have hheader := ctzHeader_le (by omega : n < 2 ^ 32)
    rw [ctzStart_succ]
    change n + 1 ≤ ctzStart n + (4096 - ctzHeader n)
    omega

section Grown

variable {last : ℕ} (hfile : StoredFile a₀.image node data) (hpos : 0 < data.length)
  (hlast : CtzAt (data.length - 1) n last) (hblock : block < 40)
  (hfresh : ∀ i ≤ n, node i ≠ block)
include hfile hpos hlast hblock hfresh

/-- The blocks but the new one are those of the file. -/
theorem kept_list {m : ℕ} (hothers : ∀ b ≠ block, a.image b = a₀.image b) (hm : n ≤ m)
    (hpointer : ∀ k ≤ lfsCtz m, 0 < m → Points a.image block (4 * k) (node (m - 2 ^ k)))
    (hbelow : ∀ i ≤ m, i ≠ m → i ≤ n) : CtzList a.image (Function.update node m block) m := by
  have hlist := hfile.list n last hpos hlast
  constructor
  · intro i hi
    by_cases hnew : i = m
    · rw [hnew, Function.update_self]
      exact hblock
    · rw [Function.update_of_ne hnew]
      exact hlist.block i (hbelow i hi hnew)
  · intro i hi k hk hpositive j hj
    have hpow := Nat.two_pow_pos k
    have htarget : i - 2 ^ k ≠ m := by omega
    rw [Function.update_of_ne htarget]
    by_cases hnew : i = m
    · subst hnew
      rw [Function.update_self]
      exact hpointer k hk hpositive j hj
    · have hold := hbelow i hi hnew
      rw [Function.update_of_ne hnew, hothers _ (hfresh i hold)]
      exact hlist.pointer i hold k hk hpositive j hj

variable (hn : n < 2 ^ 31)
include hn

/-- The last block is copied as far as it is written. -/
theorem Writing.writable_copy (h : Writing a₀ block (a₀.image (node n)) (last + 1) a)
    (hroom : last + 1 ≠ 4096) :
    Writable (Function.update node n block) data n (last + 1) a where
  list := by
    apply kept_list hfile hpos hlast hblock hfresh h.others (le_refl n)
    · intro k hk hpositive j hj
      have hheader := (hlast.off_lt (by omega)).1
      have hsize : ctzHeader n = 4 * (lfsCtz n + 1) := if_neg (by omega)
      rw [h.written (4 * k + j) (by omega)]
      exact (hfile.list n last hpos hlast).pointer n (le_refl n) k hk hpositive j hj
    · exact fun i hi _ => hi
  content := by
    intro pos i o hlt hat
    have hle : i ≤ n := hat.index_mono hlast (by omega)
    rw [← hfile.content pos i o hlt hat]
    by_cases hnew : i = n
    · subst hnew
      have hoff := hat.off
      have hend := hlast.off
      have hstart := hat.start
      rw [Function.update_self]
      exact h.written o (by omega)
    · rw [Function.update_of_ne hnew, h.others _ (hfresh i hle)]
  position := by
    have hstart := hlast.start
    have hstop := hlast.stop
    have hoff := hlast.off
    have hlt := (hlast.off_lt (by omega)).2
    have hheader := ctzHeader_le (by omega : n < 2 ^ 32)
    rw [ctzStart_succ] at hstop
    refine ⟨by omega, ?_, by omega⟩
    rw [ctzStart_succ]
    change data.length < ctzStart n + (4096 - ctzHeader n)
    omega
  blank := by
    intro o ho
    rw [Function.update_self]
    exact h.blank o ho
  cursor := by
    rw [Function.update_self]
    exact h.cursor

/-- A full last block gets one behind it. -/
theorem Writing.writable_next (hfull : last + 1 = 4096)
    (h : Writing a₀ block content (4 * (lfsCtz (n + 1) + 1)) a)
    (hcontent : ∀ k ≤ lfsCtz (n + 1), ∀ j < 4,
      content (4 * k + j) = (leBytes (node (n + 1 - 2 ^ k))).toList[j]?) :
    Writable (Function.update node (n + 1) block) data (n + 1) (4 * (lfsCtz (n + 1) + 1)) a where
  list := by
    apply kept_list hfile hpos hlast hblock hfresh h.others (Nat.le_succ n)
    · intro k hk _ j hj
      have hle : k ≤ lfsCtz (n + 1) := hk
      rw [h.written (4 * k + j) (by omega)]
      exact hcontent k hle j hj
    · intro i hi hne
      omega
  content := by
    intro pos i o hlt hat
    have hle : i ≤ n := hat.index_mono hlast (by omega)
    rw [← hfile.content pos i o hlt hat, Function.update_of_ne (by omega),
      h.others _ (hfresh i hle)]
  position := by
    have hstart := hlast.start
    have hoff := hlast.off
    have hheader := ctzHeader_le (by omega : n < 2 ^ 32)
    have hnext := ctzHeader_le (by omega : n + 1 < 2 ^ 32)
    have hbegin : ctzStart (n + 1) = data.length := by
      rw [ctzStart_succ]
      change ctzStart n + (4096 - ctzHeader n) = data.length
      omega
    have hsize : ctzHeader (n + 1) = 4 * (lfsCtz (n + 1) + 1) := if_neg (Nat.succ_ne_zero n)
    refine ⟨by omega, ?_, by omega⟩
    rw [ctzStart_succ, hbegin]
    change data.length < data.length + (4096 - ctzHeader (n + 1))
    omega
  blank := by
    intro o ho
    rw [Function.update_self]
    exact h.blank o ho
  cursor := by
    rw [Function.update_self]
    exact h.cursor

end Grown

/-! ### Extending a file -/

/-- The hardware fails at the erase or at a half-word. -/
def ExtendTry.Fails (t : ExtendTry) : Prop :=
  t.erase.status ≠ .complete ∨ ∃ i j k, t.status i j k ≠ .complete

/-- What a try leaves: a block that takes the place in the list at which the file goes on, or an
error of the hardware. -/
inductive Extended (t : ExtendTry) (node : ℕ → UInt32) (data : List UInt8) (block : UInt32) :
    ExtendStop → Programs → Prop
  | done {m off : ℕ} {a : Programs}
      (h : Writable (Function.update node m block) data m off a) :
      Extended t node data block (.done block off) a
  | failed {a : Programs} (h : t.Fails) : Extended t node data block (.fail lfsErrIo) a

/-- The bytes of the last block are known up to the end of the file. -/
theorem last_known (hfile : StoredFile a.image node data) (hpos : 0 < data.length) {last : ℕ}
    (hlast : CtzAt (data.length - 1) n last) (hn : n < 2 ^ 32) {o : ℕ} (ho : o ≤ last) :
    ∃ v, a.image (node n) o = some v := by
  have hstart := hlast.start
  have hstop := hlast.stop
  have hend := hlast.off
  obtain ⟨hheader, hlt⟩ := hlast.off_lt hn
  by_cases hpointer : o < ctzHeader n
  · have hzero : n ≠ 0 := by
      rintro rfl
      exact Nat.not_lt_zero o hpointer
    have hsize : ctzHeader n = 4 * (lfsCtz n + 1) := if_neg hzero
    have hlist := hfile.list n last hpos hlast
    have hbyte := hlist.pointer n (le_refl n) (o / 4) (by omega) (by omega) (o % 4) (by omega)
    have hsum : 4 * (o / 4) + o % 4 = o := by omega
    have hin : o % 4 < (leBytes (node (n - 2 ^ (o / 4)))).toList.length := by
      rw [leBytes_length]
      omega
    rw [hsum, List.getElem?_eq_getElem hin] at hbyte
    exact ⟨_, hbyte⟩
  · have hin : ctzStart n + (o - ctzHeader n) < data.length := by omega
    have hat : CtzAt (ctzStart n + (o - ctzHeader n)) n o := ⟨by omega, by omega, by omega⟩
    have hbyte := hfile.content _ n o hin hat
    rw [List.getElem?_eq_getElem hin] at hbyte
    exact ⟨_, hbyte⟩

section Extend

variable {t : ExtendTry} (hfile : StoredFile a.image node data) (hsame : a.synced = a.image)
  (hblock : block < 40) (hfresh : ∀ i, ctzStart i < data.length → node i ≠ block)
include hfile hsame hblock hfresh

/-- A file that is not empty. -/
theorem extend_nonempty {a₁ : Programs} (hreaches : BdReaches a₁ s)
    (hwriting : ∀ content, Writing a block content 0 a₁) (hpos : 0 < data.length) {last : ℕ}
    (hlast : CtzAt (data.length - 1) n last) (hn : n < 2 ^ 31) :
    (last + 1 ≠ 4096 → ∃ r s' a', copyLoop t.status (node n) block (last + 1) 0 s =
        some (r, s') ∧ BdReaches a' s' ∧ (∀ b ≠ block, a'.image b = a.image b) ∧
          Extended t node data block (r.getD (.done block (last + 1))) a') ∧
      (last + 1 = 4096 → ∃ r s' a', pointerLoop t.status block (lfsCtz (n + 1) + 1) 0 (node n) s =
        some (r, s') ∧ BdReaches a' s' ∧ (∀ b ≠ block, a'.image b = a.image b) ∧
          Extended t node data block (r.getD (.done block (4 * (lfsCtz (n + 1) + 1)))) a') := by
  have hlist := hfile.list n last hpos hlast
  have hbefore : ∀ i ≤ n, node i ≠ block := by
    intro i hi
    have hmono := ctzStart_mono hi
    have hstart := hlast.start
    exact hfresh i (by omega)
  obtain ⟨hheader, hlt⟩ := hlast.off_lt (by omega)
  constructor
  · intro hroom
    have hknown : ∀ o, 0 ≤ o → o < 0 + (last + 1) →
        ∃ v, a.synced (node n) o = some v ∧ a.image (node n) o = some v := by
      intro o _ ho
      obtain ⟨v, hv⟩ := last_known hfile hpos hlast (by omega) (by omega : o ≤ last)
      exact ⟨v, by rw [hsame, hv], hv⟩
    obtain ⟨r, s', a', hrun, hreaches', hwrote⟩ := copyLoop_wrote (n := last + 1) hreaches
      (hwriting (a.image (node n))) hblock (hlist.block n (le_refl n)) (hbefore n (le_refl n))
      (by omega) hknown
    refine ⟨r, s', a', hrun, hreaches', ?_⟩
    rw [Nat.zero_add] at hwrote
    cases hwrote with
    | all h => exact ⟨h.others, .done (h.writable_copy hfile hpos hlast hblock hbefore hn hroom)⟩
    | failed hothers hfault => exact ⟨hothers, .failed (Or.inr hfault)⟩
  · intro hfull
    have hcontent : ∀ k ≤ lfsCtz (n + 1), ∀ j < 4,
        (leBytes (node (n + 1 - 2 ^ ((4 * k + j) / 4)))).toList[(4 * k + j) % 4]? =
          (leBytes (node (n + 1 - 2 ^ k))).toList[j]? := by
      intro k _ j hj
      have hdiv : (4 * k + j) / 4 = k := by omega
      have hmod : (4 * k + j) % 4 = j := by omega
      rw [hdiv, hmod]
    have hsynced : CtzList a.synced node (n + 1 - 1) := by
      rw [hsame]
      exact hlist
    obtain ⟨r, s', a', hrun, hreaches', hwrote⟩ := pointerLoop_wrote (i := 0) (m := n + 1)
      (n := lfsCtz (n + 1) + 1) hreaches
      (hwriting fun o => (leBytes (node (n + 1 - 2 ^ (o / 4)))).toList[o % 4]?) hblock hsynced
      hbefore (by omega) (Nat.zero_add _) hcontent
    refine ⟨r, s', a', hrun, hreaches', ?_⟩
    rw [Nat.zero_add] at hwrote
    cases hwrote with
    | all h =>
      exact ⟨h.others, .done (h.writable_next hfile hpos hlast hblock hbefore hn hfull hcontent)⟩
    | failed hothers hfault => exact ⟨hothers, .failed (Or.inr hfault)⟩

/-- A try leaves the other blocks as they are. -/
theorem extendBlock_extends (hreaches : BdReaches a s) (hidle : a.cursor = .idle)
    (hhead : ∀ n last, 0 < data.length → CtzAt (data.length - 1) n last → head = node n) :
    ∃ r s' a', extendBlock t block head data.length s = some (r, s') ∧ BdReaches a' s' ∧
      (∀ b ≠ block, a'.image b = a.image b) ∧ Extended t node data block r a' := by
  have herase : (BdCall.erase block t.erase).Allowed a := by
    refine ⟨hblock, fun off hbehind => ?_, fun hfailed => ?_⟩
    · cases hidle.symm.trans hbehind
    · cases hidle.symm.trans hfailed
  obtain ⟨code, _, s₁, hrun, hreturns, hreaches₁⟩ := hreaches.next herase
  have hothers : ∀ b ≠ block, (a.erase block (code = 0)).image b = a.image b := by
    intro b hb
    funext o
    exact if_neg hb
  rw [extendBlock, hrun]
  dsimp only
  by_cases hcode : code ≠ 0
  · have hfails : t.erase.status ≠ .complete :=
      fun hcomplete => hcode (hreturns.trans (if_pos hcomplete))
    have hio : code = lfsErrIo := hreturns.trans (if_neg hfails)
    rw [if_pos hcode, hio, progStop_io]
    exact ⟨_, s₁, _, rfl, hreaches₁, hothers, .failed (Or.inl hfails)⟩
  rw [if_neg hcode]
  have hwriting : ∀ content, Writing a block content 0 (a.erase block (code = 0)) := by
    intro content
    constructor
    · intro b hb
      funext o
      exact if_neg hb
    · exact hothers
    · exact fun o ho => absurd ho (Nat.not_lt_zero o)
    · intro o _
      change if block = block then decide (code = 0) = true else a.blank block o
      rw [if_pos rfl, not_not.mp hcode]
      rfl
    · exact Or.inl ⟨rfl, hidle⟩
  by_cases hsize : data.length = 0
  · obtain rfl := List.length_eq_zero_iff.mp hsize
    rw [if_pos hsize]
    exact ⟨_, s₁, _, rfl, hreaches₁, hothers,
      .done ((hwriting (fun _ => none)).writable_zero hblock)⟩
  · have hmax : data.length ≤ 2147483647 := hfile.length
    have hpos : 0 < data.length := Nat.pos_of_ne_zero hsize
    have hlast := lfsCtzIndex_at (by omega : data.length - 1 < 2 ^ 32)
    have hbound := le_ctzStart (lfsCtzIndex_lt (by omega : data.length - 1 < 2 ^ 32))
    have hstart := hlast.start
    obtain ⟨hcopy, hnext⟩ := extend_nonempty hfile hsame hblock hfresh hreaches₁ hwriting hpos hlast
      (by omega)
    rw [if_neg hsize, hhead _ _ hpos hlast]
    by_cases hroom : (lfsCtzIndex (data.length - 1)).2 + 1 ≠ blockSize
    · obtain ⟨r, s', a', hloop, hreaches', hkept, hextended⟩ := hcopy hroom
      rw [if_pos hroom, hloop, Option.map_some]
      exact ⟨_, s', a', rfl, hreaches', hkept, hextended⟩
    · obtain ⟨r, s', a', hloop, hreaches', hkept, hextended⟩ := hnext (not_not.mp hroom)
      rw [if_neg hroom, hloop, Option.map_some]
      exact ⟨_, s', a', rfl, hreaches', hkept, hextended⟩

end Extend

/-- A file keeps its bytes if its blocks do. -/
theorem StoredFile.kept {image image' : Programmed} (hfile : StoredFile image node data)
    (hkept : ∀ i, ctzStart i < data.length → image' (node i) = image (node i)) :
    StoredFile image' node data where
  length := hfile.length
  list := by
    intro n last hpos hlast
    have hlist := hfile.list n last hpos hlast
    refine ⟨hlist.block, fun i hi k hk hpositive j hj => ?_⟩
    have hmono := ctzStart_mono hi
    have hstart := hlast.start
    rw [hkept i (by omega)]
    exact hlist.pointer i hi k hk hpositive j hj
  content := by
    intro pos i o hpos hat
    rw [hkept i (hat.start.trans_lt hpos)]
    exact hfile.content pos i o hpos hat

/-- What is returned: a block and an offset at which the file goes on, the error of the allocator,
or an error because the hardware has failed. -/
def Grown (t : ExtendTry) (node : ℕ → UInt32) (data : List UInt8) (a : Programs) :
    Except Int32 (UInt32 × ℕ) → Prop
  | .ok (block, off) =>
    t.alloc = .ok block ∧ ∃ m, Writable (Function.update node m block) data m off a
  | .error err => t.alloc = .error err ∨ err = lfsErrIo ∧ t.Fails

/-- Only a corrupt block is tried again, and no call returns that error. So the first block that the
allocator hands out extends the file, or the hardware has failed. -/
theorem lfsCtzExtend_extends {tries : ℕ → ExtendTry} {k : ℕ} (fuel : ℕ) (hreaches : BdReaches a s)
    (hidle : a.cursor = .idle) (hsame : a.synced = a.image) (hfile : StoredFile a.image node data)
    (hhead : ∀ n last, 0 < data.length → CtzAt (data.length - 1) n last → head = node n)
    (halloc : ∀ block, (tries k).alloc = .ok block →
      block < 40 ∧ ∀ i, ctzStart i < data.length → node i ≠ block) :
    ∃ r s' a', lfsCtzExtend tries head data.length (fuel + 1) k s = some (r, s') ∧
      BdReaches a' s' ∧ Grown (tries k) node data a' r ∧ StoredFile a'.image node data ∧
      ∀ b, (tries k).alloc ≠ .ok b → a'.image b = a.image b := by
  rw [lfsCtzExtend]
  cases hgiven : (tries k).alloc with
  | error err => exact ⟨_, s, a, rfl, hreaches, Or.inl hgiven, hfile, fun _ _ => rfl⟩
  | ok block =>
    obtain ⟨hblock, hfresh⟩ := halloc block hgiven
    obtain ⟨r, s', a', hrun, hreaches', hkept, hextended⟩ :=
      extendBlock_extends hfile hsame hblock hfresh hreaches hidle hhead
    have hfile' := hfile.kept fun i hi => hkept (node i) (hfresh i hi)
    have hframe : ∀ b, Except.ok block ≠ (Except.ok b : Except Int32 UInt32) →
        a'.image b = a.image b := by
      intro b hb
      apply hkept
      rintro rfl
      exact hb rfl
    dsimp only
    rw [hrun]
    cases hextended with
    | done h => exact ⟨_, s', a', rfl, hreaches', ⟨hgiven, _, h⟩, hfile', hframe⟩
    | failed h => exact ⟨_, s', a', rfl, hreaches', Or.inr ⟨rfl, h⟩, hfile', hframe⟩

/-! ### With the allocator -/

/-- A block that is handed out is none of those that are in use. -/
theorem Returned.fresh {blocks : Blocks} {reports : ℕ → Int32 × List ℕ} {r : Allocation}
    (h : Returned blocks reports r) (hgiven : r.result.map UInt32.ofNat = .ok block) :
    block < 40 ∧ block.toNat ∉ blocks.tree ∪ blocks.inFlight := by
  unfold Returned at h
  cases hresult : r.result with
  | error err =>
    rw [hresult] at hgiven
    cases hgiven
  | ok number =>
    rw [hresult] at h hgiven
    obtain ⟨hlt, htree, hflight⟩ := h
    obtain rfl : UInt32.ofNat number = block := Except.ok.inj hgiven
    have hnumber : (UInt32.ofNat number).toNat = number :=
      UInt32.toNat_ofNat_of_lt' (hlt.trans (by decide))
    refine ⟨UInt32.lt_iff_toNat_lt.mpr (by rwa [hnumber]), ?_⟩
    rw [hnumber]
    exact fun hmem => hmem.elim htree hflight

/-- A file whose blocks are in use grows by the block that the allocator hands out. Whatever fails,
it is still in its old blocks. -/
theorem lfsCtzExtend_grows {tries : ℕ → ExtendTry} {k : ℕ} (fuel : ℕ) (hreaches : BdReaches a s)
    (hidle : a.cursor = .idle) (hsame : a.synced = a.image) (hfile : StoredFile a.image node data)
    (hhead : ∀ n last, 0 < data.length → CtzAt (data.length - 1) n last → head = node n)
    {blocks : Blocks} {lookahead : Lookahead} {reports : ℕ → Int32 × List ℕ}
    {allocation : Allocation} (hlookahead : AllocReaches blocks lookahead)
    (htraverses : Traverses blocks.tree reports)
    (halloc : lfsAlloc reports lookahead = some allocation)
    (hgiven : (tries k).alloc = allocation.result.map UInt32.ofNat)
    (hused : ∀ i, ctzStart i < data.length → (node i).toNat ∈ blocks.tree ∪ blocks.inFlight) :
    ∃ r s' a', lfsCtzExtend tries head data.length (fuel + 1) k s = some (r, s') ∧
      BdReaches a' s' ∧ Grown (tries k) node data a' r ∧ StoredFile a'.image node data ∧
      ∀ b, (tries k).alloc ≠ .ok b → a'.image b = a.image b := by
  obtain ⟨allocation', hrun, hreturned, -⟩ := hlookahead.knows.alloc htraverses
  obtain rfl : allocation = allocation' := Option.some.inj (halloc.symm.trans hrun)
  apply lfsCtzExtend_extends fuel hreaches hidle hsame hfile hhead
  intro block hblock
  obtain ⟨hlt, hfree⟩ := hreturned.fresh (hgiven.symm.trans hblock)
  refine ⟨hlt, fun i hi htaken => hfree ?_⟩
  rw [← htaken]
  exact hused i hi

/-- Three bytes that have been written to one block are copied to the first block. -/
theorem lfsCtzExtend_grows_three :
    ∃ a s, BdReaches a s ∧ a.image 3 2 = some 9 ∧ ∃ r s' a',
      lfsCtzExtend (fun _ => ⟨.ok 0, ⟨.complete, fun _ => 0, fun _ => false⟩,
        fun _ _ _ => .complete⟩) 3 3 1 0 s = some (r, s') ∧ BdReaches a' s' ∧
        Grown ⟨.ok 0, ⟨.complete, fun _ => 0, fun _ => false⟩, fun _ _ _ => .complete⟩
          (fun _ => 3) [7, 8, 9] a' r ∧ StoredFile a'.image (fun _ => 3) [7, 8, 9] ∧
        ∀ b, Except.ok 0 ≠ (Except.ok b : Except Int32 UInt32) → a'.image b = a.image b := by
  have hboot : BdReaches ⟨fun _ _ => none, fun _ _ => none, fun _ _ => none, fun _ _ => False,
      .idle⟩ ⟨⟨lfsBlockNull, 0, 0, fun _ => 0xFF⟩, ⟨lfsBlockNull, 0, 0, fun _ => 0xFF⟩,
        ⟨fun _ => 0, fun _ => true, true⟩⟩ := .boot rfl
  obtain ⟨code, _, s₁, -, rfl, hreaches₁⟩ := hboot.next
    (c := .erase 3 ⟨.complete, fun _ => 0xFF, fun _ => true⟩)
    ⟨by decide, fun _ => Cursor.noConfusion, Cursor.noConfusion⟩
  obtain ⟨code, _, s₂, -, hprog, hreaches₂⟩ := hreaches₁.next
    (c := .prog true (fun _ _ => .complete) 3 0 [7, 8, 9])
    ⟨by decide, by decide, .inr ⟨rfl, rfl⟩, fun _ _ _ => rfl⟩
  obtain rfl : code = 0 := hprog.resolve_right fun ⟨_, _, _, hfault⟩ => hfault rfl
  obtain ⟨code, _, s₃, -, hflush, hreaches₃⟩ := hreaches₂.next
    (c := .flush true fun _ => .complete) fun _ => Cursor.noConfusion
  obtain rfl : code = 0 := hflush.resolve_right fun ⟨_, _, hfault⟩ => hfault rfl
  have hfile : StoredFile (Programmed.put 3 0 [7, 8, 9]
      (Programmed.forget 3 fun _ _ => none)) (fun _ => 3) [7, 8, 9] := by
    apply StoredFile.single (by decide) (by decide)
    intro o ho
    have hend : o < 0 + 3 := by
      rw [Nat.zero_add]
      exact ho
    exact if_pos ⟨rfl, Nat.zero_le o, hend⟩
  have hmount := AllocReaches.mount {3} 0 ⟨0, 0, 0, 0, fun _ => false⟩
  have htraverses : Traverses {3} fun _ => (0, [3]) := by
    intro _
    have hquiet : (0 : Int32) ≠ lfsErrNospc := by decide
    refine ⟨hquiet, fun b hb => ?_, fun _ b => ?_⟩
    · rw [List.mem_singleton.mp hb]
      decide
    · rw [List.mem_singleton, Set.mem_singleton_iff]
  exact ⟨_, s₃, hreaches₃, rfl, lfsCtzExtend_grows (k := 0) 0 hreaches₃ rfl rfl hfile
    (fun _ _ _ _ => rfl) hmount htraverses rfl rfl fun _ _ => Or.inl rfl⟩

end Not232
