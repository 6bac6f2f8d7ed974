import Not232.LfsCache

/-!
# The block allocator

The allocator goes round the blocks of the device. A window of bits shows which of the next blocks
were in the tree when it was traversed last, and a count limits the way to one round between two
checkpoints. So a block is not handed out while it is in the tree, nor twice before a checkpoint.
-/

namespace Not232

def lookaheadSize : ℕ := 16
def lfsErrNospc : Int32 := -28

/-- The lookahead buffer is given bit by bit. -/
structure Lookahead where
  start : ℕ
  size : ℕ
  next : ℕ
  ckpoint : ℕ
  buffer : ℕ → Bool

def lfsAllocCkpoint (s : Lookahead) : Lookahead := { s with ckpoint := blockCount }

def lfsAllocDrop (s : Lookahead) : Lookahead := lfsAllocCkpoint { s with size := 0, next := 0 }

/-- The callback of the traversal. -/
def lfsAllocLookahead (s : Lookahead) (block : ℕ) : Lookahead :=
  let off := (sub32 block s.start + blockCount) % 2 ^ 32 % blockCount
  if off < s.size then { s with buffer := Function.update s.buffer off true } else s

/-- The new window, before the traversal. -/
def moveWindow (s : Lookahead) : Lookahead where
  start := (s.start + s.next) % blockCount
  next := 0
  size := min (8 * lookaheadSize) s.ckpoint
  ckpoint := s.ckpoint
  buffer := fun _ => false

/-- A traversal reports an error and the blocks that it has come to. -/
def lfsAllocScan (report : Int32 × List ℕ) (s : Lookahead) : Int32 × Lookahead :=
  let s := report.2.foldl lfsAllocLookahead (moveWindow s)
  if report.1 ≠ 0 then (report.1, lfsAllocDrop s) else (0, s)

namespace Lookahead

def advance (s : Lookahead) : Lookahead :=
  { s with next := s.next + 1, ckpoint := sub32 s.ckpoint 1 }

/-- Goes to the next free block of the window, which has `n` blocks left. -/
def skipUsed : (n : ℕ) → Lookahead → Lookahead
  | 0, s => s
  | n + 1, s => if s.buffer s.next then skipUsed n s.advance else s

/-- A free block is found unless the window is over. -/
theorem skipUsed_free {n : ℕ} {s : Lookahead} (hn : n = s.size - s.next)
    (hlt : (s.skipUsed n).next < (s.skipUsed n).size) :
    (s.skipUsed n).buffer (s.skipUsed n).next = false := by
  induction n generalizing s with
  | zero =>
    change s.next < s.size at hlt
    omega
  | succ n ih =>
    rw [skipUsed] at hlt ⊢
    cases hused : s.buffer s.next with
    | true =>
      rw [hused] at hlt
      apply ih _ hlt
      change n = s.size - (s.next + 1)
      omega
    | false => exact hused

end Lookahead

/-- What an allocation returns, the number of traversals that it has made and the allocator. -/
structure Allocation where
  result : Except Int32 ℕ
  scans : ℕ
  lookahead : Lookahead

/-- The loop of `lfs_alloc` behind `k` traversals, if `fuel` more are enough. -/
def allocLoop (reports : ℕ → Int32 × List ℕ) : (fuel k : ℕ) → Lookahead → Option Allocation
  | fuel, k, s =>
    let s := s.skipUsed (s.size - s.next)
    if s.next < s.size then
      let block := (s.start + s.next) % blockCount
      let s := s.advance
      some ⟨.ok block, k, s.skipUsed (s.size - s.next)⟩
    else if s.ckpoint = 0 then some ⟨.error lfsErrNospc, k, s⟩
    else
      match fuel with
      | 0 => none
      | fuel + 1 =>
        let (err, s) := lfsAllocScan (reports k) s
        if err ≠ 0 then some ⟨.error err, k + 1, s⟩ else allocLoop reports fuel (k + 1) s

/-- A round takes at most as many traversals as there are blocks. -/
def lfsAlloc (reports : ℕ → Int32 × List ℕ) (s : Lookahead) : Option Allocation :=
  allocLoop reports blockCount 0 s

/-! ### The blocks of the file system -/

/-- The blocks in the tree, those handed out since the last checkpoint, those in the tree when it
was traversed last, and those in it at any traversal from the last one before the checkpoint on. A
traversal that fails gives up what has been handed out, as a checkpoint does. -/
structure Blocks where
  tree : Set ℕ
  inFlight : Set ℕ
  scanned : Set ℕ
  seen : Set ℕ

namespace Blocks

def ckpoint (a : Blocks) : Blocks := { a with inFlight := ∅, seen := a.scanned }

def commit (tree : Set ℕ) (a : Blocks) : Blocks := { a with tree := tree }

def scan (a : Blocks) : Blocks := { a with scanned := a.tree, seen := a.seen ∪ a.tree }

def drop (a : Blocks) : Blocks := ⟨a.tree, ∅, ∅, ∅⟩

def give (block : ℕ) (a : Blocks) : Blocks := { a with inFlight := insert block a.inFlight }

def settle (r : Allocation) (a : Blocks) : Blocks :=
  match r.result with
  | .ok block => a.give block
  | .error err => if err = lfsErrNospc then a else a.drop

/-- What an allocation changes. -/
def after (r : Allocation) (a : Blocks) : Blocks := settle r (if r.scans = 0 then a else a.scan)

end Blocks

/-- A traversal without an error reports the blocks of the tree. -/
def Traverses (tree : Set ℕ) (reports : ℕ → Int32 × List ℕ) : Prop :=
  ∀ k, (reports k).1 ≠ lfsErrNospc ∧ (∀ b ∈ (reports k).2, b < 40) ∧
    ((reports k).1 = 0 → ∀ b, b ∈ (reports k).2 ↔ b ∈ tree)

/-- The states of the allocator: the tree grows by blocks that are handed out and not given up by a
checkpoint. -/
inductive AllocReaches : Blocks → Lookahead → Prop
  | mount (tree : Set ℕ) (seed : ℕ) (s : Lookahead) :
      AllocReaches ⟨tree, ∅, ∅, ∅⟩ (lfsAllocDrop { s with start := seed % blockCount })
  | ckpoint {a : Blocks} {s : Lookahead} (h : AllocReaches a s) :
      AllocReaches a.ckpoint (lfsAllocCkpoint s)
  | commit {a : Blocks} {s : Lookahead} (h : AllocReaches a s) (tree : Set ℕ)
      (hgrows : tree ⊆ a.tree ∪ a.inFlight) : AllocReaches (a.commit tree) s
  | alloc {a : Blocks} {s : Lookahead} (h : AllocReaches a s) {reports : ℕ → Int32 × List ℕ}
      (htraverses : Traverses a.tree reports) {r : Allocation}
      (hrun : lfsAlloc reports s = some r) : AllocReaches (a.after r) r.lookahead

/-- What an allocation returns: a block that is neither in the tree nor in flight, no block because
all of them are in flight or have been found in the tree, or the error of a traversal. -/
def Returned (a : Blocks) (reports : ℕ → Int32 × List ℕ) (r : Allocation) : Prop :=
  match r.result with
  | .ok block => block < 40 ∧ block ∉ a.tree ∧ block ∉ a.inFlight
  | .error err =>
    (err = lfsErrNospc ∧ ∀ b < 40, b ∈ a.inFlight ∨ b ∈ (a.after r).seen) ∨
      ∃ k, (reports k).1 = err ∧ err ≠ 0 ∧ err ≠ lfsErrNospc

/-! ### The window and the round -/

/-- The allocator knows its blocks. -/
structure Knows (a : Blocks) (s : Lookahead) : Prop where
  start : s.start < 40
  next : s.next ≤ s.size
  size : s.size ≤ 40
  room : s.size ≤ s.next + s.ckpoint
  round : s.ckpoint ≤ 40
  fresh : ∀ j < s.ckpoint, (s.start + s.next + j) % 40 ∉ a.inFlight
  spent : ∀ j < 40, s.ckpoint ≤ j → (s.start + s.next + j) % 40 ∈ a.inFlight ∪ a.seen
  free : ∀ i < s.size, s.next ≤ i → s.buffer i = false → (s.start + i) % 40 ∉ a.tree
  used : ∀ i < s.size, s.next ≤ i → s.buffer i = true → (s.start + i) % 40 ∈ a.scanned
  scanned : a.scanned ⊆ a.seen

variable {a : Blocks} {s : Lookahead} {reports : ℕ → Int32 × List ℕ}

namespace Knows

theorem mount (tree : Set ℕ) {s : Lookahead} (hstart : s.start < 40) :
    Knows ⟨tree, ∅, ∅, ∅⟩ (lfsAllocDrop s) where
  start := hstart
  next := le_refl 0
  size := Nat.zero_le 40
  room := Nat.zero_le _
  round := le_refl 40
  fresh := fun _ _ hmem => hmem
  spent := fun _ hj hle => absurd hle (Nat.not_le_of_lt hj)
  free := fun i hi => absurd hi (Nat.not_lt_zero i)
  used := fun i hi => absurd hi (Nat.not_lt_zero i)
  scanned := le_refl _

theorem ckpoint (h : Knows a s) : Knows a.ckpoint (lfsAllocCkpoint s) where
  start := h.start
  next := h.next
  size := h.size
  room := h.size.trans (Nat.le_add_left 40 s.next)
  round := le_refl 40
  fresh := fun _ _ hmem => hmem
  spent := fun _ hj hle => absurd hle (Nat.not_le_of_lt hj)
  free := h.free
  used := h.used
  scanned := le_refl _

/-- What is left of the window is neither in flight nor free and in the tree. -/
theorem commit (h : Knows a s) {tree : Set ℕ} (hgrows : tree ⊆ a.tree ∪ a.inFlight) :
    Knows (a.commit tree) s where
  start := h.start
  next := h.next
  size := h.size
  room := h.room
  round := h.round
  fresh := h.fresh
  spent := h.spent
  free := by
    intro i hi hnext hfree hmem
    rcases hgrows hmem with htree | hflight
    · exact h.free i hi hnext hfree htree
    · have hroom := h.room
      have hfresh := h.fresh (i - s.next) (by omega)
      have hsame : s.start + s.next + (i - s.next) = s.start + i := by omega
      rw [hsame] at hfresh
      exact hfresh hflight
  used := h.used
  scanned := h.scanned

theorem ckpoint_advance (h : Knows a s) (hlt : s.next < s.size) :
    s.advance.ckpoint = s.ckpoint - 1 := by
  have hroom := h.room
  exact if_pos (by omega)

/-- A step over a block that is accounted for. -/
theorem advance {a' : Blocks} (h : Knows a s) (hlt : s.next < s.size)
    (hflight : a.inFlight ⊆ a'.inFlight) (htree : a'.tree = a.tree)
    (hscanned : a'.scanned = a.scanned) (hseen : a'.seen = a.seen)
    (hback : ∀ b ∈ a'.inFlight, b ∈ a.inFlight ∨ b = (s.start + s.next) % 40)
    (hhere : (s.start + s.next) % 40 ∈ a'.inFlight ∪ a'.seen) : Knows a' s.advance := by
  have hcount := h.ckpoint_advance hlt
  have hroom := h.room
  have hround := h.round
  constructor
  · exact h.start
  · exact hlt
  · exact h.size
  · rw [hcount]
    change s.size ≤ s.next + 1 + (s.ckpoint - 1)
    omega
  · rw [hcount]
    omega
  · intro j hj hmem
    rw [hcount] at hj
    change (s.start + (s.next + 1) + j) % 40 ∈ a'.inFlight at hmem
    rcases hback _ hmem with hold | hsame
    · have hfresh := h.fresh (j + 1) (by omega)
      have hsum : s.start + s.next + (j + 1) = s.start + (s.next + 1) + j := by omega
      rw [hsum] at hfresh
      exact hfresh hold
    · omega
  · intro j hj hle
    rw [hcount] at hle
    change (s.start + (s.next + 1) + j) % 40 ∈ a'.inFlight ∪ a'.seen
    by_cases hlast : j = 39
    · have hsame : (s.start + (s.next + 1) + j) % 40 = (s.start + s.next) % 40 := by omega
      rw [hsame]
      exact hhere
    · have hspent := h.spent (j + 1) (by omega) (by omega)
      have hsum : s.start + s.next + (j + 1) = s.start + (s.next + 1) + j := by omega
      rw [hsum] at hspent
      rw [hseen]
      exact Set.union_subset_union_left a.seen hflight hspent
  · intro i hi hnext hfree
    rw [htree]
    exact h.free i hi (Nat.le_of_succ_le hnext) hfree
  · intro i hi hnext hused
    rw [hscanned]
    exact h.used i hi (Nat.le_of_succ_le hnext) hused
  · rw [hscanned, hseen]
    exact h.scanned

/-- A step over a used block. -/
theorem advance_used (h : Knows a s) (hlt : s.next < s.size) (hused : s.buffer s.next = true) :
    Knows a s.advance := by
  apply h.advance hlt (le_refl a.inFlight) rfl rfl rfl
  · exact fun b hb => Or.inl hb
  · exact Or.inr (h.scanned (h.used s.next hlt (le_refl _) hused))

/-- A free block is handed out. -/
theorem advance_free (h : Knows a s) (hlt : s.next < s.size) :
    Knows (a.give ((s.start + s.next) % 40)) s.advance := by
  have hflight : a.inFlight ⊆ (a.give ((s.start + s.next) % 40)).inFlight :=
    Set.subset_insert _ a.inFlight
  apply h.advance hlt hflight rfl rfl rfl
  · intro b hb
    exact (Set.mem_insert_iff.mp hb).symm
  · exact Or.inl (Set.mem_insert _ _)

/-- Used blocks are passed, each for one of the round. -/
theorem skipUsed (h : Knows a s) {n : ℕ} (hn : n = s.size - s.next) :
    Knows a (s.skipUsed n) ∧ (s.skipUsed n).size = s.size ∧
      (s.skipUsed n).next + (s.skipUsed n).ckpoint = s.next + s.ckpoint := by
  induction n generalizing s with
  | zero => exact ⟨h, rfl, rfl⟩
  | succ n ih =>
    have hlt : s.next < s.size := by omega
    rw [Lookahead.skipUsed]
    cases hused : s.buffer s.next with
    | true =>
      have hleft : n = s.advance.size - s.advance.next := by
        change n = s.size - (s.next + 1)
        omega
      obtain ⟨hknows, hsize, hcount⟩ := ih (h.advance_used hlt hused) hleft
      have hroom := h.room
      have hnext : s.advance.next + s.advance.ckpoint = s.next + s.ckpoint := by
        rw [h.ckpoint_advance hlt]
        change s.next + 1 + (s.ckpoint - 1) = s.next + s.ckpoint
        omega
      exact ⟨hknows, hsize, hcount.trans hnext⟩
    | false => exact ⟨h, rfl, rfl⟩

end Knows

/-! ### Traversals -/

theorem offset_eq {block start : ℕ} (hblock : block < 40) (hstart : start < 40) :
    (sub32 block start + blockCount) % 2 ^ 32 % blockCount = (block + 40 - start) % 40 := by
  unfold sub32 blockCount
  split <;> omega

/-- The bit of a reported block, where the window has it. -/
theorem buffer_lookahead {block i : ℕ} (hblock : block < 40) (hstart : s.start < 40)
    (hsize : s.size ≤ 40) (hi : i < s.size) :
    (lfsAllocLookahead s block).buffer i = true ↔
      s.buffer i = true ∨ (s.start + i) % 40 = block := by
  unfold lfsAllocLookahead
  dsimp only
  rw [offset_eq hblock hstart]
  by_cases hoff : (block + 40 - s.start) % 40 < s.size
  · rw [if_pos hoff]
    dsimp only
    by_cases hsame : i = (block + 40 - s.start) % 40
    · have hhere : (s.start + i) % 40 = block := by omega
      rw [hsame, Function.update_self, ← hsame]
      exact ⟨fun _ => Or.inr hhere, fun _ => rfl⟩
    · have hother : (s.start + i) % 40 ≠ block := by omega
      rw [Function.update_of_ne hsame]
      exact ⟨Or.inl, fun h => h.resolve_right hother⟩
  · have hother : (s.start + i) % 40 ≠ block := by omega
    rw [if_neg hoff]
    exact ⟨Or.inl, fun h => h.resolve_right hother⟩

/-- A traversal changes the buffer only. -/
theorem lookahead_fields (block : ℕ) (s : Lookahead) :
    ∃ buffer, lfsAllocLookahead s block = { s with buffer := buffer } := by
  unfold lfsAllocLookahead
  dsimp only
  split
  · exact ⟨_, rfl⟩
  · exact ⟨s.buffer, rfl⟩

theorem foldl_lookahead {blocks : List ℕ} (hblocks : ∀ b ∈ blocks, b < 40)
    (hstart : s.start < 40) (hsize : s.size ≤ 40) :
    ∃ buffer, blocks.foldl lfsAllocLookahead s = { s with buffer := buffer } ∧
      ∀ i < s.size, buffer i = true ↔ s.buffer i = true ∨ (s.start + i) % 40 ∈ blocks := by
  induction blocks generalizing s with
  | nil =>
    refine ⟨s.buffer, rfl, fun i _ => ?_⟩
    simp only [List.not_mem_nil, or_false]
  | cons block blocks ih =>
    have hblock : block < 40 := hblocks block List.mem_cons_self
    have hrest : ∀ b ∈ blocks, b < 40 := fun b hb => hblocks b (List.mem_cons_of_mem block hb)
    obtain ⟨first, hfirst⟩ := lookahead_fields block s
    have hbits := fun i (hi : i < s.size) => buffer_lookahead hblock hstart hsize hi
    rw [hfirst] at hbits
    rw [List.foldl_cons, hfirst]
    obtain ⟨buffer, hfold, hbuffer⟩ := ih (s := { s with buffer := first }) hrest hstart hsize
    refine ⟨buffer, hfold, fun i hi => ?_⟩
    rw [hbuffer i hi, hbits i hi, List.mem_cons, or_assoc]

/-- Behind its window the allocator learns the next one. -/
theorem Knows.scan (h : Knows a s) {report : Int32 × List ℕ}
    (hblocks : ∀ b ∈ report.2, b < 40) (htree : ∀ b, b ∈ report.2 ↔ b ∈ a.tree) :
    let scanned := report.2.foldl lfsAllocLookahead (moveWindow s)
    Knows a.scan scanned ∧ scanned.next = 0 ∧ scanned.size = s.ckpoint ∧
      scanned.ckpoint = s.ckpoint := by
  intro scanned
  have hround := h.round
  have hsize : (moveWindow s).size = s.ckpoint := by
    change min (8 * 16) s.ckpoint = s.ckpoint
    omega
  have hstart : (moveWindow s).start < 40 := Nat.mod_lt _ (by decide)
  obtain ⟨buffer, hfold, hbuffer⟩ := foldl_lookahead hblocks hstart (hsize.trans_le hround)
  have hmoved : ∀ j, ((moveWindow s).start + j) % 40 = (s.start + s.next + j) % 40 := by
    intro j
    change ((s.start + s.next) % 40 + j) % 40 = _
    omega
  change scanned = _ at hfold
  rw [hfold]
  refine ⟨?_, rfl, hsize, rfl⟩
  constructor
  · exact hstart
  · exact Nat.zero_le _
  · exact hsize.trans_le hround
  · change (moveWindow s).size ≤ 0 + s.ckpoint
    omega
  · exact hround
  · intro j hj
    change ((moveWindow s).start + 0 + j) % 40 ∉ a.inFlight
    rw [Nat.add_zero, hmoved]
    exact h.fresh j hj
  · intro j hj hle
    change ((moveWindow s).start + 0 + j) % 40 ∈ a.inFlight ∪ (a.seen ∪ a.tree)
    rw [Nat.add_zero, hmoved, ← Set.union_assoc]
    exact Or.inl (h.spent j hj hle)
  · intro i hi _ hfree hmem
    have hused := (hbuffer i hi).mpr (Or.inr ((htree _).mpr hmem))
    exact absurd (hused.symm.trans hfree) (by decide)
  · intro i hi _ hused
    rcases (hbuffer i hi).mp hused with hblank | hreported
    · cases hblank
    · exact (htree _).mp hreported
  · exact Set.subset_union_right

theorem Blocks.scan_scan (a : Blocks) : a.scan.scan = a.scan := by
  simp only [Blocks.scan, Set.union_assoc, Set.union_self]

/-! ### Allocations -/

/-- What an allocation returns and leaves, if `a` has seen its traversals. -/
def Settled (reports : ℕ → Int32 × List ℕ) (a : Blocks) (r : Allocation) : Prop :=
  match r.result with
  | .ok block =>
    block < 40 ∧ block ∉ a.tree ∧ block ∉ a.inFlight ∧ Knows (a.give block) r.lookahead
  | .error err =>
    (err = lfsErrNospc ∧ (∀ b < 40, b ∈ a.inFlight ∪ a.seen) ∧ Knows a r.lookahead) ∨
      (∃ k, (reports k).1 = err) ∧ err ≠ 0 ∧ err ≠ lfsErrNospc ∧ Knows a.drop r.lookahead

/-- At the end of a round every block has been passed. -/
theorem Knows.exhausted (h : Knows a s) (hspent : s.ckpoint = 0) :
    ∀ b < 40, b ∈ a.inFlight ∪ a.seen := by
  intro b hb
  have hstart := h.start
  have hnext := h.next.trans h.size
  have hpassed := h.spent ((b + 80 - (s.start + s.next)) % 40) (by omega) (by omega)
  have hsame : (s.start + s.next + (b + 80 - (s.start + s.next)) % 40) % 40 = b := by omega
  rwa [hsame] at hpassed

theorem Knows.found (h : Knows a s) (hlt : s.next < s.size) (hfree : s.buffer s.next = false)
    (k : ℕ) :
    Settled reports a ⟨.ok ((s.start + s.next) % blockCount), k,
      s.advance.skipUsed (s.advance.size - s.advance.next)⟩ := by
  have hroom := h.room
  have hfresh := h.fresh 0 (by omega)
  rw [Nat.add_zero] at hfresh
  have htree := h.free s.next hlt (le_refl s.next) hfree
  exact ⟨Nat.mod_lt _ (by decide), htree, hfresh, ((h.advance_free hlt).skipUsed rfl).1⟩

theorem Knows.failed (h : Knows a s) {report : Int32 × List ℕ} (hblocks : ∀ b ∈ report.2, b < 40) :
    Knows a.drop (lfsAllocDrop (report.2.foldl lfsAllocLookahead (moveWindow s))) := by
  have hround := h.round
  have hsize : (moveWindow s).size ≤ 40 := (min_le_right _ _).trans hround
  have hstart : (moveWindow s).start < 40 := Nat.mod_lt _ (by decide)
  obtain ⟨buffer, hfold, -⟩ := foldl_lookahead hblocks hstart hsize
  rw [hfold]
  exact Knows.mount a.tree hstart

/-- The window has a free block, or the round is over. -/
theorem allocLoop_ends (fuel k : ℕ) (h : Knows a s)
    (hend : (s.skipUsed (s.size - s.next)).next < (s.skipUsed (s.size - s.next)).size ∨
      (s.skipUsed (s.size - s.next)).ckpoint = 0) :
    ∃ r, allocLoop reports fuel k s = some r ∧ r.scans = k ∧ Settled reports a r := by
  have hknows := (h.skipUsed rfl).1
  unfold allocLoop
  dsimp only
  by_cases hlt : (s.skipUsed (s.size - s.next)).next < (s.skipUsed (s.size - s.next)).size
  · rw [if_pos hlt]
    exact ⟨_, rfl, rfl, hknows.found hlt (Lookahead.skipUsed_free rfl hlt) k⟩
  · have hspent := hend.resolve_left hlt
    rw [if_neg hlt, if_pos hspent]
    exact ⟨_, rfl, rfl, Or.inl ⟨rfl, hknows.exhausted hspent, hknows⟩⟩

/-- The loop returns: each traversal shows all the blocks that are left of the round. -/
theorem allocLoop_settles {fuel k : ℕ} (h : Knows a s) (htraverses : Traverses a.tree reports)
    (hfuel : s.ckpoint ≤ fuel + (s.size - s.next)) :
    ∃ r, allocLoop reports fuel k s = some r ∧
      (r.scans = k ∧ Settled reports a r ∨ k < r.scans ∧ Settled reports a.scan r) := by
  induction fuel generalizing a s k with
  | zero =>
    obtain ⟨hknows, hsize, hcount⟩ := h.skipUsed rfl
    have hnext := h.next
    have hend : (s.skipUsed (s.size - s.next)).next < (s.skipUsed (s.size - s.next)).size ∨
        (s.skipUsed (s.size - s.next)).ckpoint = 0 := by omega
    obtain ⟨r, hrun, hscans, hsettled⟩ := allocLoop_ends 0 k h hend
    exact ⟨r, hrun, Or.inl ⟨hscans, hsettled⟩⟩
  | succ fuel ih =>
    by_cases hend : (s.skipUsed (s.size - s.next)).next < (s.skipUsed (s.size - s.next)).size ∨
        (s.skipUsed (s.size - s.next)).ckpoint = 0
    · obtain ⟨r, hrun, hscans, hsettled⟩ := allocLoop_ends (fuel + 1) k h hend
      exact ⟨r, hrun, Or.inl ⟨hscans, hsettled⟩⟩
    · obtain ⟨hover, hleft⟩ := not_or.mp hend
      obtain ⟨hknows, hsize, hcount⟩ := h.skipUsed rfl
      obtain ⟨hother, hblocks, htree⟩ := htraverses k
      rw [allocLoop, if_neg hover, if_neg hleft]
      generalize htail : s.skipUsed (s.size - s.next) = t at *
      by_cases herr : (reports k).1 ≠ 0
      · simp only [lfsAllocScan, if_pos herr]
        exact ⟨_, rfl, Or.inr ⟨Nat.lt_succ_self k,
          Or.inr ⟨⟨k, rfl⟩, herr, hother, hknows.failed hblocks⟩⟩⟩
      · obtain ⟨hscan, hnext, hwindow, hround⟩ := hknows.scan hblocks (htree (not_not.mp herr))
        have hbudget := h.next
        simp only [lfsAllocScan, if_neg herr]
        rw [if_neg (not_not.mpr rfl)]
        obtain ⟨r, hrun, hsettled⟩ := ih (k := k + 1) hscan htraverses (by omega)
        refine ⟨r, hrun, Or.inr ?_⟩
        rcases hsettled with ⟨hscans, hsettled⟩ | ⟨hscans, hsettled⟩
        · exact ⟨by omega, hsettled⟩
        · rw [Blocks.scan_scan] at hsettled
          exact ⟨by omega, hsettled⟩

theorem Settled.knows {r : Allocation} (h : Settled reports a r) :
    Knows (a.settle r) r.lookahead := by
  unfold Settled at h
  unfold Blocks.settle
  cases hresult : r.result with
  | ok block =>
    rw [hresult] at h
    exact h.2.2.2
  | error err =>
    rw [hresult] at h
    rcases h with ⟨hnospc, -, hknows⟩ | ⟨-, -, hother, hknows⟩
    · simp only [if_pos hnospc]
      exact hknows
    · simp only [if_neg hother]
      exact hknows

theorem Settled.returned {a' : Blocks} {r : Allocation} (h : Settled reports a' r)
    (htree : a'.tree = a.tree) (hflight : a'.inFlight = a.inFlight)
    (hafter : a.after r = a'.settle r) : Returned a reports r := by
  unfold Returned
  unfold Settled at h
  rw [hafter]
  unfold Blocks.settle
  cases hresult : r.result with
  | ok block =>
    rw [hresult, htree, hflight] at h
    exact ⟨h.1, h.2.1, h.2.2.1⟩
  | error err =>
    rw [hresult, hflight] at h
    rcases h with ⟨hnospc, hall, -⟩ | ⟨hreport, hne, hother, -⟩
    · simp only [if_pos hnospc]
      exact Or.inl ⟨hnospc, hall⟩
    · obtain ⟨k, hk⟩ := hreport
      exact Or.inr ⟨k, hk, hne, hother⟩

/-- The allocator returns, and knows its blocks behind what it returns. -/
theorem Knows.alloc (h : Knows a s) (htraverses : Traverses a.tree reports) :
    ∃ r, lfsAlloc reports s = some r ∧ Returned a reports r ∧ Knows (a.after r) r.lookahead := by
  have hfuel : s.ckpoint ≤ blockCount + (s.size - s.next) := h.round.trans (Nat.le_add_right 40 _)
  obtain ⟨r, hrun, hsettled⟩ := allocLoop_settles (k := 0) h htraverses hfuel
  refine ⟨r, hrun, ?_⟩
  rcases hsettled with ⟨hscans, hsettled⟩ | ⟨hscans, hsettled⟩
  · have hafter : a.after r = a.settle r := by rw [Blocks.after, if_pos hscans]
    rw [hafter]
    exact ⟨hsettled.returned rfl rfl hafter, hsettled.knows⟩
  · have hafter : a.after r = a.scan.settle r := by rw [Blocks.after, if_neg (by omega)]
    rw [hafter]
    exact ⟨hsettled.returned rfl rfl hafter, hsettled.knows⟩

theorem AllocReaches.knows (h : AllocReaches a s) : Knows a s := by
  induction h with
  | mount tree seed s => exact Knows.mount tree (Nat.mod_lt seed (by decide))
  | ckpoint _ ih => exact ih.ckpoint
  | commit _ tree hgrows ih => exact ih.commit hgrows
  | alloc _ htraverses hrun ih =>
    obtain ⟨r, hsame, -, hknows⟩ := ih.alloc htraverses
    rw [hrun] at hsame
    rw [Option.some.inj hsame]
    exact hknows

/-- In every run the allocator returns, a block that it returns is not in use and has not been
returned since the last checkpoint, and there is no block only if all are accounted for. -/
theorem lfsAlloc_fresh (h : AllocReaches a s) (htraverses : Traverses a.tree reports) :
    ∃ r, lfsAlloc reports s = some r ∧ Returned a reports r := by
  obtain ⟨r, hrun, hreturned, -⟩ := h.knows.alloc htraverses
  exact ⟨r, hrun, hreturned⟩

/-- The last two blocks and the first one are used. -/
theorem lfsAlloc_fresh_around :
    let s := lfsAllocDrop ⟨38, 0, 0, 0, fun _ => false⟩
    (lfsAlloc (fun _ => (0, [39, 0, 38])) s).map Allocation.result = some (.ok 1) ∧
      ∃ r, lfsAlloc (fun _ => (0, [39, 0, 38])) s = some r ∧
        Returned ⟨{38, 39, 0}, ∅, ∅, ∅⟩ (fun _ => (0, [39, 0, 38])) r := by
  have htraverses : Traverses {38, 39, 0} fun _ => (0, [39, 0, 38]) := by
    intro _
    have hquiet : (0 : Int32) ≠ lfsErrNospc := by decide
    refine ⟨hquiet, fun b hb => ?_, fun _ b => ?_⟩
    · simp only [List.mem_cons, List.not_mem_nil, or_false] at hb
      omega
    · simp only [List.mem_cons, List.not_mem_nil, or_false, Set.mem_insert_iff,
        Set.mem_singleton_iff]
      omega
  have hmount := AllocReaches.mount {38, 39, 0} 38 ⟨0, 0, 0, 0, fun _ => false⟩
  exact ⟨rfl, lfsAlloc_fresh hmount htraverses⟩

end Not232
