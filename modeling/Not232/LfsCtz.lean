import Not232.LfsCache
import Not232.Protocol
import Not232.SkipList

/-!
# The block list of a file

A file is a list of blocks in which every block but the first starts with pointers to blocks before
it. The code finds the block of a position from the end of the list, along the longest pointers, and
visits all blocks from the end. The numbers of the blocks follow from the positions in closed form.
-/

namespace Not232

/-! The built-ins of the compiler that count binary digits. -/

def lfsNpw2 (a : ℕ) : ℕ := Nat.size (a - 1)

def lfsCtz (a : ℕ) : ℕ := padicValNat 2 a

def lfsPopc (a : ℕ) : ℕ := (Nat.digits 2 a).sum

/-- The number of the block that holds a position, and the offset in it. -/
def lfsCtzIndex (off : ℕ) : ℕ × ℕ :=
  let size := off
  let b := blockSize - 2 * 4
  let i := size / b
  if i = 0 then (0, off)
  else
    let i := sub32 size (4 * (lfsPopc (i - 1) + 2)) / b
    (i, sub32 (sub32 size (b * i)) (4 * lfsPopc i))

/-- The words that bytes hold, as far as there are bytes. -/
def headAt (bytes : List UInt8) (i : ℕ) : UInt32 :=
  leWord (Vector.ofFn fun j => bytes.getD (4 * i + j) 0)

/-- The hops of `lfs_ctz_find`, if there are at most `fuel`. -/
def findLoop (f : Flash) (pcache : Option LfsCache) (target : ℕ) :
    (fuel current : ℕ) → UInt32 → LfsCache → Option (Int32 × UInt32 × LfsCache)
  | fuel, current, head, rcache =>
    if current ≤ target then some (0, head, rcache)
    else
      match fuel with
      | 0 => none
      | fuel + 1 =>
        let skip := min (lfsNpw2 (current - target + 1) - 1) (lfsCtz current)
        match lfsBdRead f pcache rcache 4 head (4 * skip) 4 with
        | none => none
        | some (err, bytes, rcache) =>
          if err ≠ 0 then some (err, headAt bytes 0, rcache)
          else findLoop f pcache target fuel (current - 2 ^ skip) (headAt bytes 0) rcache

/-- The block and the offset mean nothing after an error. The hops are at most twice as many as the
distance has binary digits. -/
def lfsCtzFind (f : Flash) (pcache : Option LfsCache) (rcache : LfsCache) (head : UInt32)
    (size pos : ℕ) : Option (Int32 × UInt32 × ℕ × LfsCache) :=
  if size = 0 then some (0, lfsBlockNull, 0, rcache)
  else
    let current := (lfsCtzIndex (size - 1)).1
    let (target, off) := lfsCtzIndex pos
    (findLoop f pcache target (2 * Nat.size (current - target)) current head rcache).map
      fun r => (r.1, r.2.1, off, r.2.2)

/-- The loop of `lfs_ctz_traverse`, if `fuel` turns are enough. The callback has a state. -/
def traverseLoop {σ : Type} (f : Flash) (pcache : Option LfsCache) (cb : UInt32 → σ → Int32 × σ) :
    (fuel index : ℕ) → UInt32 → σ → LfsCache → Option (Int32 × σ × LfsCache)
  | 0, _, _, _, _ => none
  | fuel + 1, index, head, data, rcache =>
    let (err, data) := cb head data
    if err ≠ 0 then some (err, data, rcache)
    else if index = 0 then some (0, data, rcache)
    else
      let count := 2 - index % 2
      match lfsBdRead f pcache rcache (count * 4) head 0 (count * 4) with
      | none => none
      | some (err, bytes, rcache) =>
        if err ≠ 0 then some (err, data, rcache)
        else
          let (err, data) := if count = 2 then cb (headAt bytes 0) data else (0, data)
          if err ≠ 0 then some (err, data, rcache)
          else traverseLoop f pcache cb fuel (index - count) (headAt bytes (count - 1)) data rcache

def lfsCtzTraverse {σ : Type} (f : Flash) (pcache : Option LfsCache) (rcache : LfsCache)
    (head : UInt32) (size : ℕ) (cb : UInt32 → σ → Int32 × σ) (data : σ) :
    Option (Int32 × σ × LfsCache) :=
  if size = 0 then some (0, data, rcache)
  else
    let index := (lfsCtzIndex (size - 1)).1
    traverseLoop f pcache cb (index + 1) index head data rcache

/-! ### The blocks of a file -/

/-- The bytes of the pointers at the start of a block. -/
def ctzHeader (i : ℕ) : ℕ := if i = 0 then 0 else 4 * (lfsCtz i + 1)

/-- The position of the first byte in a block. -/
def ctzStart (i : ℕ) : ℕ := ∑ j ∈ Finset.range i, (blockSize - ctzHeader j)

/-- The position is in the block, at the offset. -/
structure CtzAt (pos i off : ℕ) : Prop where
  start : ctzStart i ≤ pos
  stop : pos < ctzStart (i + 1)
  off : off = ctzHeader i + (pos - ctzStart i)

section Index

variable {i pos off : ℕ}

theorem lfsCtz_lt (hi : i < 2 ^ 32) : lfsCtz i < 32 := by
  by_cases hzero : i = 0
  · subst hzero
    rw [lfsCtz, padicValNat_zero_right]
    decide
  · have hsize : Nat.size i ≤ 32 := Nat.size_le.mpr hi
    exact (SkipList.padicValNat_lt_size hzero).trans_le hsize

theorem ctzStart_succ (i : ℕ) : ctzStart (i + 1) = ctzStart i + (blockSize - ctzHeader i) :=
  Finset.sum_range_succ _ i

theorem ctzHeader_le (hi : i < 2 ^ 32) : ctzHeader i ≤ 128 := by
  have hctz := lfsCtz_lt hi
  unfold ctzHeader
  split <;> omega

/-- The closed form that the code computes with. -/
theorem ctzStart_eq (hi : 1 ≤ i) (hlt : i < 2 ^ 32) :
    ctzStart i = 4088 * i + 4 * (lfsPopc (i - 1) + 2) := by
  induction i, hi using Nat.le_induction with
  | base =>
    rw [ctzStart_succ]
    simp [ctzStart, ctzHeader, blockSize, lfsPopc]
  | succ i hi ih =>
    have hheader : ctzHeader i = 4 * (lfsCtz i + 1) := if_neg (by omega)
    have hctz := lfsCtz_lt (i := i) (by omega)
    have hdigits := SkipList.digits_sum_succ (i - 1)
    rw [Nat.sub_add_cancel hi] at hdigits
    change lfsCtz i + lfsPopc i = lfsPopc (i - 1) + 1 at hdigits
    rw [ctzStart_succ, ih (by omega), hheader, blockSize, Nat.add_sub_cancel]
    omega

theorem lfsPopc_le (hi : i < 2 ^ 21) : lfsPopc i ≤ 21 :=
  (SkipList.digits_sum_le_size i).trans (Nat.size_le.mpr hi)

/-- The offset behind the pointers, in the closed form. -/
theorem header_eq (hi : 1 ≤ i) : ctzHeader i + 4 * lfsPopc i = 4 * (lfsPopc (i - 1) + 2) := by
  have hdigits := SkipList.digits_sum_succ (i - 1)
  rw [Nat.sub_add_cancel hi] at hdigits
  change lfsCtz i + lfsPopc i = lfsPopc (i - 1) + 1 at hdigits
  have hheader : ctzHeader i = 4 * (lfsCtz i + 1) := if_neg (by omega)
  omega

theorem sub32_zero (a : ℕ) : sub32 a 0 = a := if_pos (Nat.zero_le a)

/-- From the second block on the closed form gives the offset. -/
theorem ctzAt_of_bounds (hi : 1 ≤ i) (hpos : pos < 2 ^ 32)
    (hstart : 4088 * i + 4 * (lfsPopc (i - 1) + 2) ≤ pos)
    (hstop : pos < 4088 * (i + 1) + 4 * (lfsPopc i + 2)) :
    CtzAt pos i (sub32 (sub32 pos (4088 * i)) (4 * lfsPopc i)) := by
  have hheader := header_eq hi
  have heq := ctzStart_eq hi (by omega)
  have heq' := ctzStart_eq (i := i + 1) (by omega) (by omega)
  rw [Nat.add_sub_cancel] at heq'
  have houter : sub32 pos (4088 * i) = pos - 4088 * i := if_pos (by omega)
  have hinner : sub32 (pos - 4088 * i) (4 * lfsPopc i) = pos - 4088 * i - 4 * lfsPopc i :=
    if_pos (by omega)
  refine ⟨by omega, by omega, ?_⟩
  rw [houter, hinner]
  omega

/-- The first block has no pointers. -/
theorem ctzAt_first (hpos : pos < 4096) : CtzAt pos 0 pos := by
  have hone : ctzStart (0 + 1) = 4096 := rfl
  refine ⟨Nat.zero_le pos, ?_, (Nat.zero_add pos).symm⟩
  rw [hone]
  exact hpos

/-- The number and the offset are right for every position of 32 bits. -/
theorem lfsCtzIndex_at (hpos : pos < 2 ^ 32) :
    CtzAt pos (lfsCtzIndex pos).1 (lfsCtzIndex pos).2 := by
  by_cases hzero : pos / 4088 = 0
  · have hindex : lfsCtzIndex pos = (0, pos) := if_pos hzero
    rw [hindex]
    exact ctzAt_first (by omega)
  generalize hfirst : pos / 4088 = first at hzero
  have hpopc : lfsPopc (first - 1) ≤ 21 := lfsPopc_le (by omega)
  have hpopc' : lfsPopc (first - 1 - 1) ≤ 21 := lfsPopc_le (by omega)
  have hsub : sub32 pos (4 * (lfsPopc (first - 1) + 2)) = pos - 4 * (lfsPopc (first - 1) + 2) :=
    if_pos (by omega)
  generalize hsecond : (pos - 4 * (lfsPopc (first - 1) + 2)) / 4088 = second
  have hindex : lfsCtzIndex pos =
      (second, sub32 (sub32 pos (4088 * second)) (4 * lfsPopc second)) := by
    simp only [lfsCtzIndex, blockSize, hfirst, if_neg hzero, hsub, hsecond]
  rw [hindex]
  dsimp only
  -- The estimate by the space without pointers is the block or the one behind it.
  by_cases hsame : second = first
  · subst hsame
    exact ctzAt_of_bounds (by omega) hpos (by omega) (by omega)
  obtain rfl : second = first - 1 := by omega
  by_cases hfirstblock : first = 1
  · subst hfirstblock
    have hnone : lfsPopc (1 - 1) = 0 := by simp [lfsPopc]
    rw [hnone, Nat.sub_self, Nat.mul_zero, sub32_zero, sub32_zero]
    exact ctzAt_first (by omega)
  · have hprev : first - 1 + 1 = first := by omega
    exact ctzAt_of_bounds (by omega) hpos (by omega) (by rw [hprev]; omega)

theorem sub32_le {a b : ℕ} (ha : a < 2 ^ 32) : sub32 a b ≤ 2 ^ 32 := by
  unfold sub32
  split <;> omega

theorem lfsCtzIndex_lt (hpos : pos < 2 ^ 32) : (lfsCtzIndex pos).1 < 2 ^ 32 := by
  by_cases hzero : pos / 4088 = 0
  · have hindex : lfsCtzIndex pos = (0, pos) := if_pos hzero
    rw [hindex]
    exact Nat.two_pow_pos 32
  · have hindex : (lfsCtzIndex pos).1 = sub32 pos (4 * (lfsPopc (pos / 4088 - 1) + 2)) / 4088 :=
      congrArg Prod.fst (if_neg hzero)
    have hle := sub32_le (b := 4 * (lfsPopc (pos / 4088 - 1) + 2)) hpos
    rw [hindex]
    exact lt_of_le_of_lt (Nat.div_le_div_right hle) (by decide)

theorem CtzAt.off_lt (h : CtzAt pos i off) (hi : i < 2 ^ 32) : ctzHeader i ≤ off ∧ off < 4096 := by
  have hheader := ctzHeader_le hi
  have hsucc := ctzStart_succ i
  have hblock : blockSize = 4096 := rfl
  have hstart := h.start
  have hstop := h.stop
  have hoff := h.off
  omega

theorem ctzStart_mono : Monotone ctzStart := by
  apply monotone_nat_of_le_succ
  intro i
  rw [ctzStart_succ]
  exact Nat.le_add_right _ _

/-- A position is in one block only. -/
theorem CtzAt.index_eq {j off' : ℕ} (h : CtzAt pos i off) (h' : CtzAt pos j off') : i = j := by
  apply le_antisymm
  · by_contra hlt
    have hle := ctzStart_mono (Nat.succ_le_of_lt (Nat.lt_of_not_le hlt))
    exact absurd (h'.stop.trans_le (hle.trans h.start)) (lt_irrefl pos)
  · by_contra hlt
    have hle := ctzStart_mono (Nat.succ_le_of_lt (Nat.lt_of_not_le hlt))
    exact absurd (h.stop.trans_le (hle.trans h'.start)) (lt_irrefl pos)

theorem CtzAt.index_mono {pos' j off' : ℕ} (h : CtzAt pos i off) (h' : CtzAt pos' j off')
    (hle : pos ≤ pos') : i ≤ j := by
  by_contra hlt
  have hmono := ctzStart_mono (Nat.succ_le_of_lt (Nat.lt_of_not_le hlt))
  exact absurd (h'.stop.trans_le (hmono.trans (h.start.trans hle))) (lt_irrefl pos')

end Index

/-! ### Finding a block -/

/-- The bytes of a word are in a block. -/
def Points (image : Programmed) (block : UInt32) (off : ℕ) (target : UInt32) : Prop :=
  ∀ j < 4, image block (off + j) = (leBytes target).toList[j]?

/-- The blocks up to a number are the list of a file: each points back along its hops. -/
structure CtzList (image : Programmed) (node : ℕ → UInt32) (n : ℕ) : Prop where
  block : ∀ i ≤ n, node i < 40
  pointer : ∀ i ≤ n, ∀ k ≤ lfsCtz i, 0 < i → Points image (node i) (4 * k) (node (i - 2 ^ k))

theorem leBytes_length (w : UInt32) : (leBytes w).toList.length = 4 := Vector.length_toList

/-- A word is read back from its bytes, wherever they are. -/
theorem headAt_append {first : List UInt8} {i : ℕ} (hfirst : first.length = 4 * i) (w : UInt32)
    (rest : List UInt8) : headAt (first ++ ((leBytes w).toList ++ rest)) i = w := by
  have hvector : Vector.ofFn (fun j : Fin 4 =>
      (first ++ ((leBytes w).toList ++ rest)).getD (4 * i + j) 0) = leBytes w := by
    apply Vector.ext
    intro j hj
    have hin : j < (leBytes w).toList.length := by
      rw [leBytes_length]
      exact hj
    rw [Vector.getElem_ofFn, List.getD_eq_getElem?_getD, ← hfirst,
      List.getElem?_append_right (Nat.le_add_right _ _), Nat.add_sub_cancel_left,
      List.getElem?_append_left hin, List.getElem?_eq_getElem hin, Option.getD_some,
      Vector.getElem_toList]
  rw [headAt, hvector, leWord_leBytes]

section Find

variable {stored : Programmed} {f : Flash} {pcache : Option LfsCache} {node : ℕ → UInt32} {n : ℕ}

/-- Bytes that agree with a pointer are its bytes. -/
theorem eq_leBytes {image : Programmed} {block : UInt32} {off : ℕ} {data : List UInt8} {w : UInt32}
    (hlength : data.length = 4) (hagrees : Agrees image block off data)
    (hpoints : Points image block off w) : data = (leBytes w).toList := by
  apply List.ext_getElem?
  intro j
  by_cases hj : j < 4
  · have hin : j < (leBytes w).toList.length := by
      rw [leBytes_length]
      exact hj
    have hbyte := hpoints j hj
    rw [List.getElem?_eq_getElem hin] at hbyte ⊢
    exact hagrees j (by omega) _ hbyte
  · rw [List.getElem?_eq_none (by omega), List.getElem?_eq_none (by rw [leBytes_length]; omega)]

/-- The hops lead from a block of the list to every block before it. -/
theorem findLoop_finds (hstores : Stores stored f) (heven : ∀ p ∈ pcache, p.off % 2 = 0)
    (hlist : CtzList (overlay pcache stored) node n) (hn : n < 2 ^ 32) {target : ℕ}
    (fuel current : ℕ) (rcache : LfsCache) (htarget : target ≤ current) (hcurrent : current ≤ n)
    (hfuel : SkipList.hopsLeft target current ≤ fuel) (hcoherent : Coherent stored rcache) :
    ∃ rcache', findLoop f pcache target fuel current (node current) rcache =
        some (0, node target, rcache') ∧ Coherent stored rcache' := by
  induction fuel generalizing current rcache with
  | zero =>
    have hsize := SkipList.size_le_hopsLeft target current
    have hdistance : current - target = 0 := Nat.size_eq_zero.mp (by omega)
    obtain rfl : current = target := by omega
    exact ⟨rcache, by rw [findLoop, if_pos le_rfl], hcoherent⟩
  | succ fuel ih =>
    by_cases harrived : current ≤ target
    · obtain rfl : current = target := le_antisymm harrived htarget
      exact ⟨rcache, by rw [findLoop, if_pos le_rfl], hcoherent⟩
    have hlt : target < current := Nat.lt_of_not_le harrived
    have hhop : min (lfsNpw2 (current - target + 1) - 1) (lfsCtz current) =
        SkipList.hop target current := by
      rw [lfsNpw2, Nat.add_sub_cancel]
      rfl
    have hlevel : SkipList.hop target current ≤ lfsCtz current := min_le_right _ _
    have hctz := lfsCtz_lt (i := current) (by omega)
    have hfits : 4 * SkipList.hop target current + 4 ≤ 4096 := by omega
    have hle := SkipList.hop_le hlt
    have hshrinks := SkipList.hopsLeft_hop hlt
    obtain ⟨data, r, hread, hlength, hagrees, hcoherent'⟩ :=
      lfsBdRead_reads hstores (hlist.block current hcurrent) (by decide : 1 ≤ 4) (by decide) heven
        hfits hcoherent
    have hdata := eq_leBytes hlength hagrees
      (hlist.pointer current hcurrent _ hlevel (by omega))
    have hhead : headAt data 0 = node (current - 2 ^ SkipList.hop target current) := by
      have hword := headAt_append (i := 0) List.length_nil
        (node (current - 2 ^ SkipList.hop target current)) []
      rw [List.nil_append, List.append_nil] at hword
      rw [hdata, hword]
    obtain ⟨r', hloop, hcoherent''⟩ := ih (current - 2 ^ SkipList.hop target current) r
      (Nat.le_sub_of_add_le hle) ((Nat.sub_le _ _).trans hcurrent) (by omega) hcoherent'
    refine ⟨r', ?_, hcoherent''⟩
    rw [findLoop, if_neg harrived]
    dsimp only
    rw [hhop, hread]
    dsimp only
    rw [if_neg (by decide), hhead]
    exact hloop

/-- Every position of a file is found, within the hops that the loop is given. -/
theorem lfsCtzFind_finds (hstores : Stores stored f) (heven : ∀ p ∈ pcache, p.off % 2 = 0)
    {size pos off i last : ℕ} (hlist : CtzList (overlay pcache stored) node n)
    (hsize : size < 2 ^ 32) (hlast : CtzAt (size - 1) n last) (hpos : pos < size)
    (hat : CtzAt pos i off) {rcache : LfsCache} (hcoherent : Coherent stored rcache) :
    ∃ rcache', lfsCtzFind f pcache rcache (node n) size pos = some (0, node i, off, rcache') ∧
      Coherent stored rcache' := by
  have hindex : CtzAt pos _ _ := lfsCtzIndex_at (by omega)
  have hindex' : CtzAt (size - 1) _ _ := lfsCtzIndex_at (by omega)
  have hi : (lfsCtzIndex pos).1 = i := hindex.index_eq hat
  have hn : (lfsCtzIndex (size - 1)).1 = n := hindex'.index_eq hlast
  have hoff : (lfsCtzIndex pos).2 = off := by
    rw [hindex.off, hat.off, hi]
  have hle : i ≤ n := hat.index_mono hlast (by omega)
  have hword : n < 2 ^ 32 := by
    rw [← hn]
    exact lfsCtzIndex_lt (by omega)
  obtain ⟨r, hloop, hcoherent'⟩ := findLoop_finds hstores heven hlist hword
    (2 * Nat.size (n - i)) n rcache hle le_rfl (SkipList.hopsLeft_le i n) hcoherent
  refine ⟨r, ?_, hcoherent'⟩
  simp only [lfsCtzFind, if_neg (Nat.ne_of_gt (Nat.zero_lt_of_lt hpos)), hn, hi, hoff, hloop,
    Option.map_some]

/-! ### Visiting all blocks -/

/-- Calls for one block after the other, until one returns an error. -/
def visit {σ : Type} (cb : UInt32 → σ → Int32 × σ) : List UInt32 → σ → Int32 × σ
  | [], data => (0, data)
  | block :: blocks, data =>
    if (cb block data).1 ≠ 0 then cb block data else visit cb blocks (cb block data).2

/-- The blocks from a number down to the first. -/
def blocksFrom (node : ℕ → UInt32) : ℕ → List UInt32
  | 0 => [node 0]
  | i + 1 => node (i + 1) :: blocksFrom node i

theorem mem_blocksFrom {block : UInt32} {i : ℕ} :
    block ∈ blocksFrom node i ↔ ∃ j ≤ i, block = node j := by
  induction i with
  | zero => simp [blocksFrom]
  | succ i ih =>
    rw [blocksFrom, List.mem_cons, ih]
    constructor
    · rintro (rfl | ⟨j, hj, rfl⟩)
      · exact ⟨i + 1, le_rfl, rfl⟩
      · exact ⟨j, hj.trans i.le_succ, rfl⟩
    · rintro ⟨j, hj, rfl⟩
      by_cases hlast : j = i + 1
      · exact .inl (by rw [hlast])
      · exact .inr ⟨j, by omega, rfl⟩

/-- Two words are read back from the bytes of two pointers. -/
theorem eq_leBytes_append {image : Programmed} {block : UInt32} {data : List UInt8} {v w : UInt32}
    (hlength : data.length = 8) (hagrees : Agrees image block 0 data)
    (hfirst : Points image block 0 v) (hsecond : Points image block 4 w) :
    data = (leBytes v).toList ++ (leBytes w).toList := by
  have hsplit : data = data.take 4 ++ data.drop 4 := (List.take_append_drop 4 data).symm
  have htake : data.take 4 = (leBytes v).toList := by
    apply eq_leBytes (by rw [List.length_take, hlength]; rfl) _ hfirst
    intro j hj value hvalue
    rw [List.length_take, hlength] at hj
    rw [List.getElem?_take_of_lt (by omega)]
    exact hagrees j (by omega) value hvalue
  have hdrop : data.drop 4 = (leBytes w).toList := by
    apply eq_leBytes (by rw [List.length_drop, hlength]) _ hsecond
    intro j hj value hvalue
    rw [List.length_drop, hlength] at hj
    rw [List.getElem?_drop]
    apply hagrees (4 + j) (by omega) value
    rwa [Nat.zero_add]
  rw [hsplit, htake, hdrop]

theorem traverseLoop_visits {σ : Type} (hstores : Stores stored f)
    (heven : ∀ p ∈ pcache, p.off % 2 = 0) (hlist : CtzList (overlay pcache stored) node n)
    (cb : UInt32 → σ → Int32 × σ) (fuel index : ℕ) (data : σ) (rcache : LfsCache)
    (hindex : index ≤ n) (hfuel : index < fuel) (hcoherent : Coherent stored rcache) :
    ∃ rcache', traverseLoop f pcache cb fuel index (node index) data rcache =
        some ((visit cb (blocksFrom node index) data).1, (visit cb (blocksFrom node index) data).2,
          rcache') ∧
      Coherent stored rcache' := by
  induction fuel generalizing index data rcache with
  | zero => exact absurd hfuel (Nat.not_lt_zero _)
  | succ fuel ih =>
    rw [traverseLoop]
    cases hcb : cb (node index) data with
    | mk err data' =>
      dsimp only
      have hvisit : ∀ blocks, visit cb (node index :: blocks) data =
          if err ≠ 0 then (err, data') else visit cb blocks data' := by
        intro blocks
        rw [visit, hcb]
      by_cases herr : err ≠ 0
      · have hstop : visit cb (blocksFrom node index) data = (err, data') := by
          cases index with
          | zero => rw [blocksFrom, hvisit, if_pos herr]
          | succ i => rw [blocksFrom, hvisit, if_pos herr]
        rw [if_pos herr, hstop]
        exact ⟨rcache, rfl, hcoherent⟩
      rw [if_neg herr]
      have hsuccess : ¬ (0 : Int32) ≠ 0 := by decide
      have hblock := hlist.block index hindex
      by_cases hfirst : index = 0
      · subst hfirst
        rw [if_pos rfl, blocksFrom, hvisit, if_neg herr]
        exact ⟨rcache, rfl, hcoherent⟩
      rw [if_neg hfirst]
      have hprev : index - 2 ^ 0 = index - 1 := rfl
      have hpointer := hlist.pointer index hindex 0 (Nat.zero_le _) (Nat.pos_of_ne_zero hfirst)
      rw [hprev] at hpointer
      by_cases hodd : index % 2 = 1
      · obtain ⟨i, rfl⟩ : ∃ i, index = i + 1 := ⟨index - 1, by omega⟩
        obtain ⟨bytes, r, hread, hlength, hagrees, hcoherent'⟩ :=
          lfsBdRead_reads hstores hblock (by decide : 1 ≤ 4) (by decide) heven
            (by decide : 0 + 4 ≤ 4096) hcoherent
        have hbytes := eq_leBytes hlength hagrees hpointer
        have hhead : headAt bytes 0 = node i := by
          have hword := headAt_append (i := 0) List.length_nil (node i) []
          rw [List.nil_append, List.append_nil] at hword
          rw [hbytes]
          exact hword
        obtain ⟨r', hloop, hcoherent''⟩ := ih i data' r (by omega) (by omega) hcoherent'
        refine ⟨r', ?_, hcoherent''⟩
        have hsingle : ¬ 2 - 1 = 2 := by decide
        rw [hodd, hread]
        dsimp only
        rw [if_neg hsuccess, if_neg hsingle]
        dsimp only
        rw [if_neg hsuccess, blocksFrom, hvisit, if_neg herr]
        have hturn := congrArg (fun head => traverseLoop f pcache cb fuel i head data' r) hhead
        exact hturn.trans hloop
      · obtain ⟨i, rfl⟩ : ∃ i, index = i + 1 + 1 := ⟨index - 2, by omega⟩
        have hlevel : 1 ≤ lfsCtz (i + 1 + 1) := by
          rw [lfsCtz, ← padicValNat_dvd_iff_le (by omega)]
          omega
        have hpointer' := hlist.pointer (i + 1 + 1) hindex 1 hlevel (by omega)
        obtain ⟨bytes, r, hread, hlength, hagrees, hcoherent'⟩ :=
          lfsBdRead_reads hstores hblock (by decide : 1 ≤ 8) (by decide) heven
            (by decide : 0 + 8 ≤ 4096) hcoherent
        have hbytes := eq_leBytes_append hlength hagrees hpointer hpointer'
        have hheads : headAt bytes 0 = node (i + 1) ∧ headAt bytes 1 = node i := by
          have hfirst' := headAt_append (i := 0) List.length_nil (node (i + 1))
            (leBytes (node i)).toList
          have hsecond := headAt_append (i := 1) (leBytes_length (node (i + 1))) (node i) []
          rw [List.nil_append] at hfirst'
          rw [List.append_nil] at hsecond
          rw [hbytes]
          exact ⟨hfirst', hsecond⟩
        have heven' : (i + 1 + 1) % 2 = 0 := by omega
        rw [heven', hread]
        dsimp only
        rw [if_neg hsuccess, if_pos rfl, hheads.1, blocksFrom, hvisit, if_neg herr]
        cases hcb' : cb (node (i + 1)) data' with
        | mk err' data'' =>
          dsimp only
          have hvisit' : ∀ blocks, visit cb (node (i + 1) :: blocks) data' =
              if err' ≠ 0 then (err', data'') else visit cb blocks data'' := by
            intro blocks
            rw [visit, hcb']
          rw [blocksFrom, hvisit']
          by_cases herr' : err' ≠ 0
          · rw [if_pos herr', if_pos herr']
            exact ⟨r, rfl, hcoherent'⟩
          · rw [if_neg herr', if_neg herr']
            have hloop := ih i data'' r (by omega) (by omega) hcoherent'
            rw [← hheads.2] at hloop
            exact hloop

/-- Every block of a file is visited once, from the last to the first, until a callback returns an
error. -/
theorem lfsCtzTraverse_visits {σ : Type} (hstores : Stores stored f)
    (heven : ∀ p ∈ pcache, p.off % 2 = 0) {size last : ℕ}
    (hlist : CtzList (overlay pcache stored) node n) (hpos : 0 < size) (hsize : size < 2 ^ 32)
    (hlast : CtzAt (size - 1) n last) (cb : UInt32 → σ → Int32 × σ) (data : σ) {rcache : LfsCache}
    (hcoherent : Coherent stored rcache) :
    ∃ rcache', lfsCtzTraverse f pcache rcache (node n) size cb data =
        some ((visit cb (blocksFrom node n) data).1, (visit cb (blocksFrom node n) data).2,
          rcache') ∧
      Coherent stored rcache' := by
  have hindex : CtzAt (size - 1) _ _ := lfsCtzIndex_at (by omega)
  have hn : (lfsCtzIndex (size - 1)).1 = n := hindex.index_eq hlast
  rw [lfsCtzTraverse, if_neg (Nat.ne_of_gt hpos), hn]
  exact traverseLoop_visits hstores heven hlist cb (n + 1) n data rcache le_rfl
    (Nat.lt_succ_self n) hcoherent

end Find

/-- Two blocks, the second of which points back to the first. -/
theorem lfsCtzTraverse_visits_two :
    ∃ rcache', lfsCtzTraverse ⟨fun a => (leBytes 5).toList.getD (a - blockAddr 6) 0,
        fun _ => false, true⟩ none ⟨lfsBlockNull, 0, 0, fun _ => 0xFF⟩ 6 5000
        (fun block visited => (0, visited ++ [block])) [] = some (0, [6, 5], rcache') ∧
      Coherent (fun b o => if b = 6 then (leBytes 5).toList[o]? else none) rcache' := by
  have hheader : ctzHeader 1 = 4 := by simp [ctzHeader, lfsCtz]
  have hstart : ctzStart 1 = 4096 := rfl
  have hsucc : ctzStart 2 = 8188 := by rw [ctzStart_succ, hstart, hheader, blockSize]
  have hstores : Stores (fun b o => if b = 6 then (leBytes 5).toList[o]? else none)
      ⟨fun a => (leBytes 5).toList.getD (a - blockAddr 6) 0, fun _ => false, true⟩ := by
    refine ⟨rfl, fun b _ o _ v hv => ⟨?_, rfl⟩⟩
    by_cases hb : b = 6
    · subst hb
      rw [if_pos rfl] at hv
      dsimp only
      rw [Nat.add_sub_cancel_left, List.getD_eq_getElem?_getD, hv, Option.getD_some]
    · rw [if_neg hb] at hv
      cases hv
  have hlist : CtzList (overlay none fun b o => if b = 6 then (leBytes 5).toList[o]? else none)
      (fun i => if i = 0 then 5 else 6) 1 := by
    refine ⟨fun i _ => ?_, fun i hi k hk hpos => ?_⟩
    · split <;> decide
    · obtain rfl : i = 1 := by omega
      have hlevel : lfsCtz 1 = 0 := by simp [lfsCtz]
      obtain rfl : k = 0 := by omega
      intro j _
      rw [Nat.mul_zero, Nat.zero_add]
      rfl
  have hcoherent : Coherent (fun b o => if b = 6 then (leBytes 5).toList[o]? else none)
      ⟨lfsBlockNull, 0, 0, fun _ => 0xFF⟩ := by
    refine ⟨rfl, ?_⟩
    rintro b hb o v ⟨rfl, -⟩
    exact absurd hb (by decide)
  exact lfsCtzTraverse_visits hstores (fun _ h => by cases h) hlist (by decide) (by decide)
    ⟨by rw [hstart]; decide, by rw [hsucc]; decide, rfl⟩
    (fun block visited => (0, visited ++ [block]))
    [] hcoherent

end Not232
