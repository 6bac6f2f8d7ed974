import Mathlib.Tactic
import Not232.Words

/-!
# The flash block device

The file system lies in 40 pages of the internal flash behind the program. Its block device checks
a call, computes the address and drives the flash controller. What the hardware answers, and what an
erase leaves in its page, are inputs. The controller's routines have no value where their behaviour
is not specified: on a locked controller, and for a half-word that is not erased or not aligned.
-/

namespace Not232

def lfsFlashBaseAddr : UInt32 := 0x08010000
def lfsFlashSize : UInt32 := 160 * 1024
def lfsFlashBlockSize : UInt32 := 4096
def lfsFlashBlockCount : UInt32 := lfsFlashSize / lfsFlashBlockSize

def lfsErrIo : Int32 := -5
def lfsErrInval : Int32 := -22

inductive FlashStatus
  | busy
  | errorPg
  | errorWrp
  | complete
  | timeout
  | opRangeError
  | alignError
  | adrRangeError
  deriving DecidableEq

/-- The bytes by address, the erased half-words by number, and the lock of the controller. -/
structure Flash where
  mem : ℕ → UInt8
  erased : ℕ → Bool
  locked : Bool

/-- The status of an erase, and what it leaves in the page. -/
structure EraseOutcome where
  status : FlashStatus
  mem : ℕ → UInt8
  erased : ℕ → Bool

namespace Flash

def unlock (f : Flash) : Flash := { f with locked := false }

def lock (f : Flash) : Flash := { f with locked := true }

/-- Changes the page of an address only; if it completes, the page is erased. -/
def erasePage (outcome : EraseOutcome) (addr : UInt32) (f : Flash) : Option (FlashStatus × Flash) :=
  if f.locked then none
  else some (outcome.status,
    { mem := fun a => if a / 4096 = addr.toNat / 4096 then outcome.mem a else f.mem a
      erased := fun h =>
        if 2 * h / 4096 = addr.toNat / 4096 then outcome.status == .complete || outcome.erased h
        else f.erased h
      locked := f.locked })

/-- Stores an erased half-word and completes, or answers another status and stores nothing. -/
def programHalfWord (status : FlashStatus) (addr : UInt32) (half : UInt16) (f : Flash) :
    Option (FlashStatus × Flash) :=
  if f.locked || addr.toNat % 2 == 1 || !f.erased (addr.toNat / 2) then none
  else if status = .complete then
    some (status,
      { mem := Function.update (Function.update f.mem addr.toNat half.toUInt8) (addr.toNat + 1)
          (half >>> 8).toUInt8
        erased := Function.update f.erased (addr.toNat / 2) false
        locked := f.locked })
  else some (status, f)

end Flash

def ch32LfsAddrValid (block off size : UInt32) : Bool :=
  if block ≥ lfsFlashBlockCount then false
  else if off + size > lfsFlashBlockSize then false
  else true

def ch32LfsPhysAddr (block off : UInt32) : UInt32 :=
  lfsFlashBaseAddr + block * lfsFlashBlockSize + off

/-- The return value and the bytes copied into the buffer. -/
def flashRead (block off size : UInt32) (f : Flash) : Int32 × List UInt8 :=
  if !ch32LfsAddrValid block off size then (lfsErrInval, [])
  else
    let addr := ch32LfsPhysAddr block off
    (0, (List.range size.toNat).map fun i => f.mem (addr.toNat + i))

/-- The programming loop with `n` turns left. -/
def progLoop (addr : UInt32) (src : ℕ → UInt8) (status : ℕ → FlashStatus) :
    (n i : ℕ) → Flash → Option (Int32 × Flash)
  | 0, _, f => some (0, f.lock)
  | n + 1, i, f =>
    let half := (src i).toUInt16 ||| (src (i + 1)).toUInt16 <<< 8
    match f.programHalfWord (status i) (addr + .ofNat i) half with
    | none => none
    | some (status', f) =>
      if status' ≠ .complete then some (lfsErrIo, f.lock)
      else progLoop addr src status n (i + 2) f

def flashProg (block off : UInt32) (buffer : ℕ → UInt8) (size : UInt32)
    (status : ℕ → FlashStatus) (f : Flash) : Option (Int32 × Flash) :=
  if !ch32LfsAddrValid block off size then some (lfsErrInval, f)
  else if off &&& 1 ≠ 0 ∨ size &&& 1 ≠ 0 then some (lfsErrInval, f)
  else progLoop (ch32LfsPhysAddr block off) buffer status ((size.toNat + 1) / 2) 0 f.unlock

def flashErase (block : UInt32) (outcome : EraseOutcome) (f : Flash) : Option (Int32 × Flash) :=
  if block ≥ lfsFlashBlockCount then some (lfsErrInval, f)
  else
    match f.unlock.erasePage outcome (ch32LfsPhysAddr block 0) with
    | none => none
    | some (status, f) => some (if status ≠ .complete then lfsErrIo else 0, f.lock)

/-! ### Addresses -/

/-- The first address of a block. -/
def blockAddr (block : UInt32) : ℕ := 0x08010000 + 4096 * block.toNat

theorem toNat_ch32LfsPhysAddr_mod (block off : UInt32) :
    (ch32LfsPhysAddr block off).toNat = (blockAddr block + off.toNat) % 2 ^ 32 := by
  have hbase : lfsFlashBaseAddr.toNat = 0x08010000 := rfl
  have hsize : lfsFlashBlockSize.toNat = 4096 := rfl
  rw [ch32LfsPhysAddr, UInt32.toNat_add, UInt32.toNat_add, UInt32.toNat_mul, hbase, hsize,
    blockAddr]
  omega

theorem toNat_ch32LfsPhysAddr {block off : UInt32} (hblock : block < 40) (hoff : off.toNat ≤ 4096) :
    (ch32LfsPhysAddr block off).toNat = blockAddr block + off.toNat := by
  have hblock' : block.toNat < 40 := hblock
  rw [toNat_ch32LfsPhysAddr_mod]
  apply Nat.mod_eq_of_lt
  rw [blockAddr]
  omega

theorem ch32LfsAddrValid_iff {block off size : UInt32} :
    ch32LfsAddrValid block off size = true ↔
      block.toNat < 40 ∧ (off.toNat + size.toNat) % 2 ^ 32 ≤ 4096 := by
  have hblock : block ≥ lfsFlashBlockCount ↔ ¬ block.toNat < 40 := Nat.not_lt.symm
  have hsum : off + size > lfsFlashBlockSize ↔ ¬ (off.toNat + size.toNat) % 2 ^ 32 ≤ 4096 := by
    rw [gt_iff_lt, UInt32.lt_iff_toNat_lt, UInt32.toNat_add]
    exact Nat.not_le.symm
  rw [ch32LfsAddrValid]
  by_cases hlt : block.toNat < 40
  · simp [hblock, hsum, hlt]
  · simp [hblock, hlt]

theorem ch32LfsAddrValid_of_fits {block off size : UInt32} (hblock : block < 40)
    (hfits : off.toNat + size.toNat ≤ 4096) : ch32LfsAddrValid block off size = true :=
  ch32LfsAddrValid_iff.mpr ⟨hblock, by omega⟩

/-! ### What programming writes -/

theorem toUInt8_half (low high : UInt8) :
    (low.toUInt16 ||| high.toUInt16 <<< 8).toUInt8 = low := by
  have hshift : (high.toUInt16 <<< 8).toBitVec = high.toUInt16.toBitVec <<< 8 := rfl
  apply UInt8.toBitVec_inj.mp
  ext i hi
  simp only [UInt16.toBitVec_toUInt8, UInt16.toBitVec_or, hshift, UInt8.toBitVec_toUInt16]
  simp

theorem toUInt8_half_shiftRight (low high : UInt8) :
    ((low.toUInt16 ||| high.toUInt16 <<< 8) >>> 8).toUInt8 = high := by
  have hleft : (high.toUInt16 <<< 8).toBitVec = high.toUInt16.toBitVec <<< 8 := rfl
  have hright : ∀ w : UInt16, (w >>> 8).toBitVec = w.toBitVec >>> 8 := fun _ => rfl
  apply UInt8.toBitVec_inj.mp
  ext i hi
  have h16 : 8 + i < 16 := by omega
  have hi16 : i < 16 := by omega
  simp only [UInt16.toBitVec_toUInt8, UInt16.toBitVec_or, hleft, UInt8.toBitVec_toUInt16, hright]
  simp [h16, hi16, BitVec.getLsbD_eq_getElem hi]

namespace Flash

/-- Bytes are programmed from an address on. -/
def written (start len : ℕ) (bytes : ℕ → UInt8) (f : Flash) : Flash where
  mem a := if start ≤ a ∧ a < start + len then bytes (a - start) else f.mem a
  erased h := if start ≤ 2 * h ∧ 2 * h < start + len then false else f.erased h
  locked := f.locked

theorem written_zero (start : ℕ) (bytes : ℕ → UInt8) (f : Flash) : f.written start 0 bytes = f := by
  have hempty : ∀ a, ¬ (start ≤ a ∧ a < start + 0) := by
    intro a
    omega
  simp only [written, if_neg (hempty _)]

theorem lock_written_unlock {f : Flash} (h : f.locked = true) (start len : ℕ)
    (bytes : ℕ → UInt8) : (f.unlock.written start len bytes).lock = f.written start len bytes := by
  unfold written unlock lock
  rw [h]

/-- An erased half-word on an unlocked controller is stored least significant byte first. -/
theorem programHalfWord_complete {addr : UInt32} {f : Flash} (hlocked : f.locked = false)
    (haligned : addr.toNat % 2 = 0) (herased : f.erased (addr.toNat / 2) = true)
    (bytes : ℕ → UInt8) :
    f.programHalfWord .complete addr ((bytes 0).toUInt16 ||| (bytes 1).toUInt16 <<< 8) =
      some (.complete, f.written addr.toNat 2 bytes) := by
  have hspecified : (f.locked || addr.toNat % 2 == 1 || !f.erased (addr.toNat / 2)) = false := by
    simp [hlocked, haligned, herased]
  rw [programHalfWord, if_neg (Bool.eq_false_iff.mp hspecified), if_pos rfl, toUInt8_half,
    toUInt8_half_shiftRight, written]
  congr 3
  · funext a
    simp only [Function.update_apply]
    by_cases h1 : a = addr.toNat + 1
    · subst h1
      rw [if_pos rfl, if_pos (by omega), Nat.add_sub_cancel_left]
    · by_cases h0 : a = addr.toNat
      · subst h0
        rw [if_neg h1, if_pos rfl, if_pos (by omega), Nat.sub_self]
      · rw [if_neg h1, if_neg h0, if_neg (by omega)]
  · funext h
    rw [Function.update_apply]
    exact if_congr (by omega) rfl rfl

theorem programHalfWord_fails {status : FlashStatus} {addr : UInt32} {f : Flash}
    (hstatus : status ≠ .complete) (hlocked : f.locked = false) (haligned : addr.toNat % 2 = 0)
    (herased : f.erased (addr.toNat / 2) = true) (half : UInt16) :
    f.programHalfWord status addr half = some (status, f) := by
  have hspecified : (f.locked || addr.toNat % 2 == 1 || !f.erased (addr.toNat / 2)) = false := by
    simp [hlocked, haligned, herased]
  rw [programHalfWord, if_neg (Bool.eq_false_iff.mp hspecified), if_neg hstatus]

theorem written_written (start m n : ℕ) (bytes : ℕ → UInt8) (f : Flash) :
    (f.written start m bytes).written (start + m) n (fun j => bytes (m + j)) =
      f.written start (m + n) bytes := by
  unfold written
  congr 1
  · funext a
    dsimp only
    by_cases hlow : start ≤ a ∧ a < start + m
    · rw [if_neg (by omega), if_pos hlow, if_pos (by omega)]
    · by_cases hhigh : start + m ≤ a ∧ a < start + m + n
      · have hoffset : m + (a - (start + m)) = a - start := by omega
        rw [if_pos hhigh, if_pos (by omega), hoffset]
      · rw [if_neg hhigh, if_neg hlow, if_neg (by omega)]
  · funext h
    dsimp only
    by_cases hlow : start ≤ 2 * h ∧ 2 * h < start + m
    · rw [if_neg (by omega), if_pos hlow, if_pos (by omega)]
    · by_cases hhigh : start + m ≤ 2 * h ∧ 2 * h < start + m + n
      · rw [if_pos hhigh, if_pos (by omega)]
      · rw [if_neg hhigh, if_neg hlow, if_neg (by omega)]

end Flash

/-- The turns of the programming loop that completed: all of them, or those before the first whose
status is not `complete`. -/
structure Completed (status : ℕ → FlashStatus) (n i k : ℕ) : Prop where
  le : k ≤ n
  before : ∀ j < k, status (i + 2 * j) = .complete
  after : k < n → status (i + 2 * k) ≠ .complete

/-- The loop programs the half-words of the turns that completed, and locks the controller. -/
theorem progLoop_spec {addr : UInt32} (src : ℕ → UInt8) (status : ℕ → FlashStatus) (n i : ℕ)
    (f : Flash) (hlocked : f.locked = false) (haligned : (addr.toNat + i) % 2 = 0)
    (hrange : addr.toNat + i + 2 * n < 2 ^ 32)
    (herased : ∀ j < n, f.erased ((addr.toNat + i) / 2 + j) = true) :
    ∃ k, Completed status n i k ∧ progLoop addr src status n i f =
      some (if k = n then 0 else lfsErrIo,
        (f.written (addr.toNat + i) (2 * k) fun j => src (i + j)).lock) := by
  induction n generalizing i f with
  | zero =>
    refine ⟨0, ⟨le_rfl, fun j hj => absurd hj (Nat.not_lt_zero j), fun h => absurd h (by omega)⟩,
      ?_⟩
    rw [Nat.mul_zero, Flash.written_zero, if_pos rfl]
    rfl
  | succ n ih =>
    have haddr : (addr + .ofNat i).toNat = addr.toNat + i := toNat_add_ofNat (by omega)
    have hfirst : f.erased ((addr + .ofNat i).toNat / 2) = true := by
      rw [haddr]
      exact herased 0 (Nat.succ_pos n)
    by_cases hstatus : status i = .complete
    · have hprogram := Flash.programHalfWord_complete hlocked (haddr ▸ haligned) hfirst
        fun j => src (i + j)
      rw [haddr, Nat.add_zero] at hprogram
      have hkept : ∀ j < n, (f.written (addr.toNat + i) 2 fun j => src (i + j)).erased
          ((addr.toNat + (i + 2)) / 2 + j) = true := by
        intro j hj
        have hnext := herased (j + 1) (by omega)
        have hhalf : (addr.toNat + i) / 2 + (j + 1) = (addr.toNat + (i + 2)) / 2 + j := by omega
        rw [hhalf] at hnext
        simp only [Flash.written]
        rw [if_neg (by omega)]
        exact hnext
      obtain ⟨k, ⟨hle, hbefore, hafter⟩, hloop⟩ :=
        ih (i + 2) (f.written (addr.toNat + i) 2 fun j => src (i + j)) hlocked (by omega) (by omega)
          hkept
      refine ⟨k + 1, ⟨by omega, ?_, ?_⟩, ?_⟩
      · intro j hj
        by_cases hj0 : j = 0
        · rw [hj0, Nat.mul_zero, Nat.add_zero, hstatus]
        · have hprev := hbefore (j - 1) (by omega)
          have hindex : i + 2 + 2 * (j - 1) = i + 2 * j := by omega
          rwa [hindex] at hprev
      · intro hk
        have hnext := hafter (by omega)
        have hindex : i + 2 + 2 * k = i + 2 * (k + 1) := by omega
        rwa [hindex] at hnext
      · have hwritten := Flash.written_written (addr.toNat + i) 2 (2 * k) (fun j => src (i + j)) f
        have hcode : (if k + 1 = n + 1 then (0 : Int32) else lfsErrIo) =
            if k = n then 0 else lfsErrIo := if_congr (by omega) rfl rfl
        have hlength : 2 * (k + 1) = 2 + 2 * k := by omega
        rw [progLoop, hstatus, hprogram]
        dsimp only
        rw [if_neg (not_not.mpr rfl), hloop, hcode, hlength, ← hwritten]
        simp only [Nat.add_assoc]
    · have hprogram := Flash.programHalfWord_fails hstatus hlocked (haddr ▸ haligned) hfirst
        ((src i).toUInt16 ||| (src (i + 1)).toUInt16 <<< 8)
      refine ⟨0, ⟨Nat.zero_le _, fun j hj => absurd hj (Nat.not_lt_zero j), fun _ => hstatus⟩, ?_⟩
      rw [progLoop, hprogram, Nat.mul_zero, Flash.written_zero, if_neg (Nat.succ_ne_zero n).symm]
      dsimp only
      rw [if_pos hstatus]

/-! ### The calls -/

section Calls

variable {block off size : UInt32} {f : Flash}

theorem and_one_ne_zero (w : UInt32) : w &&& 1 ≠ 0 ↔ w.toNat % 2 = 1 := by
  rw [← Nat.and_one_is_mod]
  have hnat : (w &&& 1).toNat = w.toNat &&& 1 := UInt32.toNat_and w 1
  rw [ne_eq, ← UInt32.toNat_inj, hnat, Nat.and_one_is_mod]
  change ¬ w.toNat % 2 = 0 ↔ _
  omega

theorem flashRead_eq (hblock : block < 40) (hfits : off.toNat + size.toNat ≤ 4096) (f : Flash) :
    flashRead block off size f =
      (0, (List.range size.toNat).map fun i => f.mem (blockAddr block + off.toNat + i)) := by
  rw [flashRead, ch32LfsAddrValid_of_fits hblock hfits, if_neg (by decide)]
  dsimp only
  rw [toNat_ch32LfsPhysAddr hblock (by omega)]

theorem flashProg_odd (hodd : off.toNat % 2 = 1 ∨ size.toNat % 2 = 1) (buffer : ℕ → UInt8)
    (status : ℕ → FlashStatus) (f : Flash) :
    flashProg block off buffer size status f = some (lfsErrInval, f) := by
  have hodd' : off &&& 1 ≠ 0 ∨ size &&& 1 ≠ 0 := by
    rwa [and_one_ne_zero, and_one_ne_zero]
  rw [flashProg, if_pos hodd', ite_self]

/-- On an aligned range of erased half-words the call programs those of the turns that completed. -/
theorem flashProg_spec (hblock : block < 40) (hfits : off.toNat + size.toNat ≤ 4096)
    (hoff : off.toNat % 2 = 0) (hsize : size.toNat % 2 = 0) (hlocked : f.locked = true)
    (herased : ∀ j < size.toNat / 2,
      f.erased ((blockAddr block + off.toNat) / 2 + j) = true)
    (buffer : ℕ → UInt8) (status : ℕ → FlashStatus) :
    ∃ k, Completed status (size.toNat / 2) 0 k ∧
      flashProg block off buffer size status f =
        some (if k = size.toNat / 2 then 0 else lfsErrIo,
          f.written (blockAddr block + off.toNat) (2 * k) buffer) := by
  have heven : ¬ (off &&& 1 ≠ 0 ∨ size &&& 1 ≠ 0) := by
    rw [and_one_ne_zero, and_one_ne_zero]
    omega
  have haddr : (ch32LfsPhysAddr block off).toNat = blockAddr block + off.toNat :=
    toNat_ch32LfsPhysAddr hblock (by omega)
  have hblock' : block.toNat < 40 := hblock
  have hbase : blockAddr block = 0x08010000 + 4096 * block.toNat := rfl
  have hturns : (size.toNat + 1) / 2 = size.toNat / 2 := by omega
  have hunlocked : ∀ j < size.toNat / 2,
      f.unlock.erased (((ch32LfsPhysAddr block off).toNat + 0) / 2 + j) = true := by
    rw [haddr]
    exact herased
  obtain ⟨k, hk, hloop⟩ := progLoop_spec buffer status (size.toNat / 2) 0 f.unlock rfl
    (by omega) (by omega) hunlocked
  simp only [haddr, Nat.add_zero, Nat.zero_add] at hloop
  refine ⟨k, hk, ?_⟩
  rw [flashProg, ch32LfsAddrValid_of_fits hblock hfits, if_neg (by decide), if_neg heven, hturns,
    hloop, Flash.lock_written_unlock hlocked]

theorem flashErase_eq (hblock : block < 40) (outcome : EraseOutcome) (f : Flash) :
    flashErase block outcome f =
      some (if outcome.status ≠ .complete then lfsErrIo else 0,
        { mem := fun a => if a / 4096 = blockAddr block / 4096 then outcome.mem a else f.mem a
          erased := fun h => if 2 * h / 4096 = blockAddr block / 4096
            then outcome.status == .complete || outcome.erased h else f.erased h
          locked := true }) := by
  have haddr : (ch32LfsPhysAddr block 0).toNat = blockAddr block :=
    toNat_ch32LfsPhysAddr hblock (Nat.zero_le _)
  have hcount : ¬ block ≥ lfsFlashBlockCount := UInt32.not_le.mpr hblock
  rw [flashErase, if_neg hcount, Flash.erasePage, haddr]
  rfl

end Calls

end Not232
