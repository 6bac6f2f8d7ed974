import Not232.FlashStore

/-!
# The caches of the file system

The file system reads and programs the flash through two caches, a window of a block each. A read
takes what it can from the program cache, then from the read cache, and bypasses or fills the read
cache for the rest. A program fills the program cache, which is flushed when it is full. Sizes and
offsets are 32-bit words; they are written as numbers, and where a sum can wrap around it does.
-/

namespace Not232

def lfsErrCorrupt : Int32 := -84

/-- The sizes that the configuration of the file system names. -/
def readSize : ℕ := 2
def progSize : ℕ := 2
def cacheSize : ℕ := 64
def blockSize : ℕ := 4096
def blockCount : ℕ := 40

def lfsBlockNull : UInt32 := 0xFFFFFFFF
def lfsBlockInline : UInt32 := 0xFFFFFFFE

def lfsAligndown (a alignment : ℕ) : ℕ := a - a % alignment

def lfsAlignup (a alignment : ℕ) : ℕ := lfsAligndown ((a + alignment - 1) % 2 ^ 32) alignment

/-- The difference of two 32-bit words. -/
def sub32 (a b : ℕ) : ℕ := if b ≤ a then a - b else 2 ^ 32 - (b - a)

structure LfsCache where
  block : UInt32
  off : ℕ
  size : ℕ
  buffer : ℕ → UInt8

namespace LfsCache

def drop (c : LfsCache) : LfsCache := { c with block := lfsBlockNull }

def zero (c : LfsCache) : LfsCache := { c with block := lfsBlockNull, buffer := fun _ => 0xFF }

/-- The cache has the block and ends behind the offset. -/
def reaches (c : LfsCache) (block : UInt32) (off : ℕ) : Bool :=
  block == c.block && decide (off < c.off + c.size)

/-- The bytes of the cache from an offset on. -/
def bytes (c : LfsCache) (off diff : ℕ) : List UInt8 :=
  (List.range diff).map fun i => c.buffer (off - c.off + i)

end LfsCache

/-- A turn of the loop of `lfs_bd_read`: bytes for the caller, a filled read cache, or an error. -/
inductive ReadTurn
  | chunk (data : List UInt8)
  | load (rcache : LfsCache)
  | fail (err : Int32) (rcache : LfsCache)

/-- The window that is read into the read cache. -/
def loadWindow (hint : ℕ) (block : UInt32) (off : ℕ) (rcache : LfsCache) : LfsCache :=
  let start := lfsAligndown off readSize
  { block := block
    off := start
    size := min (sub32 (min (lfsAlignup (off + hint) readSize) blockSize) start) cacheSize
    buffer := rcache.buffer }

/-- Reads behind the program cache. -/
def readTurnFlash (f : Flash) (hint : ℕ) (block : UInt32) (off size diff : ℕ) (rcache : LfsCache) :
    ReadTurn :=
  if size ≥ hint ∧ off % readSize = 0 ∧ size ≥ readSize then
    let diff := lfsAligndown diff readSize
    let (err, data) := flashRead block (.ofNat off) (.ofNat diff) f
    if err ≠ 0 then .fail err rcache else .chunk data
  else
    let window := loadWindow hint block off rcache
    let (err, data) := flashRead block (.ofNat window.off) (.ofNat window.size) f
    if err ≠ 0 then .fail err window else .load { window with buffer := fun i => data.getD i 0 }

def readTurnRcache (f : Flash) (hint : ℕ) (block : UInt32) (off size diff : ℕ)
    (rcache : LfsCache) : ReadTurn :=
  if rcache.reaches block off then
    if off ≥ rcache.off then
      .chunk (rcache.bytes off (min diff (rcache.size - (off - rcache.off))))
    else readTurnFlash f hint block off size (min diff (rcache.off - off)) rcache
  else readTurnFlash f hint block off size diff rcache

def readTurn (f : Flash) (pcache : Option LfsCache) (hint : ℕ) (block : UInt32) (off size : ℕ)
    (rcache : LfsCache) : ReadTurn :=
  match pcache with
  | none => readTurnRcache f hint block off size size rcache
  | some p =>
    if p.reaches block off then
      if off ≥ p.off then .chunk (p.bytes off (min size (p.size - (off - p.off))))
      else readTurnRcache f hint block off size (min size (p.off - off)) rcache
    else readTurnRcache f hint block off size size rcache

/-- The return value, the bytes read and the read cache, if `fuel` turns are enough. -/
def bdReadLoop (f : Flash) (pcache : Option LfsCache) (hint : ℕ) (block : UInt32) :
    (fuel off size : ℕ) → LfsCache → Option (Int32 × List UInt8 × LfsCache)
  | fuel, off, size, rcache =>
    if size = 0 then some (0, [], rcache)
    else
      match fuel with
      | 0 => none
      | fuel + 1 =>
        match readTurn f pcache hint block off size rcache with
        | .fail err rcache => some (err, [], rcache)
        | .load rcache => bdReadLoop f pcache hint block fuel off size rcache
        | .chunk data =>
          (bdReadLoop f pcache hint block fuel (off + data.length) (size - data.length) rcache).map
            fun r => (r.1, data ++ r.2.1, r.2.2)

/-- The loop takes at most two turns a byte, or it does not end. -/
def lfsBdRead (f : Flash) (pcache : Option LfsCache) (rcache : LfsCache) (hint : ℕ)
    (block : UInt32) (off size : ℕ) : Option (Int32 × List UInt8 × LfsCache) :=
  if (off + size) % 2 ^ 32 > blockSize ∨ block.toNat ≥ blockCount then
    some (lfsErrCorrupt, [], rcache)
  else bdReadLoop f pcache hint block (2 * size) off size rcache

/-! ### What a read returns -/

/-- The cache holds the byte. -/
def LfsCache.Covers (c : LfsCache) (block : UInt32) (off : ℕ) : Prop :=
  block = c.block ∧ c.off ≤ off ∧ off < c.off + c.size

instance (c : LfsCache) (block : UInt32) (off : ℕ) : Decidable (c.Covers block off) :=
  inferInstanceAs (Decidable (_ ∧ _ ∧ _))

/-- Where the cache covers a byte that has been programmed, it holds it. -/
structure Coherent (stored : Programmed) (c : LfsCache) : Prop where
  even : c.off % 2 = 0
  held : ∀ b < 40, ∀ o v, c.Covers b o → stored b o = some v → c.buffer (o - c.off) = v

/-- The bytes of the flash under those of a program cache. -/
def overlay (pcache : Option LfsCache) (stored : Programmed) : Programmed := fun b o =>
  match pcache with
  | none => stored b o
  | some p => if p.Covers b o then some (p.buffer (o - p.off)) else stored b o

/-- The bytes are those that have been programmed from an offset on, where any have been. -/
def Agrees (image : Programmed) (block : UInt32) (off : ℕ) (data : List UInt8) : Prop :=
  ∀ i < data.length, ∀ v, image block (off + i) = some v → data[i]? = some v

section Agrees

variable {image : Programmed} {block : UInt32} {off : ℕ} {first second : List UInt8}

theorem Agrees.append (hfirst : Agrees image block off first)
    (hsecond : Agrees image block (off + first.length) second) :
    Agrees image block off (first ++ second) := by
  intro i hi v hv
  by_cases hlt : i < first.length
  · rw [List.getElem?_append_left hlt]
    exact hfirst i hlt v hv
  · rw [List.length_append] at hi
    have hoff : off + first.length + (i - first.length) = off + i := by omega
    rw [List.getElem?_append_right (Nat.le_of_not_lt hlt)]
    exact hsecond (i - first.length) (by omega) v (by rw [hoff, hv])

/-- Bytes taken one by one. -/
theorem agrees_map {n : ℕ} {g : ℕ → UInt8}
    (h : ∀ i < n, ∀ v, image block (off + i) = some v → g i = v) :
    Agrees image block off ((List.range n).map g) := by
  intro i hi v hv
  rw [List.length_map, List.length_range] at hi
  rw [List.getElem?_map, List.getElem?_range hi, Option.map_some, h i hi v hv]

end Agrees

section Turn

variable {stored : Programmed} {f : Flash} {pcache : Option LfsCache} {rcache : LfsCache}
  {hint off size diff : ℕ} {block : UInt32}

/-- What a turn does: it returns some of the bytes, or it fills the read cache where it reads. -/
inductive TurnReads (image stored : Programmed) (block : UInt32) (off size : ℕ) : ReadTurn → Prop
  | chunk {data : List UInt8} (hpos : 0 < data.length) (hle : data.length ≤ size)
    (hdata : Agrees image block off data) : TurnReads image stored block off size (.chunk data)
  | load {rcache : LfsCache} (hcoherent : Coherent stored rcache)
    (hcovers : rcache.Covers block off) : TurnReads image stored block off size (.load rcache)

theorem toNat_ofNat_of_le {n : ℕ} (h : n ≤ 4096) : (UInt32.ofNat n).toNat = n :=
  UInt32.toNat_ofNat_of_lt (lt_of_le_of_lt h (by decide))

/-- A read of the flash inside a block. -/
theorem flashRead_ofNat (hblock : block < 40) (hfits : off + diff ≤ 4096) (f : Flash) :
    flashRead block (.ofNat off) (.ofNat diff) f =
      (0, (List.range diff).map fun i => f.mem (blockAddr block + off + i)) := by
  have hoff : (UInt32.ofNat off).toNat = off := toNat_ofNat_of_le (by omega)
  have hdiff : (UInt32.ofNat diff).toNat = diff := toNat_ofNat_of_le (by omega)
  have hfits' : (UInt32.ofNat off).toNat + (UInt32.ofNat diff).toNat ≤ 4096 := by omega
  rw [flashRead_eq hblock hfits', hoff, hdiff]

theorem agrees_flash (hstores : Stores stored f) (hblock : block < 40) (hfits : off + diff ≤ 4096) :
    Agrees stored block off ((List.range diff).map fun i => f.mem (blockAddr block + off + i)) := by
  apply agrees_map
  intro i hi v hv
  rw [Nat.add_assoc]
  exact (hstores.held block hblock (off + i) (by omega) v hv).1

theorem agrees_bytes {image : Programmed} {c : LfsCache} (h : ∀ i < diff, ∀ v,
      image block (off + i) = some v → c.buffer (off + i - c.off) = v) (hoff : c.off ≤ off) :
    Agrees image block off (c.bytes off diff) := by
  apply agrees_map
  intro i hi v hv
  rw [← h i hi v hv]
  congr 1
  omega

theorem lfsAligndown_two (a : ℕ) : lfsAligndown a 2 = a - a % 2 := rfl

theorem lfsAlignup_two {a : ℕ} (h : a + 1 < 2 ^ 32) : lfsAlignup a 2 = a + 1 - (a + 1) % 2 := by
  have hmod : (a + 2 - 1) % 2 ^ 32 = a + 1 := Nat.mod_eq_of_lt h
  rw [lfsAlignup, hmod, lfsAligndown_two]

/-- A window of at most 64 bytes from the half-word of a byte on, up to a stop behind the byte. -/
theorem window_arith {off stop : ℕ} (hlt : off < stop) (hle : stop ≤ 4096) :
    (off - off % 2) % 2 = 0 ∧ off - off % 2 ≤ off ∧
      off < off - off % 2 + min (stop - (off - off % 2)) 64 ∧
      off - off % 2 + min (stop - (off - off % 2)) 64 ≤ 4096 := by
  omega

/-- The window that is loaded holds the byte that is read and lies in its block. -/
theorem loadWindow_covers (hhint : 1 ≤ hint) (hoff : off < 4096) (hwrap : off + hint + 1 < 2 ^ 32)
    (rcache : LfsCache) :
    (loadWindow hint block off rcache).off % 2 = 0 ∧
      (loadWindow hint block off rcache).Covers block off ∧
      (loadWindow hint block off rcache).off + (loadWindow hint block off rcache).size ≤ 4096 := by
  have hup : off + hint ≤ lfsAlignup (off + hint) 2 := by
    rw [lfsAlignup_two hwrap]
    omega
  generalize hend : min (lfsAlignup (off + hint) 2) 4096 = stop
  have hstop : off < stop ∧ stop ≤ 4096 := by omega
  have hsize : (loadWindow hint block off rcache).size = min (stop - (off - off % 2)) 64 := by
    have hstart : off - off % 2 ≤ stop := by omega
    have hword : sub32 stop (off - off % 2) = stop - (off - off % 2) := if_pos hstart
    rw [← hword, ← hend]
    rfl
  have hstart : (loadWindow hint block off rcache).off = off - off % 2 := rfl
  have hblock : (loadWindow hint block off rcache).block = block := rfl
  obtain ⟨heven, hlow, hhigh, hfits⟩ := window_arith hstop.1 hstop.2
  rw [LfsCache.Covers, hsize, hstart, hblock]
  exact ⟨heven, ⟨rfl, hlow, hhigh⟩, hfits⟩

/-- Behind the caches a turn reads the flash, past the read cache or into it. -/
theorem readTurnFlash_reads {image : Programmed} (hstores : Stores stored f) (hblock : block < 40)
    (hfits : off + size ≤ 4096) (hpos : 1 ≤ diff) (hle : diff ≤ size) (hhint : 1 ≤ hint)
    (hwrap : off + hint + 1 < 2 ^ 32) (hfull : off % 2 = 0 → 2 ≤ size → 2 ≤ diff)
    (himage : ∀ i < diff, image block (off + i) = stored block (off + i)) :
    TurnReads image stored block off size (readTurnFlash f hint block off size diff rcache) := by
  rw [readTurnFlash]
  by_cases hbypass : size ≥ hint ∧ off % readSize = 0 ∧ size ≥ readSize
  · have hdiff := hfull hbypass.2.1 hbypass.2.2
    have hinside : off + (diff - diff % 2) ≤ 4096 := by omega
    have hread := flashRead_ofNat hblock hinside f
    rw [if_pos hbypass]
    simp only [readSize, lfsAligndown_two, hread, ne_eq, not_true_eq_false, if_false]
    have hlength : ((List.range (diff - diff % 2)).map fun i =>
        f.mem (blockAddr block + off + i)).length = diff - diff % 2 := by
      rw [List.length_map, List.length_range]
    refine .chunk ?_ ?_ ?_
    · rw [hlength]
      omega
    · rw [hlength]
      omega
    · have hagrees := agrees_flash hstores hblock hinside
      intro i hi v hv
      rw [himage i (by omega)] at hv
      exact hagrees i hi v hv
  · have hload : (loadWindow hint block off rcache).off % 2 = 0 ∧
        (loadWindow hint block off rcache).Covers block off ∧
        (loadWindow hint block off rcache).off + (loadWindow hint block off rcache).size ≤ 4096 :=
      loadWindow_covers hhint (by omega) hwrap rcache
    obtain ⟨heven, hcovers, hend⟩ := hload
    rw [if_neg hbypass]
    dsimp only
    generalize loadWindow hint block off rcache = window at heven hcovers hend
    have hagrees := agrees_flash hstores hblock hend
    simp only [flashRead_ofNat hblock hend f, ne_eq, not_true_eq_false, if_false]
    refine .load ⟨heven, ?_⟩ hcovers
    rintro b - o v ⟨hb, hlow, hhigh⟩ hstored
    obtain rfl : b = block := hb.trans hcovers.1.symm
    change window.off ≤ o at hlow
    change o < window.off + window.size at hhigh
    have hindex : window.off + (o - window.off) = o := Nat.add_sub_cancel' hlow
    rw [← hindex] at hstored
    have hlength : o - window.off < ((List.range window.size).map fun i =>
        f.mem (blockAddr b + window.off + i)).length := by
      rw [List.length_map, List.length_range]
      omega
    have hget := hagrees (o - window.off) hlength v hstored
    dsimp only
    rw [List.getD_eq_getElem?_getD, hget, Option.getD_some]

theorem reaches_iff {c : LfsCache} :
    c.reaches block off = true ↔ block = c.block ∧ off < c.off + c.size := by
  rw [LfsCache.reaches, Bool.and_eq_true, beq_iff_eq, decide_eq_true_iff]

theorem readTurnRcache_reads {image : Programmed} (hstores : Stores stored f) (hblock : block < 40)
    (hfits : off + size ≤ 4096) (hpos : 1 ≤ diff) (hle : diff ≤ size) (hhint : 1 ≤ hint)
    (hwrap : off + hint + 1 < 2 ^ 32) (hfull : off % 2 = 0 → 2 ≤ size → 2 ≤ diff)
    (himage : ∀ i < diff, image block (off + i) = stored block (off + i))
    (hcoherent : Coherent stored rcache) :
    TurnReads image stored block off size (readTurnRcache f hint block off size diff rcache) := by
  have heven := hcoherent.even
  rw [readTurnRcache]
  by_cases hreaches : rcache.reaches block off = true
  · obtain ⟨hb, hend⟩ := reaches_iff.mp hreaches
    rw [if_pos hreaches]
    by_cases hoff : off ≥ rcache.off
    · rw [if_pos hoff]
      refine .chunk ?_ ?_ (agrees_bytes ?_ hoff)
      · rw [LfsCache.bytes, List.length_map, List.length_range]
        omega
      · rw [LfsCache.bytes, List.length_map, List.length_range]
        omega
      · intro i hi v hv
        rw [himage i (by omega)] at hv
        exact hcoherent.held block hblock (off + i) v ⟨hb, by omega, by omega⟩ hv
    · rw [if_neg hoff]
      exact readTurnFlash_reads hstores hblock hfits (by omega) (by omega) hhint hwrap
        (fun heven' hsize => by have := hfull heven' hsize; omega) fun i hi => himage i (by omega)
  · rw [if_neg hreaches]
    exact readTurnFlash_reads hstores hblock hfits hpos hle hhint hwrap hfull himage

/-- A turn of the loop. -/
theorem readTurn_reads (hstores : Stores stored f) (hblock : block < 40)
    (hfits : off + size ≤ 4096) (hpos : 1 ≤ size) (hhint : 1 ≤ hint)
    (hwrap : off + hint + 1 < 2 ^ 32) (hcoherent : Coherent stored rcache)
    (heven : ∀ p ∈ pcache, p.off % 2 = 0) :
    TurnReads (overlay pcache stored) stored block off size
      (readTurn f pcache hint block off size rcache) := by
  cases pcache with
  | none =>
    exact readTurnRcache_reads hstores hblock hfits hpos le_rfl hhint hwrap (fun _ h => h)
      (fun _ _ => rfl) hcoherent
  | some p =>
    have hpeven := heven p rfl
    simp only [readTurn]
    by_cases hreaches : p.reaches block off = true
    · obtain ⟨hb, hend⟩ := reaches_iff.mp hreaches
      rw [if_pos hreaches]
      by_cases hoff : off ≥ p.off
      · rw [if_pos hoff]
        refine .chunk ?_ ?_ (agrees_bytes ?_ hoff)
        · rw [LfsCache.bytes, List.length_map, List.length_range]
          omega
        · rw [LfsCache.bytes, List.length_map, List.length_range]
          omega
        · intro i hi v hv
          have hcovers : p.Covers block (off + i) := ⟨hb, by omega, by omega⟩
          simp only [overlay, if_pos hcovers, Option.some.injEq] at hv
          exact hv
      · rw [if_neg hoff]
        refine readTurnRcache_reads hstores hblock hfits (by omega) (by omega) hhint hwrap
          (fun heven' hsize => by omega) (fun i hi => ?_) hcoherent
        have hout : ¬ p.Covers block (off + i) := by
          rintro ⟨-, hlow, -⟩
          omega
        simp only [overlay, if_neg hout]
    · rw [if_neg hreaches]
      have hbefore : ¬ (block = p.block ∧ off < p.off + p.size) := fun h =>
        hreaches (reaches_iff.mpr h)
      refine readTurnRcache_reads hstores hblock hfits hpos le_rfl hhint hwrap (fun _ h => h)
        (fun i hi => ?_) hcoherent
      have hout : ¬ p.Covers block (off + i) := by
        rintro ⟨hb, -, hhigh⟩
        exact hbefore ⟨hb, by omega⟩
      simp only [overlay, if_neg hout]

/-- A byte that the read cache covers needs no load. -/
theorem readTurn_of_covers (hcovers : rcache.Covers block off) :
    ∃ data, readTurn f pcache hint block off size rcache = .chunk data := by
  have hreaches := reaches_iff.mpr ⟨hcovers.1, hcovers.2.2⟩
  have hrcache : ∀ diff, ∃ data,
      readTurnRcache f hint block off size diff rcache = .chunk data := by
    intro diff
    rw [readTurnRcache, if_pos hreaches, if_pos hcovers.2.1]
    exact ⟨_, rfl⟩
  cases pcache with
  | none => exact hrcache size
  | some p =>
    simp only [readTurn]
    by_cases hp : p.reaches block off = true
    · rw [if_pos hp]
      by_cases hoff : off ≥ p.off
      · rw [if_pos hoff]
        exact ⟨_, rfl⟩
      · rw [if_neg hoff]
        exact hrcache _
    · rw [if_neg hp]
      exact hrcache _

/-- The loop ends, since a load is followed by a chunk, and returns the bytes that have been
programmed. -/
theorem bdReadLoop_reads (hstores : Stores stored f) (hblock : block < 40) (hhint : 1 ≤ hint)
    (hwrap : 4096 + hint + 1 < 2 ^ 32) (heven : ∀ p ∈ pcache, p.off % 2 = 0) (fuel off size : ℕ)
    (rcache : LfsCache) (hfits : off + size ≤ 4096) (hcoherent : Coherent stored rcache)
    (hfuel : (if rcache.Covers block off then 2 * size - 1 else 2 * size) ≤ fuel) :
    ∃ data rcache', bdReadLoop f pcache hint block fuel off size rcache = some (0, data, rcache') ∧
      data.length = size ∧ Agrees (overlay pcache stored) block off data ∧
      Coherent stored rcache' := by
  induction fuel generalizing off size rcache with
  | zero =>
    have hsize : size = 0 := by
      by_cases hcovers : rcache.Covers block off
      · rw [if_pos hcovers] at hfuel
        omega
      · rw [if_neg hcovers] at hfuel
        omega
    subst hsize
    refine ⟨[], rcache, rfl, rfl, ?_, hcoherent⟩
    intro i hi
    cases hi
  | succ fuel ih =>
    by_cases hsize : size = 0
    · subst hsize
      refine ⟨[], rcache, rfl, rfl, ?_, hcoherent⟩
      intro i hi
      cases hi
    have hturn : TurnReads (overlay pcache stored) stored block off size
        (readTurn f pcache hint block off size rcache) :=
      readTurn_reads hstores hblock hfits (by omega) hhint (by omega) hcoherent heven
    rw [bdReadLoop, if_neg hsize]
    cases hresult : readTurn f pcache hint block off size rcache with
    | fail err r =>
      rw [hresult] at hturn
      cases hturn
    | load r =>
      rw [hresult] at hturn
      cases hturn with
      | load hcoherent' hcovers' =>
        have huncovered : ¬ rcache.Covers block off := by
          intro hcovers
          have hchunk : ∃ data, readTurn f pcache hint block off size rcache = .chunk data :=
            readTurn_of_covers hcovers
          rcases hchunk with ⟨data, hdata⟩
          rw [hdata] at hresult
          cases hresult
        rw [if_neg huncovered] at hfuel
        apply ih off size r hfits hcoherent'
        rw [if_pos hcovers']
        omega
    | chunk data =>
      rw [hresult] at hturn
      cases hturn with
      | chunk hpos hle hdata =>
        have hfuel' : 2 * size - 1 ≤ fuel + 1 := by
          split at hfuel
          · exact hfuel
          · omega
        obtain ⟨rest, r, hloop, hlength, hrest, hcoherent'⟩ :=
          ih (off + data.length) (size - data.length) rcache (by omega) hcoherent
            (by split <;> omega)
        refine ⟨data ++ rest, r, ?_, ?_, hdata.append hrest, hcoherent'⟩
        · simp only [hloop, Option.map_some]
        · rw [List.length_append, hlength]
          omega

/-- A read inside a block returns, without an error, the bytes that have been programmed, from the
program cache if it is given. -/
theorem lfsBdRead_reads (hstores : Stores stored f) (hblock : block < 40) (hhint : 1 ≤ hint)
    (hwrap : 4096 + hint + 1 < 2 ^ 32) (heven : ∀ p ∈ pcache, p.off % 2 = 0)
    (hfits : off + size ≤ 4096) (hcoherent : Coherent stored rcache) :
    ∃ data rcache', lfsBdRead f pcache rcache hint block off size = some (0, data, rcache') ∧
      data.length = size ∧ Agrees (overlay pcache stored) block off data ∧
      Coherent stored rcache' := by
  have hword : (off + size) % 2 ^ 32 = off + size :=
    Nat.mod_eq_of_lt (lt_of_le_of_lt hfits (by decide))
  have hlt : block.toNat < 40 := hblock
  have hinside : ¬ ((off + size) % 2 ^ 32 > blockSize ∨ block.toNat ≥ blockCount) := by
    rw [hword, blockSize, blockCount]
    omega
  rw [lfsBdRead, if_neg hinside]
  exact bdReadLoop_reads hstores hblock hhint hwrap heven (2 * size) off size rcache hfits hcoherent
    (by split <;> omega)

end Turn

end Not232
