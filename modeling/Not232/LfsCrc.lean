import Not232.ShiftCheck

/-!
# The checksum of the file system

`lfs_crc` takes four bits at a time from a table. It is the check register of the reflected
polynomial, fed with the bits of each byte from the least significant one on.
-/

namespace Not232

open ShiftCheck

def rtable : List UInt32 :=
  [0x00000000, 0x1db71064, 0x3b6e20c8, 0x26d930ac,
   0x76dc4190, 0x6b6b51f4, 0x4db26158, 0x5005713c,
   0xedb88320, 0xf00f9344, 0xd6d6a3e8, 0xcb61b38c,
   0x9b64c2b0, 0x86d3d2d4, 0xa00ae278, 0xbdbdf21c]

/-- One look at the table. -/
def crcNibble (crc : UInt32) (nibble : UInt8) : UInt32 :=
  crc >>> 4 ^^^ rtable.getD ((crc ^^^ nibble.toUInt32) &&& 0xf).toNat 0

def lfsCrc (crc : UInt32) : List UInt8 → UInt32
  | [] => crc
  | byte :: data => lfsCrc (crcNibble (crcNibble crc byte) (byte >>> 4)) data

/-- The polynomial 0x04c11db7, reflected. -/
def crcPoly : BitVec 32 := 0xedb88320#32

/-- The last four bits, the least significant one first. -/
def nibbleBits (nibble : UInt8) : List Bool := (List.range 4).map nibble.toBitVec.getLsbD

/-- The bits of the bytes, the least significant one of each first. -/
def dataBits (data : List UInt8) : List Bool :=
  data.flatMap fun byte => (List.range 8).map byte.toBitVec.getLsbD

theorem crcPoly_monic : Monic crcPoly := ⟨by decide, by decide⟩

theorem lfsCrc_append (crc : UInt32) (first second : List UInt8) :
    lfsCrc crc (first ++ second) = lfsCrc (lfsCrc crc first) second := by
  induction first generalizing crc with
  | nil => rfl
  | cons byte data ih => exact ih _

/-- The table holds the registers that four bits leave. -/
theorem rtable_eq : ∀ i : Fin 16, (rtable.getD i.val 0).toBitVec =
    feed crcPoly (List.replicate 4 false) (BitVec.ofNat 32 i.val) := by
  decide

theorem getLsbD_fifteen (i : ℕ) : (0xf#32).getLsbD i = decide (i < 4) := by
  have hmask : (15 : ℕ) = 2 ^ 4 - 1 := rfl
  rw [BitVec.getLsbD_ofNat, hmask, Nat.testBit_two_pow_sub_one]
  by_cases hi : i < 4
  · have hi32 : i < 32 := by omega
    simp [hi, hi32]
  · simp [hi]

theorem low_four (c : BitVec 32) : low 4 c = c &&& 0xf#32 := by
  apply BitVec.eq_of_getLsbD_eq
  intro i hi
  rw [low, BitVec.getLsbD_xor, BitVec.getLsbD_shiftLeft, BitVec.getLsbD_ushiftRight,
    BitVec.getLsbD_and, getLsbD_fifteen]
  by_cases hlow : i < 4
  · simp [hlow]
  · have hback : 4 + (i - 4) = i := by omega
    simp [hlow, hi, hback]

theorem getLsbD_word_nibble (nibble : UInt8) {i : ℕ} (hi : i < 32) :
    (word (nibbleBits nibble) : BitVec 32).getLsbD i =
      (decide (i < 4) && nibble.toBitVec.getLsbD i) := by
  rw [getLsbD_word _ hi, nibbleBits, List.getD_eq_getElem?_getD, List.getElem?_map]
  by_cases hlow : i < 4
  · rw [List.getElem?_range hlow]
    simp [hlow]
  · rw [List.getElem?_eq_none (by simpa using hlow)]
    simp [hlow]

theorem crcNibble_eq (crc : UInt32) (nibble : UInt8) :
    (crcNibble crc nibble).toBitVec = feed crcPoly (nibbleBits nibble) crc.toBitVec := by
  have hlen : (nibbleBits nibble).length = 4 := rfl
  have hshift : (crc.toBitVec ^^^ word (nibbleBits nibble)) >>> 4 = crc.toBitVec >>> 4 := by
    apply BitVec.eq_of_getLsbD_eq
    intro i hi
    rw [BitVec.getLsbD_ushiftRight, BitVec.getLsbD_ushiftRight, BitVec.getLsbD_xor]
    by_cases hin : 4 + i < 32
    · rw [getLsbD_word_nibble nibble hin]
      simp
    · rw [BitVec.getLsbD_of_ge _ _ (by omega), BitVec.getLsbD_of_ge _ _ (by omega)]
      rfl
  have hindex : low 4 (crc.toBitVec ^^^ word (nibbleBits nibble)) =
      ((crc ^^^ nibble.toUInt32) &&& 0xf).toBitVec := by
    rw [low_four]
    apply BitVec.eq_of_getLsbD_eq
    intro i hi
    rw [UInt32.toBitVec_and, UInt32.toBitVec_xor, UInt8.toBitVec_toUInt32, BitVec.getLsbD_and,
      BitVec.getLsbD_and, BitVec.getLsbD_xor, BitVec.getLsbD_xor, getLsbD_word_nibble nibble hi,
      BitVec.getLsbD_setWidth]
    have hmask : (UInt32.toBitVec 0xf).getLsbD i = decide (i < 4) := getLsbD_fifteen i
    rw [getLsbD_fifteen, hmask]
    by_cases hlow : i < 4
    · simp [hlow, hi]
    · simp [hlow]
  have hlt : ((crc ^^^ nibble.toUInt32) &&& 0xf).toNat < 16 := by
    have hle := Nat.and_le_right (n := (crc ^^^ nibble.toUInt32).toNat) (m := 15)
    have hand : ((crc ^^^ nibble.toUInt32) &&& 0xf).toNat = (crc ^^^ nibble.toUInt32).toNat &&& 15 :=
      UInt32.toNat_and _ _
    omega
  have htable := rtable_eq ⟨_, hlt⟩
  have hself : BitVec.ofNat 32 ((crc ^^^ nibble.toUInt32) &&& 0xf).toNat =
      ((crc ^^^ nibble.toUInt32) &&& 0xf).toBitVec := by
    rw [UInt32.toNat, BitVec.ofNat_toNat, BitVec.setWidth_eq]
  rw [feed_table _ (by rw [hlen]; decide), hlen, hshift, hindex, crcNibble, UInt32.toBitVec_xor,
    htable, hself]
  rfl

theorem byteBits_split (byte : UInt8) :
    (List.range 8).map byte.toBitVec.getLsbD = nibbleBits byte ++ nibbleBits (byte >>> 4) := by
  have hshift : (byte >>> 4).toBitVec = byte.toBitVec >>> 4 := rfl
  have hrange : List.range 8 = List.range 4 ++ (List.range 4).map (4 + ·) := rfl
  have hhigh : ∀ i, byte.toBitVec.getLsbD (4 + i) = (byte.toBitVec >>> 4).getLsbD i :=
    fun i => (BitVec.getLsbD_ushiftRight byte.toBitVec 4 i).symm
  rw [hrange, List.map_append, List.map_map, nibbleBits, nibbleBits, hshift]
  exact congrArg _ (List.map_congr_left fun i _ => hhigh i)

theorem lfsCrc_eq (crc : UInt32) (data : List UInt8) :
    (lfsCrc crc data).toBitVec = feed crcPoly (dataBits data) crc.toBitVec := by
  induction data generalizing crc with
  | nil => rfl
  | cons byte data ih =>
    have hbits : dataBits (byte :: data) =
        nibbleBits byte ++ nibbleBits (byte >>> 4) ++ dataBits data := by
      rw [← byteBits_split]
      rfl
    rw [lfsCrc, ih, crcNibble_eq, crcNibble_eq, hbits, feed_append, feed_append]

/-- The checksum is that of the polynomial, bit by bit, and it tells two data of one length apart
that differ in a stretch of at most 32 bits. -/
theorem lfsCrc_detects (crc : UInt32) :
    (∀ data, (lfsCrc crc data).toBitVec = feed crcPoly (dataBits data) crc.toBitVec) ∧
      ∀ (x y : List UInt8) (before first second after : List Bool),
        dataBits x = before ++ first ++ after → dataBits y = before ++ second ++ after →
        first.length = second.length → first.length ≤ 32 → first ≠ second →
        lfsCrc crc x ≠ lfsCrc crc y := by
  refine ⟨lfsCrc_eq crc, ?_⟩
  intro x y before first second after hx hy hlen hle hne heq
  apply burst_detected crcPoly_monic hlen hle hne crc.toBitVec
  rw [← hx, ← hy, ← lfsCrc_eq, ← lfsCrc_eq, heq]

theorem lfsCrc_detects_bit : lfsCrc 0xffffffff [0x31, 0x32] ≠ lfsCrc 0xffffffff [0x31, 0x36] :=
  (lfsCrc_detects 0xffffffff).2 [0x31, 0x32] [0x31, 0x36] (dataBits [0x31] ++ [false, true])
    [false] [true] [false, true, true, false, false] rfl rfl rfl (by decide) (by decide)

end Not232
