import Not232.FlashDevice

/-!
# The bounds check of the flash device

The check adds an offset and a size modulo 2^32. Where the sum does not wrap, what it accepts lies
in the page of its block; where the sum wraps around to at most a page, it accepts an offset whose
address is below the page.
-/

namespace Not232

/-- The address lies in the page of the block. -/
def InBlock (block : UInt32) (a : ℕ) : Prop := blockAddr block ≤ a ∧ a < blockAddr block + 4096

/-- The address lies in the region of the file system. -/
def InRegion (a : ℕ) : Prop := 0x08010000 ≤ a ∧ a ≤ 0x08037FFF

/-- A call reads and programs nothing outside the page of its block. -/
structure StaysInBlock (block off size : UInt32) : Prop where
  addresses : ∀ i < size, InBlock block (ch32LfsPhysAddr block off + i).toNat ∧
    InRegion (ch32LfsPhysAddr block off + i).toNat
  read : ∀ f f' : Flash, (∀ a, InBlock block a → f.mem a = f'.mem a) →
    flashRead block off size f = flashRead block off size f'
  prog : ∀ buffer status f r f', flashProg block off buffer size status f = some (r, f') →
    ∀ a, ¬ InBlock block a → f'.mem a = f.mem a

section Check

variable {block off size : UInt32}

theorem inRegion_of_inBlock (hblock : block.toNat < 40) {a : ℕ} (h : InBlock block a) :
    InRegion a := by
  obtain ⟨hlow, hhigh⟩ := h
  rw [blockAddr] at hlow hhigh
  exact ⟨by omega, by omega⟩

/-- A range whose end wraps around leaves the page. -/
theorem not_inBlock_of_wraps (hblock : block.toNat < 40)
    (hsum : 2 ^ 32 ≤ off.toNat + size.toNat) :
    ∃ i < size, ¬ InBlock block (ch32LfsPhysAddr block off + i).toNat := by
  have hoff := off.toNat_lt
  have hsize := size.toNat_lt
  have hbase : blockAddr block = 0x08010000 + 4096 * block.toNat := rfl
  have haddr := toNat_ch32LfsPhysAddr_mod block off
  by_cases hfirst : off.toNat < 4096
  · -- the range starts in the page and goes on behind it
    have hi : (4096 - off).toNat = 4096 - off.toNat :=
      UInt32.toNat_sub_of_le _ _ (UInt32.le_iff_toNat_le.mpr hfirst.le)
    refine ⟨4096 - off, ?_, fun h => ?_⟩
    · rw [UInt32.lt_iff_toNat_lt, hi]
      omega
    · obtain ⟨-, hhigh⟩ := h
      rw [UInt32.toNat_add, haddr, hi] at hhigh
      omega
  · refine ⟨0, ?_, fun h => ?_⟩
    · rw [UInt32.lt_iff_toNat_lt]
      change 0 < size.toNat
      omega
    · obtain ⟨hlow, hhigh⟩ := h
      rw [UInt32.add_zero, haddr] at hlow hhigh
      omega

end Check

section Prog

variable {addr : UInt32} {f f' : Flash}

/-- A half-word is stored in its two bytes. -/
theorem Flash.programHalfWord_frame {status status' : FlashStatus} {half : UInt16}
    (h : f.programHalfWord status addr half = some (status', f')) {a : ℕ}
    (ha : ¬ (addr.toNat ≤ a ∧ a < addr.toNat + 2)) : f'.mem a = f.mem a := by
  rw [programHalfWord] at h
  split_ifs at h with hspecified hstatus
  · cases h
    dsimp only
    rw [Function.update_of_ne (by omega), Function.update_of_ne (by omega)]
  · cases h
    rfl

/-- The loop stores nothing outside the bytes of its turns. -/
theorem progLoop_frame {src : ℕ → UInt8} {status : ℕ → FlashStatus} {n i : ℕ} {r : Int32}
    (hrange : addr.toNat + i + 2 * n ≤ 2 ^ 32) (h : progLoop addr src status n i f = some (r, f'))
    {a : ℕ} (ha : ¬ (addr.toNat + i ≤ a ∧ a < addr.toNat + i + 2 * n)) : f'.mem a = f.mem a := by
  induction n generalizing i f with
  | zero =>
    cases h
    rfl
  | succ n ih =>
    have haddr : (addr + .ofNat i).toNat = addr.toNat + i := toNat_add_ofNat (by omega)
    rw [progLoop] at h
    split at h
    · cases h
    · rename_i status' g hprogram
      have hfirst : g.mem a = f.mem a :=
        Flash.programHalfWord_frame hprogram (by rw [haddr]; omega)
      split_ifs at h with hstatus
      · cases h
        exact hfirst
      · exact (ih (by omega) h (by omega)).trans hfirst

end Prog

/-- An accepted range that does not wrap around stays in its block. -/
theorem staysInBlock_of_fits {block off size : UInt32} (hblock : block.toNat < 40)
    (hfits : off.toNat + size.toNat ≤ 4096) : StaysInBlock block off size where
  addresses i hi := by
    have haddr : (ch32LfsPhysAddr block off).toNat = blockAddr block + off.toNat :=
      toNat_ch32LfsPhysAddr hblock (by omega)
    have hi' : i.toNat < size.toNat := hi
    have hbase : blockAddr block = 0x08010000 + 4096 * block.toNat := rfl
    have hinside : InBlock block (ch32LfsPhysAddr block off + i).toNat := by
      rw [UInt32.toNat_add, haddr]
      exact ⟨by omega, by omega⟩
    exact ⟨hinside, inRegion_of_inBlock hblock hinside⟩
  read f f' hsame := by
    rw [flashRead_eq hblock hfits, flashRead_eq hblock hfits]
    congr 1
    apply List.map_congr_left
    intro i hi
    have hi' := List.mem_range.mp hi
    exact hsame _ ⟨by omega, by omega⟩
  prog buffer status f r f' hprog a ha := by
    have haddr : (ch32LfsPhysAddr block off).toNat = blockAddr block + off.toNat :=
      toNat_ch32LfsPhysAddr hblock (by omega)
    have hbase : blockAddr block = 0x08010000 + 4096 * block.toNat := rfl
    by_cases hodd : off.toNat % 2 = 1 ∨ size.toNat % 2 = 1
    · rw [flashProg_odd hodd] at hprog
      cases hprog
      rfl
    · have heven : ¬ (off &&& 1 ≠ 0 ∨ size &&& 1 ≠ 0) := by
        rwa [and_one_ne_zero, and_one_ne_zero]
      rw [flashProg, ch32LfsAddrValid_of_fits hblock hfits, if_neg (by decide), if_neg heven]
        at hprog
      refine progLoop_frame ?_ hprog fun h => ha ?_
      · rw [haddr]
        omega
      · rw [haddr] at h
        exact ⟨by omega, by omega⟩

/-- The check accepts only what stays in its block, except where the end of the range wraps around
to at most a page. -/
theorem addrValid_staysInBlock_iff (block off size : UInt32) :
    (ch32LfsAddrValid block off size = true → StaysInBlock block off size) ↔
      (block.toNat < 40 → off.toNat + size.toNat < 2 ^ 32 ∨
        2 ^ 32 + 4096 < off.toNat + size.toNat) := by
  have hoff := off.toNat_lt
  have hsize := size.toNat_lt
  rw [ch32LfsAddrValid_iff]
  constructor
  · intro hstays hblock
    by_contra hwraps
    have hwrap : 2 ^ 32 ≤ off.toNat + size.toNat := by omega
    obtain ⟨i, hi, hout⟩ := not_inBlock_of_wraps hblock hwrap
    exact hout ((hstays ⟨hblock, by omega⟩).addresses i hi).1
  · rintro hcond ⟨hblock, hsum⟩
    have hsides := hcond hblock
    exact staysInBlock_of_fits hblock (by omega)

theorem addrValid_accepts_program_flash :
    ch32LfsAddrValid 0 0xFFFFFFFE 2 = true ∧
      (ch32LfsPhysAddr 0 0xFFFFFFFE).toNat = 0x0800FFFE ∧
      ¬ StaysInBlock 0 0xFFFFFFFE 2 := by
  refine ⟨by decide, by decide, fun h => ?_⟩
  have hlow : 0x08010000 ≤ 0x0800FFFE := (h.addresses 0 (by decide)).2.1
  exact absurd hlow (by decide)

end Not232
