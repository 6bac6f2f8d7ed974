import Not232.LfsCache

/-!
# Flushing the program cache

A flush programs the program cache and, if it is asked to, compares what the flash then holds with
it. It leaves the bytes of the cache in the flash, or it stops at a half-word that has failed.
-/

namespace Not232

def lfsCmpEq : Int32 := 0
def lfsCmpLt : Int32 := 1
def lfsCmpGt : Int32 := 2

/-- The sign of the first difference. -/
def memcmp : List UInt8 → List UInt8 → Int32
  | a :: as, b :: bs => if a = b then memcmp as bs else if a < b then -1 else 1
  | _, _ => 0

/-- The loop of `lfs_bd_cmp` from a byte on, if `fuel` turns are enough. -/
def cmpLoop (f : Flash) (pcache : Option LfsCache) (hint : ℕ) (block : UInt32) (off : ℕ)
    (buffer : ℕ → UInt8) (size : ℕ) : (fuel i : ℕ) → LfsCache → Option (Int32 × LfsCache)
  | fuel, i, rcache =>
    if size ≤ i then some (lfsCmpEq, rcache)
    else
      match fuel with
      | 0 => none
      | fuel + 1 =>
        let diff := min (size - i) 8
        match lfsBdRead f pcache rcache (sub32 hint i) block (off + i) diff with
        | none => none
        | some (err, dat, rcache) =>
          if err ≠ 0 then some (err, rcache)
          else
            let res := memcmp dat ((List.range diff).map fun j => buffer (i + j))
            if res ≠ 0 then some (if res < 0 then lfsCmpLt else lfsCmpGt, rcache)
            else cmpLoop f pcache hint block off buffer size fuel (i + diff) rcache

def lfsBdCmp (f : Flash) (pcache : Option LfsCache) (rcache : LfsCache) (hint : ℕ)
    (block : UInt32) (off : ℕ) (buffer : ℕ → UInt8) (size : ℕ) : Option (Int32 × LfsCache) :=
  cmpLoop f pcache hint block off buffer size size 0 rcache

/-- The two caches and the flash. -/
structure Bd where
  pcache : LfsCache
  rcache : LfsCache
  flash : Flash

/-- Programs the program cache and drops it; `none` if an assertion fails. -/
def lfsBdFlush (validate : Bool) (status : ℕ → FlashStatus) (s : Bd) : Option (Int32 × Bd) :=
  let p := s.pcache
  if p.block ≠ lfsBlockNull ∧ p.block ≠ lfsBlockInline then
    if p.block.toNat ≥ blockCount then none
    else
      let diff := lfsAlignup p.size progSize
      match flashProg p.block (.ofNat p.off) p.buffer (.ofNat diff) status s.flash with
      | none => none
      | some (err, f) =>
        if err > 0 then none
        else if err ≠ 0 then some (err, { s with flash := f })
        else if validate then
          match lfsBdCmp f none s.rcache.drop diff p.block p.off p.buffer diff with
          | none => none
          | some (res, rcache) =>
            if res < 0 then some (res, ⟨p, rcache, f⟩)
            else if res ≠ lfsCmpEq then some (lfsErrCorrupt, ⟨p, rcache, f⟩)
            else some (0, ⟨p.zero, rcache, f⟩)
        else some (0, ⟨p.zero, s.rcache, f⟩)
  else some (0, s)

/-- The device's own `sync` has nothing to do. -/
def lfsBdSync (validate : Bool) (status : ℕ → FlashStatus) (s : Bd) : Option (Int32 × Bd) :=
  lfsBdFlush validate status { s with rcache := s.rcache.drop }

/-! ### What a flush leaves -/

/-- What the first holds the second holds too. -/
def Within (small big : Programmed) : Prop :=
  ∀ b < 40, ∀ o < 4096, ∀ v, small b o = some v → big b o = some v

/-- The program cache lies in a block, in half-words that are erased. -/
structure Buffered (f : Flash) (p : LfsCache) : Prop where
  block : p.block < 40
  even : p.off % 2 = 0
  fits : p.off + p.size ≤ 4096
  size : p.size ≤ 64
  erased : ∀ o, p.off ≤ o → o < p.off + p.size → f.erased ((blockAddr p.block + o) / 2) = true

/-- The half-word of the byte is under the program cache. -/
def LfsCache.Spans (c : LfsCache) (block : UInt32) (o : ℕ) : Prop :=
  c.block = block ∧ c.off ≤ o ∧ 2 * (o / 2) < c.off + c.size

section Programmed

variable {block b : UInt32} {off o : ℕ} {data : List UInt8} {image small big : Programmed}

theorem Within.refl (image : Programmed) : Within image image := fun _ _ _ _ _ h => h

theorem Within.trans {middle : Programmed} (h : Within small middle) (h' : Within middle big) :
    Within small big := fun b hb o ho v hv => h' b hb o ho v (h b hb o ho v hv)

theorem overlay_of_not_covers {p : LfsCache} (h : ¬ p.Covers b o) (stored : Programmed) :
    overlay (some p) stored b o = stored b o := if_neg h

theorem overlay_of_covers {p : LfsCache} (h : p.Covers b o) (stored : Programmed) :
    overlay (some p) stored b o = some (p.buffer (o - p.off)) := if_pos h

/-- An empty program cache hides nothing. -/
theorem overlay_null {p : LfsCache} (hp : p.block = lfsBlockNull) (hb : b < 40)
    (stored : Programmed) : overlay (some p) stored b o = stored b o := by
  apply overlay_of_not_covers
  rintro ⟨rfl, -⟩
  rw [hp] at hb
  exact absurd hb (by decide)

theorem Within.overlay {p : LfsCache} (h : Within small big) :
    Within (overlay (some p) small) (overlay (some p) big) := by
  intro b hb o ho v hv
  by_cases hp : p.Covers b o
  · rw [overlay_of_covers hp] at hv ⊢
    exact hv
  · rw [overlay_of_not_covers hp] at hv ⊢
    exact h b hb o ho v hv

end Programmed

theorem Stores.mono {small big : Programmed} {f : Flash} (h : Stores big f)
    (hwithin : Within small big) : Stores small f :=
  ⟨h.locked, fun b hb o ho v hv => h.held b hb o ho v (hwithin b hb o ho v hv)⟩

/-- A dropped cache holds nothing that could be wrong. -/
theorem Coherent.drop {seen : Programmed} {c : LfsCache} (h : Coherent seen c)
    (image : Programmed) : Coherent image c.drop := by
  refine ⟨h.even, ?_⟩
  rintro b hb o v ⟨hnull, -⟩
  change b = lfsBlockNull at hnull
  rw [hnull] at hb
  exact absurd hb (by decide)

theorem Coherent.mono {small big : Programmed} {c : LfsCache} (h : Coherent big c)
    (hwithin : ∀ b < 40, ∀ o v, small b o = some v → big b o = some v) : Coherent small c :=
  ⟨h.even, fun b hb o v hcovers hv => h.held b hb o v hcovers (hwithin b hb o v hv)⟩

section Flush

variable {stored seen : Programmed} {f : Flash} {block : UInt32} {off size hint : ℕ}
  {buffer : ℕ → UInt8}

theorem memcmp_self (data : List UInt8) : memcmp data data = 0 := by
  induction data with
  | nil => rfl
  | cons byte data ih => rw [memcmp, if_pos rfl, ih]

/-- Bytes that have all been programmed are read back. -/
theorem eq_of_agrees {n : ℕ} {data : List UInt8} {g : ℕ → UInt8} (hlength : data.length = n)
    (hagrees : Agrees stored block off data) (hstored : ∀ j < n, stored block (off + j) = some (g j)) :
    data = (List.range n).map g := by
  apply List.ext_getElem?
  intro j
  by_cases hj : j < n
  · rw [hagrees j (by omega) (g j) (hstored j hj), List.getElem?_map, List.getElem?_range hj,
      Option.map_some]
  · rw [List.getElem?_eq_none (by omega), List.getElem?_eq_none (by simp; omega)]

/-- Comparing the flash with what has been programmed finds no difference. -/
theorem cmpLoop_eq (hstores : Stores stored f) (hblock : block < 40) (hhint : size ≤ hint)
    (hword : hint ≤ 4096) (hfits : off + size ≤ 4096)
    (hstored : ∀ i < size, stored block (off + i) = some (buffer i)) (fuel i : ℕ)
    (rcache : LfsCache) (hcoherent : Coherent stored rcache) (hfuel : size ≤ fuel + i) :
    ∃ rcache', cmpLoop f none hint block off buffer size fuel i rcache = some (0, rcache') ∧
      Coherent stored rcache' := by
  induction fuel generalizing i rcache with
  | zero =>
    refine ⟨rcache, ?_, hcoherent⟩
    rw [cmpLoop, if_pos (by omega)]
    rfl
  | succ fuel ih =>
    by_cases hend : size ≤ i
    · refine ⟨rcache, ?_, hcoherent⟩
      rw [cmpLoop, if_pos hend]
      rfl
    have hsub : sub32 hint i = hint - i := if_pos (by omega)
    have hnone : ∀ p ∈ (none : Option LfsCache), p.off % 2 = 0 := by
      intro p hp
      cases hp
    have hpart : off + i + min (size - i) 8 ≤ 4096 := by omega
    have hleft : 1 ≤ hint - i := by omega
    obtain ⟨data, r, hread, hlength, hagrees, hcoherent'⟩ :=
      lfsBdRead_reads hstores hblock hleft (by omega) hnone hpart hcoherent
    have hdata : data = (List.range (min (size - i) 8)).map fun j => buffer (i + j) := by
      apply eq_of_agrees hlength hagrees
      intro j hj
      have hheld := hstored (i + j) (by omega)
      rwa [← Nat.add_assoc] at hheld
    obtain ⟨r', hloop, hcoherent''⟩ := ih (i + min (size - i) 8) r hcoherent' (by omega)
    refine ⟨r', ?_, hcoherent''⟩
    rw [cmpLoop, if_neg hend, hsub]
    dsimp only
    rw [hread]
    dsimp only
    rw [if_neg (by decide), ← hdata, memcmp_self, if_neg (by decide)]
    exact hloop

end Flush

section FlushSpec

variable {stored : Programmed} {s : Bd}

theorem lfsAlignup_progSize {n : ℕ} (h : n ≤ 64) : lfsAlignup n progSize = n + n % 2 := by
  have hup := lfsAlignup_two (a := n) (by omega)
  rw [progSize, hup]
  omega

theorem Buffered.erased_of_spans {f : Flash} {p : LfsCache} (h : Buffered f p) {b : UInt32} {o : ℕ}
    (hspans : p.Spans b o) : f.erased ((blockAddr b + o) / 2) = true := by
  obtain ⟨rfl, hlow, hhigh⟩ := hspans
  have heven := h.even
  have herased := h.erased (2 * (o / 2)) (by omega) hhigh
  have haddr : blockAddr p.block = 0x08010000 + 4096 * p.block.toNat := rfl
  have hhalf : (blockAddr p.block + 2 * (o / 2)) / 2 = (blockAddr p.block + o) / 2 := by omega
  rwa [hhalf] at herased

/-- Nothing is stored in the half-words of the program cache. -/
theorem Buffered.stored_none {f : Flash} {p : LfsCache} (h : Buffered f p) (hstores : Stores stored f)
    {b : UInt32} {o : ℕ} (hspans : p.Spans b o) : stored b o = none := by
  have herased := h.erased_of_spans hspans
  obtain ⟨rfl, hlow, hhigh⟩ := hspans
  have hfits := h.fits
  have heven := h.even
  cases hv : stored p.block o with
  | none => rfl
  | some v =>
    have hprogrammed := (hstores.held p.block h.block o (by omega) v hv).2
    rw [herased] at hprogrammed
    cases hprogrammed

/-- The call that programs the cache. -/
def flushCall (p : LfsCache) (status : ℕ → FlashStatus) : FlashCall :=
  .prog p.block (.ofNat p.off) p.buffer (.ofNat (lfsAlignup p.size progSize)) status

/-- What the call records: the cache and, behind an odd number of bytes, one byte more. -/
theorem record_flushCall {p : LfsCache} (h : Buffered s.flash p) (status : ℕ → FlashStatus)
    (stored : Programmed) (b : UInt32) (o : ℕ) :
    (flushCall p status).record 0 stored b o =
      if b = p.block ∧ p.off ≤ o ∧ o < p.off + (p.size + p.size % 2) then
        some (p.buffer (o - p.off)) else stored b o := by
  have hsize := h.size
  have hfits := h.fits
  have hoff : (UInt32.ofNat p.off).toNat = p.off := toNat_ofNat_of_le (by omega)
  have hdiff : (UInt32.ofNat (p.size + p.size % 2)).toNat = p.size + p.size % 2 :=
    toNat_ofNat_of_le (by omega)
  simp only [flushCall, FlashCall.record, lfsAlignup_progSize hsize, hoff, hdiff, true_and]

theorem overlay_record {p : LfsCache} (h : Buffered s.flash p) (hstores : Stores stored s.flash)
    (status : ℕ → FlashStatus) (b : UInt32) (o : ℕ) (v : UInt8)
    (hv : overlay (some p) stored b o = some v) :
    (flushCall p status).record 0 stored b o = some v := by
  have heven := h.even
  rw [record_flushCall h]
  by_cases hcovers : p.Covers b o
  · have hcovers' := hcovers
    obtain ⟨hb, hlow, hhigh⟩ := hcovers
    rw [overlay_of_covers hcovers'] at hv
    rw [if_pos ⟨hb, hlow, by omega⟩, hv]
  · rw [overlay_of_not_covers hcovers] at hv
    rw [if_neg, hv]
    rintro ⟨hb, hlow, hhigh⟩
    have hbeyond : ¬ o < p.off + p.size := fun hlt => hcovers ⟨hb, hlow, hlt⟩
    -- The byte behind an odd number of bytes is in the half-word of the last of them.
    have hspans : p.Spans b o := ⟨hb.symm, hlow, by omega⟩
    rw [h.stored_none hstores hspans] at hv
    cases hv

/-- What a flush of a program cache leaves. -/
structure Flushed (stored : Programmed) (validate : Bool) (s s' : Bd) : Prop where
  pcache : s'.pcache = s.pcache.zero
  stores : Stores (overlay (some s.pcache) stored) s'.flash
  validated : validate = true → Coherent (overlay (some s.pcache) stored) s'.rcache
  kept : validate = false → s'.rcache = s.rcache

/-- What is left if a half-word has failed. -/
structure Unflushed (stored : Programmed) (s s' : Bd) : Prop where
  pcache : s'.pcache = s.pcache
  rcache : s'.rcache = s.rcache
  stores : Stores stored s'.flash

/-- The call is allowed: it programs half-words that are erased. It programs all of them, or it
stops at one that has failed. -/
theorem flashProg_flush (hstores : Stores stored s.flash) (hbuffered : Buffered s.flash s.pcache)
    (status : ℕ → FlashStatus) :
    ∃ code f', flashProg s.pcache.block (.ofNat s.pcache.off) s.pcache.buffer
          (.ofNat (lfsAlignup s.pcache.size progSize)) status s.flash = some (code, f') ∧
      Stores ((flushCall s.pcache status).record code stored) f' ∧
      (code = 0 ∨ code = lfsErrIo ∧ ∃ i, status i ≠ .complete) ∧
      ∀ b < 40, ∀ o < 4096, ¬ s.pcache.Spans b o →
        f'.erased ((blockAddr b + o) / 2) = s.flash.erased ((blockAddr b + o) / 2) := by
  have hsize := hbuffered.size
  have hfits := hbuffered.fits
  have heven := hbuffered.even
  have hblock := hbuffered.block
  have hoff : (UInt32.ofNat s.pcache.off).toNat = s.pcache.off := toNat_ofNat_of_le (by omega)
  have hup := lfsAlignup_progSize hsize
  have hdiff : (UInt32.ofNat (lfsAlignup s.pcache.size progSize)).toNat =
      s.pcache.size + s.pcache.size % 2 := by
    rw [hup]
    exact toNat_ofNat_of_le (by omega)
  have hbase : blockAddr s.pcache.block = 0x08010000 + 4096 * s.pcache.block.toNat := rfl
  have hallowed : (flushCall s.pcache status).Allowed s.flash := by
    refine ⟨⟨hblock, ?_⟩, ?_⟩
    · rw [hoff, hdiff]
      omega
    · intro _ _ j hj
      rw [hdiff] at hj
      have herased := hbuffered.erased (s.pcache.off + 2 * j) (by omega) (by omega)
      have hindex : (blockAddr s.pcache.block + (s.pcache.off + 2 * j)) / 2 =
          (blockAddr s.pcache.block + s.pcache.off) / 2 + j := by omega
      rwa [hoff, ← hindex]
  obtain ⟨code, f', hprog, hstored, hfaithful⟩ := hstores.prog hallowed
  have hreturns := hfaithful.returns
  rw [FlashCall.Returns, hoff, hdiff, if_neg (by omega)] at hreturns
  obtain ⟨k, hk, hcode, rfl⟩ := hreturns
  refine ⟨code, _, hprog, hstored, ?_, ?_⟩
  · by_cases hall : k = (s.pcache.size + s.pcache.size % 2) / 2
    · left
      rw [hcode, if_pos hall]
    · right
      rw [hcode, if_neg hall]
      exact ⟨rfl, _, hk.after (lt_of_le_of_ne hk.le hall)⟩
  · intro b hb o ho hspans
    have hle := hk.le
    have hlt : b.toNat < 40 := hb
    have hbase' : blockAddr b = 0x08010000 + 4096 * b.toNat := rfl
    dsimp only [Flash.written]
    rw [if_neg]
    rintro ⟨hlow, hhigh⟩
    have hsame : s.pcache.block = b := by
      apply UInt32.toNat_inj.mp
      omega
    subst hsame
    exact hspans ⟨rfl, by omega, by omega⟩

/-- What has been programmed compares equal. -/
theorem lfsBdCmp_flushed {p rcache : LfsCache} {f' : Flash} (hbuffered : Buffered s.flash p)
    (status : ℕ → FlashStatus) (hstored : Stores ((flushCall p status).record 0 stored) f')
    (hcoherent : Coherent ((flushCall p status).record 0 stored) rcache) :
    ∃ r, lfsBdCmp f' none rcache (lfsAlignup p.size progSize) p.block p.off p.buffer
        (lfsAlignup p.size progSize) = some (0, r) ∧
      Coherent ((flushCall p status).record 0 stored) r := by
  have hsize := hbuffered.size
  have hfits := hbuffered.fits
  have heven := hbuffered.even
  have hbytes : ∀ i < p.size + p.size % 2,
      (flushCall p status).record 0 stored p.block (p.off + i) = some (p.buffer i) := by
    intro i hi
    rw [record_flushCall hbuffered, if_pos ⟨rfl, by omega, by omega⟩, Nat.add_sub_cancel_left]
  rw [lfsAlignup_progSize hsize]
  exact cmpLoop_eq hstored hbuffered.block le_rfl (by omega) (by omega) hbytes _ 0 rcache hcoherent
    le_rfl

theorem flush_spec (hstores : Stores stored s.flash) (heven : s.rcache.off % 2 = 0)
    (hbuffered : Buffered s.flash s.pcache) (validate : Bool) (status : ℕ → FlashStatus) :
    ∃ code s', lfsBdFlush validate status s = some (code, s') ∧
      (∀ b < 40, ∀ o < 4096, ¬ s.pcache.Spans b o →
        s'.flash.erased ((blockAddr b + o) / 2) = s.flash.erased ((blockAddr b + o) / 2)) ∧
      (code = 0 ∧ Flushed stored validate s s' ∨
        code = lfsErrIo ∧ (∃ i, status i ≠ .complete) ∧ Unflushed stored s s') := by
  have hsize := hbuffered.size
  have hfits := hbuffered.fits
  have hblock := hbuffered.block
  have hlt : s.pcache.block.toNat < 40 := hblock
  have hpcache : s.pcache.block ≠ lfsBlockNull ∧ s.pcache.block ≠ lfsBlockInline := by
    refine ⟨fun h => ?_, fun h => ?_⟩
    · rw [h] at hblock
      exact absurd hblock (by decide)
    · rw [h] at hblock
      exact absurd hblock (by decide)
  have hasserted : ¬ s.pcache.block.toNat ≥ blockCount := Nat.not_le.mpr hlt
  obtain ⟨code, f', hprog, hstored, hcode, herased⟩ := flashProg_flush hstores hbuffered status
  rcases hcode with rfl | ⟨rfl, hfailed⟩
  · have hwithin : Within (overlay (some s.pcache) stored)
        ((flushCall s.pcache status).record 0 stored) :=
      fun b _ o _ v hv => overlay_record hbuffered hstores status b o v hv
    cases validate with
    | false =>
      refine ⟨0, ⟨s.pcache.zero, s.rcache, f'⟩, ?_, herased, .inl ⟨rfl, ?_⟩⟩
      · simp only [lfsBdFlush, if_pos hpcache, if_neg hasserted, hprog, Bool.false_eq_true, if_false,
          ne_eq, not_true_eq_false]
        rfl
      · exact ⟨rfl, hstored.mono hwithin, fun h => absurd h (by decide), fun _ => rfl⟩
    | true =>
      have hdropped : Coherent ((flushCall s.pcache status).record 0 stored) s.rcache.drop := by
        refine ⟨heven, ?_⟩
        rintro b hb o v ⟨hnull, -⟩
        change b = lfsBlockNull at hnull
        rw [hnull] at hb
        exact absurd hb (by decide)
      obtain ⟨r, hcmp, hcoherent⟩ := lfsBdCmp_flushed hbuffered status hstored hdropped
      refine ⟨0, ⟨s.pcache.zero, r, f'⟩, ?_, herased, .inl ⟨rfl, ?_⟩⟩
      · simp only [lfsBdFlush, if_pos hpcache, if_neg hasserted, hprog, hcmp, ne_eq,
          not_true_eq_false, if_false, if_true]
        rfl
      · refine ⟨rfl, hstored.mono hwithin, fun _ => hcoherent.mono ?_, fun h => absurd h (by decide)⟩
        exact fun b _ o v hv => overlay_record hbuffered hstores status b o v hv
  · refine ⟨lfsErrIo, { s with flash := f' }, ?_, herased, .inr ⟨rfl, hfailed, rfl, rfl, ?_⟩⟩
    · simp only [lfsBdFlush, if_pos hpcache, if_neg hasserted, hprog]
      rfl
    · apply hstored.mono
      intro b _ o _ v hv
      simp only [flushCall, FlashCall.record]
      rw [if_neg (fun h => absurd h.1 (by decide)), hv]

end FlushSpec

end Not232
