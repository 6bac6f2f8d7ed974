import Not232.LfsProgram

/-!
# The caches are invisible

Reads, programs, flushes, syncs, erases and drops of the program cache come in any order that keeps
the rules of the device: bytes are programmed in order, into half-words that are blank. Every call
returns, reads return the bytes that are visible, and only a half-word or a page that the hardware
fails makes a call fail.
-/

namespace Not232

inductive BdCall
  | read (cached : Bool) (hint : ℕ) (block : UInt32) (off size : ℕ)
  | prog (validate : Bool) (status : ℕ → ℕ → FlashStatus) (block : UInt32) (off : ℕ)
      (data : List UInt8)
  | flush (validate : Bool) (status : ℕ → FlashStatus)
  | sync (validate : Bool) (status : ℕ → FlashStatus)
  | erase (block : UInt32) (outcome : EraseOutcome)
  | drop

namespace BdCall

/-- The return value, the bytes read and the state afterwards. -/
def run (s : Bd) : BdCall → Option (Int32 × List UInt8 × Bd)
  | read cached hint block off size =>
    (lfsBdRead s.flash (if cached then some s.pcache else none) s.rcache hint block off size).map
      fun r => (r.1, r.2.1, { s with rcache := r.2.2 })
  | prog validate status block off data =>
    (lfsBdProg validate status block off data s).map fun r => (r.1, [], r.2)
  | flush validate status => (lfsBdFlush validate status s).map fun r => (r.1, [], r.2)
  | sync validate status => (lfsBdSync validate status s).map fun r => (r.1, [], r.2)
  | erase block outcome => (lfsBdErase block outcome s).map fun r => (r.1, [], r.2)
  | drop => some (0, [], { s with pcache := s.pcache.drop })

/-- Reads stay in a block. Bytes are programmed behind the last ones or, with the program cache
empty, at a half-word, and into blank half-words. A block is erased when the program cache is
elsewhere, and a program cache that has failed is dropped. -/
def Allowed (a : Programs) : BdCall → Prop
  | read _ hint block off size =>
    block < 40 ∧ off + size ≤ 4096 ∧ 1 ≤ hint ∧ 4096 + hint + 1 < 2 ^ 32
  | prog _ _ block off data =>
    block < 40 ∧ off + data.length ≤ 4096 ∧
      (a.cursor = .behind block off ∨ a.cursor = .idle ∧ off % 2 = 0) ∧
      ∀ o, off + off % 2 ≤ o → o < off + data.length → a.blank block o
  | flush _ _ | sync _ _ => ∀ block, a.cursor ≠ .failed block
  | erase block _ =>
    block < 40 ∧ (∀ off, a.cursor ≠ .behind block off) ∧ a.cursor ≠ .failed block
  | drop => True

/-- What a call does to the programs, by its return value. -/
def record (code : Int32) (a : Programs) : BdCall → Programs
  | read _ _ _ _ _ => a
  | prog validate _ block off data =>
    if code = 0 then a.prog validate block off data else (a.prog validate block off data).fail
  | flush validate _ => if code = 0 then a.flush validate else a.fail
  | sync _ _ => if code = 0 then a.sync else a.fail
  | erase block _ => a.erase block (code = 0)
  | drop => a.drop

/-- What a call returns. -/
def Returns (a : Programs) (code : Int32) (data : List UInt8) : BdCall → Prop
  | read cached _ block off size =>
    code = 0 ∧ data.length = size ∧
      Agrees (if cached then a.visible else a.synced) block off data
  | prog _ status _ _ _ => code = 0 ∨ code = lfsErrIo ∧ ∃ i j, status i j ≠ .complete
  | flush _ status | sync _ status => code = 0 ∨ code = lfsErrIo ∧ ∃ i, status i ≠ .complete
  | erase _ outcome => code = if outcome.status = .complete then 0 else lfsErrIo
  | drop => code = 0

end BdCall

/-- The states that allowed calls reach from empty caches, with the programs. -/
inductive BdReaches : Programs → Bd → Prop
  | boot {f : Flash} (h : f.locked = true) :
    BdReaches ⟨fun _ _ => none, fun _ _ => none, fun _ _ => none, fun _ _ => False, .idle⟩
      ⟨⟨lfsBlockNull, 0, 0, fun _ => 0xFF⟩, ⟨lfsBlockNull, 0, 0, fun _ => 0xFF⟩, f⟩
  | call {a : Programs} {s s' : Bd} {code : Int32} {data : List UInt8} (c : BdCall)
      (h : BdReaches a s) (hc : c.Allowed a) (hrun : c.run s = some (code, data, s')) :
      BdReaches (c.record code a) s'

namespace Stands

variable {a : Programs} {s : Bd}

theorem of_cursor {stored seen : Programmed} (h : StandsFor stored seen a s)
    (hcursor : ∀ block off, a.cursor ≠ .behind block off) : Stands a s :=
  ⟨⟨stored, seen, h⟩, fun block off hbehind => absurd hbehind (hcursor block off)⟩

theorem read (h : Stands a s) (cached : Bool) {hint : ℕ} {block : UInt32} {off size : ℕ}
    (hc : (BdCall.read cached hint block off size).Allowed a) :
    ∃ code data s', (BdCall.read cached hint block off size).run s = some (code, data, s') ∧
      (BdCall.read cached hint block off size).Returns a code data ∧
      Stands ((BdCall.read cached hint block off size).record code a) s' := by
  obtain ⟨⟨stored, seen, hholds⟩, hroom⟩ := h
  obtain ⟨hblock, hfits, hhint, hwrap⟩ := hc
  obtain ⟨data, r, hread, hlength, hagrees, hholds'⟩ := hholds.read cached hblock hfits hhint hwrap
  refine ⟨0, data, { s with rcache := r }, ?_, ⟨rfl, hlength, hagrees⟩,
    ⟨stored, seen, hholds'⟩, hroom⟩
  rw [BdCall.run, hread, Option.map_some]

theorem prog (h : Stands a s) (validate : Bool) (status : ℕ → ℕ → FlashStatus) {block : UInt32}
    {off : ℕ} {data : List UInt8}
    (hc : (BdCall.prog validate status block off data).Allowed a) :
    ∃ code data' s', (BdCall.prog validate status block off data).run s =
          some (code, data', s') ∧
      (BdCall.prog validate status block off data).Returns a code data' ∧
      Stands ((BdCall.prog validate status block off data).record code a) s' := by
  obtain ⟨⟨stored, seen, hholds⟩, hroom⟩ := h
  obtain ⟨hblock, hfits, hcursor, hblank⟩ := hc
  have hasserted : ¬ ¬ (block = lfsBlockInline ∨ block.toNat < blockCount) :=
    not_not_intro (.inr hblock)
  have hword : (off + data.length) % 2 ^ 32 = off + data.length :=
    Nat.mod_eq_of_lt (lt_of_le_of_lt hfits (by decide))
  have hinside : ¬ (off + data.length) % 2 ^ 32 > blockSize := by
    rw [hword]
    exact Nat.not_lt.mpr hfits
  -- With an empty program cache the bytes are behind those before them in their block.
  have hbehind : ∃ a', a'.cursor = .behind block off ∧ a.prog validate block off data =
        a'.prog validate block off data ∧ a'.blank = a.blank ∧ StandsFor stored seen a' s ∧
      (s.pcache.block = block → s.pcache.size < 64) := by
    rcases hcursor with hcursor | ⟨hcursor, heven⟩
    · exact ⟨a, hcursor, rfl, rfl, hholds, hroom block off hcursor⟩
    · refine ⟨{ a with cursor := .behind block off }, rfl, rfl, rfl, ?_, ?_⟩
      · have hidle : a = { a with cursor := .idle } := by rw [← hcursor]
        rw [hidle] at hholds
        exact StandsFor.reopen (a := { a with cursor := .behind block off }) hholds rfl hblock
          (by omega) heven
      · have hat := hholds.cursor
        rw [hcursor] at hat
        exact fun hb => absurd (hb.symm.trans hat) (StandsFor.ne_null hblock)
  obtain ⟨a', hcursor', hsame, hblank', hholds', hroom'⟩ := hbehind
  obtain ⟨code, s', hturns, hleaves⟩ := progTurns_leaves validate status (2 * data.length) off data
    stored seen a' s hholds' hcursor' hroom' hfits (by rw [hblank']; exact hblank)
    (by split <;> omega)
  rw [← hsame] at hleaves
  refine ⟨code, [], s', ?_, ?_, ?_⟩
  · rw [BdCall.run, lfsBdProg, if_neg hasserted, if_neg hinside, hturns, Option.map_some]
  · rcases hleaves with ⟨hcode, -⟩ | ⟨hcode, hfailed, -⟩
    · exact .inl hcode
    · exact .inr ⟨hcode, hfailed⟩
  · rcases hleaves with ⟨rfl, hstands⟩ | ⟨rfl, -, hstands⟩
    · exact hstands
    · exact hstands

/-- An empty program cache is not flushed. -/
theorem lfsBdFlush_null (hnull : s.pcache.block = lfsBlockNull) (validate : Bool)
    (status : ℕ → FlashStatus) : lfsBdFlush validate status s = some (0, s) :=
  if_neg fun h => h.1 hnull

theorem flush (h : Stands a s) (validate : Bool) (status : ℕ → FlashStatus)
    (hc : (BdCall.flush validate status).Allowed a) :
    ∃ code data s', (BdCall.flush validate status).run s = some (code, data, s') ∧
      (BdCall.flush validate status).Returns a code data ∧
      Stands ((BdCall.flush validate status).record code a) s' := by
  obtain ⟨⟨stored, seen, hholds⟩, -⟩ := h
  rcases hholds.buffered hc with hnull | hbuffered
  · refine ⟨0, [], s, ?_, .inl rfl, ?_⟩
    · rw [BdCall.run, lfsBdFlush_null hnull, Option.map_some]
    · have hseen : Within a.visible seen := by
        intro b hb o ho v hv
        have hvisible := hholds.visible b hb o ho v hv
        rwa [overlay_null hnull hb] at hvisible
      have hsynced : Within (if validate then a.visible else a.synced) seen := by
        cases validate with
        | false => exact hholds.synced
        | true => exact hseen
      have hvisible : Within (if validate then a.visible else a.synced)
          (overlay (some s.pcache) seen) :=
        hsynced.trans (StandsFor.seen_overlay hholds.stores hholds.seen_stored (.inl hnull))
      have hheld : StandsFor stored seen (a.flush validate) s := ⟨hholds.stores, hholds.seen_stored,
        hholds.coherent, hholds.even, hholds.image, hvisible, hsynced, hholds.blank, hnull⟩
      exact of_cursor hheld fun _ _ hbehind => by cases hbehind
  · obtain ⟨code, s', hflush, herased, ⟨rfl, hflushed⟩ | ⟨rfl, hfailed, hunflushed⟩⟩ :=
      flush_spec hholds.stores hholds.coherent.even hbuffered validate status
    · refine ⟨0, [], s', ?_, .inl rfl, ?_⟩
      · rw [BdCall.run, hflush, Option.map_some]
      · obtain ⟨seen', hheld, hvisible⟩ := hholds.flushed hbuffered herased hflushed
        refine of_cursor ⟨hheld.stores, hheld.seen_stored, hheld.coherent, hheld.even, hheld.image,
          hheld.visible, ?_, hheld.blank, hheld.cursor⟩ (fun _ _ hbehind => by cases hbehind)
        cases validate with
        | false => exact hheld.synced
        | true => exact hvisible rfl
    · refine ⟨_, [], s', ?_, .inr ⟨rfl, hfailed⟩, ?_⟩
      · rw [BdCall.run, hflush, Option.map_some]
      · obtain ⟨block, off, hcursor, hblock⟩ := hholds.behind_of_buffered hbuffered hc
        exact stands_fail (hholds.unflushed hcursor hblock herased hunflushed) hcursor

/-- Without its read cache the state knows all that is stored. -/
theorem dropped {stored seen : Programmed} (h : StandsFor stored seen a s) :
    StandsFor stored seen a { s with rcache := s.rcache.drop } ∧
      StandsFor stored stored { a with visible := a.image }
        { s with rcache := s.rcache.drop } :=
  ⟨⟨h.stores, h.seen_stored, h.coherent.drop seen, h.even, h.image, h.visible, h.synced, h.blank,
    h.cursor⟩, ⟨h.stores, Within.refl stored, h.coherent.drop stored, h.even, h.image, h.image,
    h.synced.trans h.seen_stored, h.blank, h.cursor⟩⟩

theorem sync (h : Stands a s) (validate : Bool) (status : ℕ → FlashStatus)
    (hc : (BdCall.sync validate status).Allowed a) :
    ∃ code data s', (BdCall.sync validate status).run s = some (code, data, s') ∧
      (BdCall.sync validate status).Returns a code data ∧
      Stands ((BdCall.sync validate status).record code a) s' := by
  obtain ⟨⟨stored, seen, hholds⟩, -⟩ := h
  obtain ⟨hdropped, hall⟩ := dropped hholds
  rcases hholds.buffered hc with hnull | hbuffered
  · refine ⟨0, [], { s with rcache := s.rcache.drop }, ?_, .inl rfl, ?_⟩
    · have hflush := lfsBdFlush_null (s := { s with rcache := s.rcache.drop }) hnull validate status
      rw [BdCall.run, lfsBdSync, hflush, Option.map_some]
    · have himage : Within a.image stored := by
        intro b hb o ho v hv
        have himage := hholds.image b hb o ho v hv
        rwa [overlay_null hnull hb] at himage
      have hheld : StandsFor stored stored a.sync { s with rcache := s.rcache.drop } :=
        ⟨hall.stores, hall.seen_stored, hall.coherent, hall.even, hall.image, hall.image, himage,
          hall.blank, hnull⟩
      exact of_cursor hheld fun _ _ hbehind => by cases hbehind
  · obtain ⟨code, s', hflush, herased, ⟨rfl, hflushed⟩ | ⟨rfl, hfailed, hunflushed⟩⟩ :=
      flush_spec hall.stores hall.coherent.even hbuffered validate status
    · refine ⟨0, [], s', ?_, .inl rfl, ?_⟩
      · rw [BdCall.run, lfsBdSync, hflush, Option.map_some]
      · have hcoherent : Coherent (overlay (some s.pcache) stored) s'.rcache := by
          cases validate with
          | false =>
            rw [hflushed.kept rfl]
            exact hholds.coherent.drop _
          | true => exact hflushed.validated rfl
        obtain ⟨seen', hheld, -⟩ := hall.flushed hbuffered herased hflushed
        have himage : Within a.image (overlay (some s'.pcache) (overlay (some s.pcache) stored)) :=
          hheld.image
        have hsynced : Within a.image (overlay (some s.pcache) stored) := hholds.image
        have hheld' : StandsFor (overlay (some s.pcache) stored) (overlay (some s.pcache) stored) a.sync
            s' := ⟨hheld.stores, Within.refl _, hcoherent, hheld.even, himage, himage, hsynced,
          hheld.blank, hheld.cursor⟩
        exact of_cursor hheld' fun _ _ hbehind => by cases hbehind
    · refine ⟨_, [], s', ?_, .inr ⟨rfl, hfailed⟩, ?_⟩
      · rw [BdCall.run, lfsBdSync, hflush, Option.map_some]
      · obtain ⟨block, off, hcursor, hblock⟩ := hholds.behind_of_buffered hbuffered hc
        exact stands_fail (hdropped.unflushed hcursor hblock herased hunflushed) hcursor

theorem erase (h : Stands a s) {block : UInt32} (outcome : EraseOutcome)
    (hc : (BdCall.erase block outcome).Allowed a) :
    ∃ code data s', (BdCall.erase block outcome).run s = some (code, data, s') ∧
      (BdCall.erase block outcome).Returns a code data ∧
      Stands ((BdCall.erase block outcome).record code a) s' := by
  obtain ⟨⟨stored, seen, hholds⟩, hroom⟩ := h
  obtain ⟨hblock, hbehind, hfailed⟩ := hc
  have hasserted : ¬ block.toNat ≥ blockCount := Nat.not_le.mpr hblock
  have hother : s.pcache.block ≠ block := by
    have hat := hholds.cursor
    cases hcursor : a.cursor with
    | idle =>
      rw [hcursor] at hat
      exact fun hb => StandsFor.ne_null hblock (hb.symm.trans hat)
    | behind block' off =>
      rw [hcursor] at hat hbehind
      rcases hat.2.2 with hnull | hp
      · exact fun hb => StandsFor.ne_null hblock (hb.symm.trans hnull.1)
      · exact fun hb => hbehind off (congrArg (Cursor.behind · off) (hp.1.symm.trans hb))
    | failed block' =>
      rw [hcursor] at hat hfailed
      exact fun hb => hfailed (congrArg Cursor.failed (hat.2.symm.trans hb))
  obtain ⟨code, f', herase, hstores, hfaithful⟩ := hholds.stores.erase outcome hblock
  have hreturns : code = if outcome.status = .complete then 0 else lfsErrIo := hfaithful.returns
  have hnonpos : ¬ code > 0 := by
    rw [hreturns]
    split <;> decide
  have hflash := flashErase_eq hblock outcome s.flash
  rw [herase, Option.some.injEq, Prod.mk.injEq] at hflash
  have herased : ∀ b < 40, ∀ o < 4096, f'.erased ((blockAddr b + o) / 2) =
      if b = block then outcome.status == .complete || outcome.erased ((blockAddr b + o) / 2)
      else s.flash.erased ((blockAddr b + o) / 2) := by
    intro b hb o ho
    have hbase : blockAddr b = 0x08010000 + 4096 * b.toNat := rfl
    have hbase' : blockAddr block = 0x08010000 + 4096 * block.toNat := rfl
    have hiff : 2 * ((blockAddr b + o) / 2) / 4096 = blockAddr block / 4096 ↔ b = block := by
      rw [← UInt32.toNat_inj]
      omega
    rw [hflash.2]
    exact if_congr hiff rfl rfl
  have hunder : ∀ small big : Programmed, Within small (overlay (some s.pcache) big) →
      Within (small.forget block) (overlay (some s.pcache) (big.forget block)) := by
    intro small big hwithin b hb o ho v hv
    unfold Programmed.forget at hv
    by_cases hown : b = block
    · rw [if_pos hown] at hv
      cases hv
    · rw [if_neg hown] at hv
      have hheld := hwithin b hb o ho v hv
      by_cases hcovers : s.pcache.Covers b o
      · rwa [overlay_of_covers hcovers] at hheld ⊢
      · rw [overlay_of_not_covers hcovers] at hheld ⊢
        exact (if_neg hown).trans hheld
  refine ⟨code, [], { s with flash := f' }, ?_, hreturns, ⟨stored.forget block, seen.forget block,
    hstores, hholds.seen_stored.forget, ?_, hholds.even, hunder _ _ hholds.image,
    hunder _ _ hholds.visible, hholds.synced.forget, ?_, ?_⟩, hroom⟩
  · rw [BdCall.run, lfsBdErase, if_neg hasserted, herase]
    dsimp only
    rw [if_neg hnonpos, Option.map_some]
  · apply hholds.coherent.mono
    intro b _ o v hv
    unfold Programmed.forget at hv
    by_cases hown : b = block
    · rw [if_pos hown] at hv
      cases hv
    · rwa [if_neg hown] at hv
  · intro b hb o ho hblank
    change if b = block then decide (code = 0) = true else a.blank b o at hblank
    change f'.erased ((blockAddr b + o) / 2) = true ∧ ¬ s.pcache.Spans b o
    rw [herased b hb o ho]
    by_cases hown : b = block
    · rw [if_pos hown, decide_eq_true_iff, hreturns] at hblank
      have hcomplete : outcome.status = .complete := by
        by_contra hne
        rw [if_neg hne] at hblank
        exact absurd hblank (by decide)
      rw [if_pos hown, hcomplete]
      exact ⟨rfl, fun hspans => hother (hspans.1.trans hown)⟩
    · rw [if_neg hown] at hblank ⊢
      exact hholds.blank b hb o ho hblank
  · have hat := hholds.cursor
    change Cursor.At { s with flash := f' } a.cursor
    cases hcursor : a.cursor with
    | idle =>
      rw [hcursor] at hat
      exact hat
    | behind block' off =>
      rw [hcursor] at hat
      obtain ⟨hblock', hoff, hnull | ⟨hp, hend, hbuffered⟩⟩ := hat
      · exact ⟨hblock', hoff, .inl hnull⟩
      · have hfits := hbuffered.fits
        refine ⟨hblock', hoff, .inr ⟨hp, hend, hbuffered.block, hbuffered.even, hbuffered.fits,
          hbuffered.size, ?_⟩⟩
        intro o hlow hhigh
        change o < s.pcache.off + s.pcache.size at hhigh
        change f'.erased ((blockAddr s.pcache.block + o) / 2) = true
        rw [herased _ hbuffered.block o (by omega), if_neg hother]
        exact hbuffered.erased o hlow hhigh
    | failed block' =>
      rw [hcursor] at hat
      exact hat

/-- What is in the program cache is lost with it. -/
theorem drop_block {stored seen : Programmed} {block : UInt32} (h : StandsFor stored seen a s)
    (hp : s.pcache.block = lfsBlockNull ∨ s.pcache.block = block) :
    StandsFor stored seen { a.forget block with cursor := .idle } { s with pcache := s.pcache.drop } := by
  have hunder : ∀ small big : Programmed, Within small (overlay (some s.pcache) big) →
      Within (small.forget block) (overlay (some s.pcache.drop) big) := by
    intro small big hwithin b hb o ho v hv
    unfold Programmed.forget at hv
    by_cases hown : b = block
    · rw [if_pos hown] at hv
      cases hv
    · rw [if_neg hown] at hv
      have hcovers : ¬ s.pcache.Covers b o := by
        rintro ⟨hb', -⟩
        rcases hp with hnull | hblock
        · exact StandsFor.ne_null hb (hb'.trans hnull)
        · exact hown (hb'.trans hblock)
      rw [overlay_null rfl hb, ← overlay_of_not_covers hcovers big]
      exact hwithin b hb o ho v hv
  refine ⟨h.stores, h.seen_stored, h.coherent, h.even, hunder _ _ h.image, hunder _ _ h.visible,
    (within_forget block a.synced).trans h.synced, ?_, rfl⟩
  intro b hb o ho hblank
  exact ⟨(h.blank b hb o ho hblank).1, fun hspans => StandsFor.ne_null hb hspans.1.symm⟩

theorem drop (h : Stands a s) :
    ∃ code data s', BdCall.drop.run s = some (code, data, s') ∧
      BdCall.drop.Returns a code data ∧ Stands (BdCall.drop.record code a) s' := by
  obtain ⟨⟨stored, seen, hholds⟩, -⟩ := h
  refine ⟨0, [], { s with pcache := s.pcache.drop }, rfl, rfl, ?_⟩
  have hat := hholds.cursor
  rw [BdCall.record, Programs.drop]
  cases hcursor : a.cursor with
  | idle =>
    rw [hcursor] at hat
    have hsame : s.pcache.drop = s.pcache := by
      rw [LfsCache.drop, ← hat]
    rw [hsame]
    exact of_cursor hholds fun _ _ hbehind => by rw [hcursor] at hbehind; cases hbehind
  | behind block off =>
    rw [hcursor] at hat
    have hp : s.pcache.block = lfsBlockNull ∨ s.pcache.block = block := by
      rcases hat.2.2 with hnull | hblock
      · exact .inl hnull.1
      · exact .inr hblock.1
    exact of_cursor (drop_block hholds hp) fun _ _ hbehind => by cases hbehind
  | failed block =>
    rw [hcursor] at hat
    exact of_cursor (drop_block hholds (.inr hat.2)) fun _ _ hbehind => by cases hbehind

theorem call (h : Stands a s) {c : BdCall} (hc : c.Allowed a) :
    ∃ code data s', c.run s = some (code, data, s') ∧ c.Returns a code data ∧
      Stands (c.record code a) s' := by
  cases c with
  | read cached hint block off size => exact h.read cached hc
  | prog validate status block off data => exact h.prog validate status hc
  | flush validate status => exact h.flush validate status hc
  | sync validate status => exact h.sync validate status hc
  | erase block outcome => exact h.erase outcome hc
  | drop => exact h.drop

theorem boot {f : Flash} (h : f.locked = true) :
    Stands ⟨fun _ _ => none, fun _ _ => none, fun _ _ => none, fun _ _ => False, .idle⟩
      ⟨⟨lfsBlockNull, 0, 0, fun _ => 0xFF⟩, ⟨lfsBlockNull, 0, 0, fun _ => 0xFF⟩, f⟩ := by
  have hnone : ∀ big : Programmed, Within (fun _ _ => none) big := fun _ _ _ _ _ v hv => by cases hv
  have hholds : StandsFor (fun _ _ => none) (fun _ _ => none)
      ⟨fun _ _ => none, fun _ _ => none, fun _ _ => none, fun _ _ => False, .idle⟩
      ⟨⟨lfsBlockNull, 0, 0, fun _ => 0xFF⟩, ⟨lfsBlockNull, 0, 0, fun _ => 0xFF⟩, f⟩ :=
    ⟨⟨h, fun _ _ _ _ _ hv => by cases hv⟩, hnone _, ⟨rfl, fun _ _ _ _ _ hv => by cases hv⟩, rfl,
      hnone _, hnone _, hnone _, fun _ _ _ _ hblank => hblank.elim, rfl⟩
  exact of_cursor hholds fun _ _ hbehind => by cases hbehind

end Stands

theorem BdReaches.stands {a : Programs} {s : Bd} (h : BdReaches a s) : Stands a s := by
  induction h with
  | boot h => exact .boot h
  | call c _ hc hrun ih =>
    obtain ⟨code, data, s', hrun', -, hstands⟩ := ih.call hc
    rw [hrun', Option.some.injEq, Prod.mk.injEq, Prod.mk.injEq] at hrun
    obtain ⟨rfl, -, rfl⟩ := hrun
    exact hstands

/-- After every sequence of allowed calls every allowed call returns, a read returns the bytes that
are visible, and a call fails only where the hardware has failed. -/
theorem caches_invisible (a : Programs) (s : Bd) (h : BdReaches a s) (c : BdCall)
    (hc : c.Allowed a) :
    ∃ code data s', c.run s = some (code, data, s') ∧ c.Returns a code data := by
  obtain ⟨code, data, s', hrun, hreturns, -⟩ := h.stands.call hc
  exact ⟨code, data, s', hrun, hreturns⟩

/-- Three bytes are programmed into a page that has been erased. -/
theorem caches_invisible_prog :
    ∃ a s, BdReaches a s ∧ ∃ code data s',
      (BdCall.prog true (fun _ _ => .complete) 3 0 [1, 2, 3]).run s = some (code, data, s') ∧
        (BdCall.prog true (fun _ _ => .complete) 3 0 [1, 2, 3]).Returns a code data := by
  have hboot : BdReaches ⟨fun _ _ => none, fun _ _ => none, fun _ _ => none, fun _ _ => False,
      .idle⟩ ⟨⟨lfsBlockNull, 0, 0, fun _ => 0xFF⟩, ⟨lfsBlockNull, 0, 0, fun _ => 0xFF⟩,
        ⟨fun _ => 0, fun _ => true, true⟩⟩ := .boot rfl
  have herase : (BdCall.erase 3 ⟨.complete, fun _ => 0xFF, fun _ => true⟩).Allowed
      ⟨fun _ _ => none, fun _ _ => none, fun _ _ => none, fun _ _ => False, .idle⟩ :=
    ⟨by decide, fun _ => Cursor.noConfusion, Cursor.noConfusion⟩
  have hreach := BdReaches.call _ hboot herase rfl
  exact ⟨_, _, hreach, caches_invisible _ _ hreach _
    ⟨by decide, by decide, .inr ⟨rfl, rfl⟩, fun _ _ _ => rfl⟩⟩

end Not232
