import Not232.LfsFlush

/-!
# Programming through the caches

A program call fills the program cache and flushes it when it is full. Abstractly the device keeps
the bytes that have been programmed since the erase of their block, which of them a read returns
with the program cache and without it, and where the program cache stands. Each piece of a program
call keeps what the two have to do with each other.
-/

namespace Not232

/-- Bytes are copied into the cache, which grows to hold them. -/
def LfsCache.fill (c : LfsCache) (off : ℕ) (data : List UInt8) : LfsCache :=
  { c with
    buffer := fun i =>
      if off - c.off ≤ i ∧ i < off - c.off + data.length then data.getD (i - (off - c.off)) 0
      else c.buffer i
    size := max c.size (off + data.length - c.off) }

/-- The loop of `lfs_bd_prog`, if `fuel` turns are enough; `none` too if an assertion fails. What
the hardware answers depends on where a flush starts. -/
def progTurns (validate : Bool) (status : ℕ → ℕ → FlashStatus) (block : UInt32) :
    (fuel off : ℕ) → List UInt8 → Bd → Option (Int32 × Bd)
  | fuel, off, data, s =>
    if data = [] then some (0, s)
    else
      match fuel with
      | 0 => none
      | fuel + 1 =>
        let p := s.pcache
        if block = p.block ∧ off ≥ p.off ∧ off < p.off + cacheSize then
          let diff := min data.length (cacheSize - (off - p.off))
          let p := p.fill off (data.take diff)
          let s := { s with pcache := p }
          if p.size = cacheSize then
            match lfsBdFlush validate (status p.off) s with
            | none => none
            | some (err, s) =>
              if err ≠ 0 then some (err, s)
              else progTurns validate status block fuel (off + diff) (data.drop diff) s
          else progTurns validate status block fuel (off + diff) (data.drop diff) s
        else if p.block = lfsBlockNull then
          progTurns validate status block fuel off data
            { s with pcache := { p with block := block, off := lfsAligndown off progSize, size := 0 } }
        else none

def lfsBdProg (validate : Bool) (status : ℕ → ℕ → FlashStatus) (block : UInt32) (off : ℕ)
    (data : List UInt8) (s : Bd) : Option (Int32 × Bd) :=
  if ¬ (block = lfsBlockInline ∨ block.toNat < blockCount) then none
  else if (off + data.length) % 2 ^ 32 > blockSize then none
  else progTurns validate status block (2 * data.length) off data s

def lfsBdErase (block : UInt32) (outcome : EraseOutcome) (s : Bd) : Option (Int32 × Bd) :=
  if block.toNat ≥ blockCount then none
  else
    match flashErase block outcome s.flash with
    | none => none
    | some (err, f) => if err > 0 then none else some (err, { s with flash := f })

/-! ### What the caches stand for -/

/-- Bytes are programmed from an offset on. -/
def Programmed.put (block : UInt32) (off : ℕ) (data : List UInt8) (image : Programmed) :
    Programmed := fun b o =>
  if b = block ∧ off ≤ o ∧ o < off + data.length then data[o - off]? else image b o

def Programmed.forget (block : UInt32) (image : Programmed) : Programmed := fun b o =>
  if b = block then none else image b o

/-- Where the program cache stands: empty, behind a byte of a block, or with a block that it has
failed to program. -/
inductive Cursor
  | idle
  | behind (block : UInt32) (off : ℕ)
  | failed (block : UInt32)

/-- The bytes programmed since the erase of their block, those of them that a read returns with the
program cache and without it, and the bytes whose half-word can be programmed. -/
structure Programs where
  image : Programmed
  visible : Programmed
  synced : Programmed
  blank : UInt32 → ℕ → Prop
  cursor : Cursor

namespace Programs

variable (a : Programs)

def forget (block : UInt32) : Programs :=
  { a with
    image := a.image.forget block
    visible := a.visible.forget block
    synced := a.synced.forget block }

/-- The half-word of the byte is not among those of the bytes. -/
def prog (validate : Bool) (block : UInt32) (off : ℕ) (data : List UInt8) : Programs where
  image := a.image.put block off data
  visible := if validate then a.visible.put block off data else a.synced
  synced := a.synced
  blank b o := a.blank b o ∧
    ¬ (b = block ∧ off ≤ 2 * (o / 2) + 1 ∧ 2 * (o / 2) < off + data.length)
  cursor := .behind block (off + data.length)

def flush (validate : Bool) : Programs :=
  { a with
    visible := if validate then a.visible else a.synced
    synced := if validate then a.visible else a.synced
    cursor := .idle }

def sync : Programs := { a with visible := a.image, synced := a.image, cursor := .idle }

def erase (block : UInt32) (complete : Bool) : Programs :=
  { a.forget block with blank := fun b o => if b = block then complete = true else a.blank b o }

/-- The program cache keeps a block that it has failed to program. -/
def fail : Programs :=
  match a.cursor with
  | .idle => a
  | .behind block _ | .failed block => { a.forget block with cursor := .failed block }

/-- The program cache is dropped with what is in it. -/
def drop : Programs :=
  match a.cursor with
  | .idle => a
  | .behind block _ | .failed block => { a.forget block with cursor := .idle }

end Programs

/-- The program cache is where the cursor is. -/
def Cursor.At (s : Bd) : Cursor → Prop
  | idle => s.pcache.block = lfsBlockNull
  | behind block off =>
    block < 40 ∧ off ≤ 4096 ∧
      (s.pcache.block = lfsBlockNull ∧ off % 2 = 0 ∨
        s.pcache.block = block ∧ s.pcache.off + s.pcache.size = off ∧ Buffered s.flash s.pcache)
  | failed block => block < 40 ∧ s.pcache.block = block

/-- The state stands for the programs: `stored` is in the flash, and the read cache knows the part
`seen` of it. -/
structure StandsFor (stored seen : Programmed) (a : Programs) (s : Bd) : Prop where
  stores : Stores stored s.flash
  seen_stored : Within seen stored
  coherent : Coherent seen s.rcache
  even : s.pcache.off % 2 = 0
  image : Within a.image (overlay (some s.pcache) stored)
  visible : Within a.visible (overlay (some s.pcache) seen)
  synced : Within a.synced seen
  blank : ∀ b < 40, ∀ o < 4096, a.blank b o →
    s.flash.erased ((blockAddr b + o) / 2) = true ∧ ¬ s.pcache.Spans b o
  cursor : a.cursor.At s

section Programmed

variable {block b : UInt32} {off o : ℕ} {data : List UInt8} {image small big : Programmed}

theorem Within.put (h : Within small big) :
    Within (small.put block off data) (big.put block off data) := by
  intro b hb o ho v hv
  unfold Programmed.put at hv ⊢
  by_cases hin : b = block ∧ off ≤ o ∧ o < off + data.length
  · rw [if_pos hin] at hv ⊢
    exact hv
  · rw [if_neg hin] at hv ⊢
    exact h b hb o ho v hv

theorem within_forget (block : UInt32) (image : Programmed) : Within (image.forget block) image := by
  intro b _ o _ v hv
  unfold Programmed.forget at hv
  by_cases hb : b = block
  · rw [if_pos hb] at hv
    cases hv
  · rwa [if_neg hb] at hv

theorem Within.forget (h : Within small big) : Within (small.forget block) (big.forget block) := by
  intro b hb o ho v hv
  unfold Programmed.forget at hv ⊢
  by_cases hblock : b = block
  · rw [if_pos hblock] at hv
    cases hv
  · rw [if_neg hblock] at hv ⊢
    exact h b hb o ho v hv

theorem put_append (first second : List UInt8) :
    image.put block off (first ++ second) =
      (image.put block off first).put block (off + first.length) second := by
  funext b o
  simp only [Programmed.put, List.length_append]
  by_cases hb : b = block
  · by_cases hlow : off ≤ o ∧ o < off + first.length
    · rw [if_pos ⟨hb, by omega, by omega⟩, if_neg (by rintro ⟨-, h⟩; omega), if_pos ⟨hb, hlow⟩,
        List.getElem?_append_left (by omega)]
    · by_cases hhigh : off + first.length ≤ o ∧ o < off + first.length + second.length
      · rw [if_pos ⟨hb, by omega, by omega⟩, if_pos ⟨hb, hhigh⟩,
          List.getElem?_append_right (by omega)]
        congr 1
        omega
      · rw [if_neg (by rintro ⟨-, h⟩; omega), if_neg fun h => hhigh h.2, if_neg fun h => hlow h.2]
  · rw [if_neg fun h => hb h.1, if_neg fun h => hb h.1, if_neg fun h => hb h.1]

theorem forget_put : (image.put block off data).forget block = image.forget block := by
  funext b o
  simp only [Programmed.forget, Programmed.put]
  by_cases hb : b = block
  · rw [if_pos hb, if_pos hb]
  · rw [if_neg hb, if_neg hb, if_neg fun h => hb h.1]

/-- Bytes put behind those of the program cache. -/
theorem overlay_fill {p : LfsCache} (hoff : p.off + p.size = off) (stored : Programmed) :
    overlay (some (p.fill off data)) stored = (overlay (some p) stored).put p.block off data := by
  funext b o
  have hend : p.off + max p.size (off + data.length - p.off) = off + data.length := by omega
  have hcovers : (p.fill off data).Covers b o ↔
      b = p.block ∧ p.off ≤ o ∧ o < off + data.length := by
    simp only [LfsCache.Covers, LfsCache.fill, hend]
  unfold Programmed.put
  by_cases hin : b = p.block ∧ off ≤ o ∧ o < off + data.length
  · have hindex : o - p.off - (off - p.off) = o - off := by omega
    rw [if_pos hin, overlay_of_covers (hcovers.mpr ⟨hin.1, by omega, hin.2.2⟩)]
    dsimp only [LfsCache.fill]
    rw [if_pos (by omega), hindex, List.getD_eq_getElem?_getD,
      List.getElem?_eq_getElem (by omega), Option.getD_some]
  · rw [if_neg hin]
    by_cases hp : p.Covers b o
    · have hp' := hp
      obtain ⟨hb, hlow, hhigh⟩ := hp
      rw [overlay_of_covers (hcovers.mpr ⟨hb, hlow, by omega⟩), overlay_of_covers hp']
      dsimp only [LfsCache.fill]
      rw [if_neg]
      omega
    · rw [overlay_of_not_covers hp, overlay_of_not_covers]
      intro hcovered
      obtain ⟨hb, hlow, hhigh⟩ := hcovers.mp hcovered
      have hbefore : o < off := by
        by_contra hge
        exact hin ⟨hb, Nat.le_of_not_lt hge, hhigh⟩
      exact hp ⟨hb, hlow, by omega⟩

end Programmed

/-- The state stands for the programs, and the program cache has room for a byte more. -/
def Stands (a : Programs) (s : Bd) : Prop :=
  (∃ stored seen, StandsFor stored seen a s) ∧
    ∀ block off, a.cursor = .behind block off → s.pcache.block = block → s.pcache.size < 64

namespace StandsFor

variable {stored seen : Programmed} {a : Programs} {s : Bd} {block : UInt32} {off : ℕ}
  {data : List UInt8} {validate : Bool}

theorem ne_null {b : UInt32} (hb : b < 40) : b ≠ lfsBlockNull := by
  rintro rfl
  exact absurd hb (by decide)

/-- No byte that is known is under the program cache. -/
theorem seen_overlay {p : LfsCache} (hstores : Stores stored s.flash)
    (hseen : Within seen stored) (hp : p.block = lfsBlockNull ∨ Buffered s.flash p) :
    Within seen (overlay (some p) seen) := by
  intro b hb o ho v hv
  rcases hp with hnull | hbuffered
  · rw [overlay_null hnull hb, hv]
  · by_cases hcovers : p.Covers b o
    · obtain ⟨hblock, hlow, hhigh⟩ := hcovers
      have hnone := hbuffered.stored_none hstores ⟨hblock.symm, hlow, by omega⟩
      rw [hseen b hb o ho v hv] at hnone
      cases hnone
    · rw [overlay_of_not_covers hcovers, hv]

/-- The program cache is empty or can be flushed, if it has not failed. -/
theorem buffered (h : StandsFor stored seen a s) (hcursor : ∀ block, a.cursor ≠ .failed block) :
    s.pcache.block = lfsBlockNull ∨ Buffered s.flash s.pcache := by
  have hat := h.cursor
  cases hc : a.cursor with
  | idle =>
    rw [hc] at hat
    exact .inl hat
  | behind block off =>
    rw [hc] at hat
    rcases hat.2.2 with hnull | hblock
    · exact .inl hnull.1
    · exact .inr hblock.2.2
  | failed block => exact absurd hc (hcursor block)

/-- A program cache that can be flushed is behind a byte of its block. -/
theorem behind_of_buffered (h : StandsFor stored seen a s) (hbuffered : Buffered s.flash s.pcache)
    (hcursor : ∀ block, a.cursor ≠ .failed block) :
    ∃ block off, a.cursor = .behind block off ∧ s.pcache.block = block := by
  have hat := h.cursor
  cases hc : a.cursor with
  | idle =>
    rw [hc] at hat
    exact absurd hat (ne_null hbuffered.block)
  | behind block off =>
    rw [hc] at hat
    rcases hat.2.2 with hnull | hblock
    · exact absurd hnull.1 (ne_null hbuffered.block)
    · exact ⟨block, off, rfl, hblock.1⟩
  | failed block => exact absurd hc (hcursor block)

/-- A read returns what is visible, and changes the read cache only. -/
theorem read (h : StandsFor stored seen a s) (cached : Bool) {hint size : ℕ} (hblock : block < 40)
    (hfits : off + size ≤ 4096) (hhint : 1 ≤ hint) (hwrap : 4096 + hint + 1 < 2 ^ 32) :
    ∃ data r, lfsBdRead s.flash (if cached then some s.pcache else none) s.rcache hint block off
          size = some (0, data, r) ∧ data.length = size ∧
      Agrees (if cached then a.visible else a.synced) block off data ∧
      StandsFor stored seen a { s with rcache := r } := by
  have heven : ∀ p ∈ (if cached then some s.pcache else none), p.off % 2 = 0 := by
    intro p hp
    cases cached with
    | false => cases hp
    | true =>
      obtain rfl : s.pcache = p := Option.some.inj hp
      exact h.even
  obtain ⟨data, r, hread, hlength, hagrees, hcoherent⟩ :=
    lfsBdRead_reads (h.stores.mono h.seen_stored) hblock hhint hwrap heven hfits h.coherent
  refine ⟨data, r, hread, hlength, ?_, ⟨h.stores, h.seen_stored, hcoherent, h.even, h.image,
    h.visible, h.synced, h.blank, h.cursor⟩⟩
  intro i hi v hv
  apply hagrees i hi v
  cases cached with
  | false => exact h.synced block hblock (off + i) (by omega) v hv
  | true => exact h.visible block hblock (off + i) (by omega) v hv

/-- An empty program cache is set up behind the bytes of a block. -/
theorem setup (h : StandsFor stored seen a s) (hcursor : a.cursor = .behind block off)
    (hnull : s.pcache.block = lfsBlockNull) :
    StandsFor stored seen a { s with pcache := { s.pcache with
      block := block, off := lfsAligndown off progSize, size := 0 } } := by
  have hat := h.cursor
  rw [hcursor] at hat
  obtain ⟨hblock, hoff, hat⟩ := hat
  have heven : off % 2 = 0 := by
    rcases hat with ⟨-, heven⟩ | ⟨hp, -⟩
    · exact heven
    · exact absurd (hp.symm.trans hnull) (ne_null hblock)
  have hdown : lfsAligndown off progSize = off := by
    rw [progSize, lfsAligndown_two]
    omega
  rw [hdown]
  have hempty : ∀ (image : Programmed) (b : UInt32) (o : ℕ), overlay (some { s.pcache with
      block := block, off := off, size := 0 }) image b o = image b o := by
    intro image b o
    apply overlay_of_not_covers
    rintro ⟨-, hlow, hhigh⟩
    exact absurd (hlow.trans_lt hhigh) (lt_irrefl off)
  refine ⟨h.stores, h.seen_stored, h.coherent, heven, ?_, ?_, h.synced, ?_, ?_⟩
  · intro b hb o ho v hv
    have himage := h.image b hb o ho v hv
    rw [overlay_null hnull hb] at himage
    exact (hempty stored b o).trans himage
  · intro b hb o ho v hv
    have hvisible := h.visible b hb o ho v hv
    rw [overlay_null hnull hb] at hvisible
    exact (hempty seen b o).trans hvisible
  · intro b hb o ho hblank
    refine ⟨(h.blank b hb o ho hblank).1, ?_⟩
    rintro ⟨-, hlow, hhigh⟩
    dsimp only at hlow hhigh
    omega
  · rw [hcursor]
    refine ⟨hblock, hoff, .inr ⟨rfl, rfl, ⟨hblock, heven, hoff, Nat.zero_le _, ?_⟩⟩⟩
    intro o hlow hhigh
    exact absurd (hlow.trans_lt hhigh) (lt_irrefl off)

/-- Bytes are copied behind those of the program cache. -/
theorem fill (h : StandsFor stored seen a s) (hcursor : a.cursor = .behind block off)
    (hblock : s.pcache.block = block) (hroom : s.pcache.size + data.length ≤ 64)
    (hfits : off + data.length ≤ 4096)
    (hblank : ∀ o, off + off % 2 ≤ o → o < off + data.length → a.blank block o) :
    StandsFor stored seen (a.prog validate block off data)
        { s with pcache := s.pcache.fill off data } ∧
      (s.pcache.fill off data).size = s.pcache.size + data.length := by
  have hat := h.cursor
  rw [hcursor] at hat
  obtain ⟨hblock', hoff, ⟨hnull, -⟩ | ⟨-, hend, hbuffered⟩⟩ := hat
  · exact absurd (hblock.symm.trans hnull) (ne_null hblock')
  have heven := hbuffered.even
  have hsize : (s.pcache.fill off data).size = s.pcache.size + data.length := by
    dsimp only [LfsCache.fill]
    omega
  have hfilled : Buffered s.flash (s.pcache.fill off data) := by
    refine ⟨hbuffered.block, heven, ?_, ?_, ?_⟩
    · rw [hsize]
      change s.pcache.off + (s.pcache.size + data.length) ≤ 4096
      omega
    · rw [hsize]
      exact hroom
    · intro o hlow hhigh
      rw [hsize] at hhigh
      change s.pcache.off ≤ o at hlow
      change o < s.pcache.off + (s.pcache.size + data.length) at hhigh
      change s.flash.erased ((blockAddr s.pcache.block + o) / 2) = true
      by_cases hold : 2 * (o / 2) < s.pcache.off + s.pcache.size
      · exact hbuffered.erased_of_spans ⟨rfl, hlow, hold⟩
      · rw [hblock]
        exact (h.blank block hblock' o (by omega) (hblank o (by omega) (by omega))).1
  refine ⟨⟨h.stores, h.seen_stored, h.coherent, heven, ?_, ?_, h.synced, ?_, ?_⟩, hsize⟩
  · dsimp only [Programs.prog]
    rw [overlay_fill hend, hblock]
    exact h.image.put
  · cases validate with
    | false => exact h.synced.trans (seen_overlay h.stores h.seen_stored (.inr hfilled))
    | true =>
      dsimp only [Programs.prog]
      rw [overlay_fill hend, hblock]
      exact h.visible.put
  · rintro b hb o ho ⟨hblank', htouched⟩
    obtain ⟨herased, hspans⟩ := h.blank b hb o ho hblank'
    refine ⟨herased, ?_⟩
    rintro ⟨hb', hlow, hhigh⟩
    rw [hsize] at hhigh
    change s.pcache.block = b at hb'
    change s.pcache.off ≤ o at hlow
    change 2 * (o / 2) < s.pcache.off + (s.pcache.size + data.length) at hhigh
    by_cases hold : 2 * (o / 2) < s.pcache.off + s.pcache.size
    · exact hspans ⟨hb', hlow, hold⟩
    · exact htouched ⟨hb'.symm.trans hblock, by omega, by omega⟩
  · refine ⟨hblock', hfits, .inr ⟨hblock, ?_, hfilled⟩⟩
    rw [hsize]
    change s.pcache.off + (s.pcache.size + data.length) = off + data.length
    omega

/-- No bytes are programmed. -/
theorem prog_nil (h : StandsFor stored seen a s) (hcursor : a.cursor = .behind block off) :
    StandsFor stored seen (a.prog validate block off []) s := by
  have hbuffered := h.buffered fun block h => by rw [hcursor] at h; cases h
  have hput : ∀ image : Programmed, image.put block off [] = image := by
    intro image
    funext b o
    apply if_neg
    rintro ⟨-, hlow, hhigh⟩
    exact absurd (hlow.trans_lt hhigh) (lt_irrefl off)
  refine ⟨h.stores, h.seen_stored, h.coherent, h.even, ?_, ?_, h.synced, ?_, ?_⟩
  · dsimp only [Programs.prog]
    rw [hput]
    exact h.image
  · cases validate with
    | false => exact h.synced.trans (seen_overlay h.stores h.seen_stored hbuffered)
    | true =>
      dsimp only [Programs.prog]
      rw [if_pos rfl, hput]
      exact h.visible
  · exact fun b hb o ho hblank => h.blank b hb o ho hblank.1
  · have hat := h.cursor
    rwa [hcursor] at hat

/-- A flush that succeeds. -/
theorem flushed (h : StandsFor stored seen a s) (hbuffered : Buffered s.flash s.pcache) {s' : Bd}
    (herased : ∀ b < 40, ∀ o < 4096, ¬ s.pcache.Spans b o →
      s'.flash.erased ((blockAddr b + o) / 2) = s.flash.erased ((blockAddr b + o) / 2))
    (hflushed : Flushed stored validate s s') :
    ∃ seen', StandsFor (overlay (some s.pcache) stored) seen'
        { a with visible := if validate then a.visible else a.synced, cursor := .idle } s' ∧
      (validate = true → Within a.visible seen') := by
  have hnull : s'.pcache.block = lfsBlockNull := by rw [hflushed.pcache, LfsCache.zero]
  have heven : s'.pcache.off % 2 = 0 := by
    rw [hflushed.pcache]
    exact h.even
  have hstored : Within stored (overlay (some s.pcache) stored) :=
    seen_overlay h.stores (Within.refl stored) (.inr hbuffered)
  have hunder : ∀ small big : Programmed, Within small big →
      Within small (overlay (some s'.pcache) big) := by
    intro small big hwithin b hb o ho v hv
    rw [overlay_null hnull hb]
    exact hwithin b hb o ho v hv
  have hblank : ∀ b < 40, ∀ o < 4096, a.blank b o →
      s'.flash.erased ((blockAddr b + o) / 2) = true ∧ ¬ s'.pcache.Spans b o := by
    intro b hb o ho hblank
    obtain ⟨hheld, hspans⟩ := h.blank b hb o ho hblank
    rw [herased b hb o ho hspans]
    refine ⟨hheld, ?_⟩
    rintro ⟨hb', -⟩
    exact ne_null hb (hb'.symm.trans hnull)
  cases validate with
  | false =>
    refine ⟨seen, ⟨hflushed.stores, h.seen_stored.trans hstored, ?_, heven, hunder _ _ h.image,
      hunder _ _ h.synced, h.synced, hblank, hnull⟩, fun hfalse => by cases hfalse⟩
    rw [hflushed.kept rfl]
    exact h.coherent
  | true =>
    have hvisible : Within a.visible (overlay (some s.pcache) stored) :=
      h.visible.trans h.seen_stored.overlay
    exact ⟨_, ⟨hflushed.stores, Within.refl _, hflushed.validated rfl, heven, hunder _ _ h.image,
      hunder _ _ hvisible, h.synced.trans (h.seen_stored.trans hstored), hblank, hnull⟩,
      fun _ => hvisible⟩

/-- A flush that fails. -/
theorem unflushed (h : StandsFor stored seen a s) (hcursor : a.cursor = .behind block off)
    (hblock : s.pcache.block = block) {s' : Bd}
    (herased : ∀ b < 40, ∀ o < 4096, ¬ s.pcache.Spans b o →
      s'.flash.erased ((blockAddr b + o) / 2) = s.flash.erased ((blockAddr b + o) / 2))
    (hunflushed : Unflushed stored s s') : StandsFor stored seen a.fail s' := by
  obtain ⟨hpcache, hrcache, hstores⟩ := hunflushed
  have hat := h.cursor
  rw [hcursor] at hat
  rw [Programs.fail, hcursor]
  refine ⟨hstores, h.seen_stored, ?_, ?_, ?_, ?_, ?_, ?_, ?_⟩
  · rw [hrcache]
    exact h.coherent
  · rw [hpcache]
    exact h.even
  · rw [hpcache]
    exact (within_forget block a.image).trans h.image
  · rw [hpcache]
    exact (within_forget block a.visible).trans h.visible
  · exact (within_forget block a.synced).trans h.synced
  · intro b hb o ho hblank
    obtain ⟨hheld, hspans⟩ := h.blank b hb o ho hblank
    rw [herased b hb o ho hspans, hpcache]
    exact ⟨hheld, hspans⟩
  · exact ⟨hat.1, by rw [hpcache, hblock]⟩

/-- What is still to be programmed into a block that has failed is forgotten with it. -/
theorem fail_prog (h : StandsFor stored seen a.fail s) (hcursor : a.cursor = .behind block off) :
    StandsFor stored seen (a.prog validate block off data).fail s := by
  rw [Programs.fail, hcursor] at h
  have hblock : s.pcache.block = block := h.cursor.2
  refine ⟨h.stores, h.seen_stored, h.coherent, h.even, ?_, ?_, h.synced, ?_, h.cursor⟩
  · change Within ((a.image.put block off data).forget block) _
    rw [forget_put]
    exact h.image
  · cases validate with
    | false =>
      intro b hb o ho v hv
      have hother : b ≠ block := by
        rintro rfl
        change Programmed.forget b a.synced b o = some v at hv
        rw [Programmed.forget, if_pos rfl] at hv
        cases hv
      have hcovers : ¬ s.pcache.Covers b o := fun hcovers => hother (hcovers.1.trans hblock)
      rw [overlay_of_not_covers hcovers]
      exact h.synced b hb o ho v hv
    | true =>
      change Within ((a.visible.put block off data).forget block) _
      rw [forget_put]
      exact h.visible
  · exact fun b hb o ho hblank => h.blank b hb o ho hblank.1

/-- With an even offset the cursor can stay behind the bytes of a block. -/
theorem reopen (h : StandsFor stored seen { a with cursor := .idle } s)
    (hcursor : a.cursor = .behind block off) (hblock : block < 40) (hoff : off ≤ 4096)
    (heven : off % 2 = 0) : StandsFor stored seen a s := by
  refine ⟨h.stores, h.seen_stored, h.coherent, h.even, h.image, h.visible, h.synced, h.blank, ?_⟩
  rw [hcursor]
  exact ⟨hblock, hoff, .inl ⟨h.cursor, heven⟩⟩

end StandsFor

theorem prog_append (a : Programs) (validate : Bool) (block : UInt32) (off : ℕ)
    (first second : List UInt8) :
    a.prog validate block off (first ++ second) =
      (a.prog validate block off first).prog validate block (off + first.length) second := by
  simp only [Programs.prog, put_append, List.length_append, Nat.add_assoc]
  congr 1
  · cases validate with
    | false => rfl
    | true => rfl
  · funext b o
    apply propext
    constructor
    · rintro ⟨hblank, htouched⟩
      exact ⟨⟨hblank, fun h => htouched ⟨h.1, h.2.1, by omega⟩⟩,
        fun h => htouched ⟨h.1, by omega, by omega⟩⟩
    · rintro ⟨⟨hblank, hfirst⟩, hsecond⟩
      refine ⟨hblank, ?_⟩
      rintro ⟨hb, hlow, hhigh⟩
      by_cases hlt : 2 * (o / 2) < off + first.length
      · exact hfirst ⟨hb, hlow, hlt⟩
      · exact hsecond ⟨hb, by omega, by omega⟩

section Prog

variable {stored seen : Programmed} {a : Programs} {s : Bd} {block : UInt32} {off : ℕ}
  {data : List UInt8}

/-- What a program call leaves. -/
def Programmed.Leaves (a : Programs) (status : ℕ → ℕ → FlashStatus) (code : Int32) (s : Bd) : Prop :=
  code = 0 ∧ Stands a s ∨ code = lfsErrIo ∧ (∃ i j, status i j ≠ .complete) ∧ Stands a.fail s

theorem stands_fail (h : StandsFor stored seen a.fail s) (hcursor : a.cursor = .behind block off) :
    Stands a.fail s := by
  refine ⟨⟨stored, seen, h⟩, ?_⟩
  intro b o hbehind
  rw [Programs.fail, hcursor] at hbehind
  cases hbehind

theorem leaves_nil (h : StandsFor stored seen a s) (hcursor : a.cursor = .behind block off)
    (hroom : s.pcache.block = block → s.pcache.size < 64) (validate : Bool)
    (status : ℕ → ℕ → FlashStatus) :
    Programmed.Leaves (a.prog validate block off []) status 0 s := by
  refine .inl ⟨rfl, ⟨stored, seen, h.prog_nil hcursor⟩, ?_⟩
  rintro b o hbehind rfl
  cases hbehind
  exact hroom rfl

/-- The flush of a program cache that has been filled up to an even offset. -/
theorem flush_filled (h : StandsFor stored seen a s) (hcursor : a.cursor = .behind block off)
    (hblock : s.pcache.block = block) (heven : off % 2 = 0) (validate : Bool)
    (hvisible : validate = false → a.visible = a.synced) (status : ℕ → FlashStatus) :
    ∃ code s', lfsBdFlush validate status s = some (code, s') ∧
      (code = 0 ∧ s'.pcache.block = lfsBlockNull ∧ (∃ stored seen, StandsFor stored seen a s') ∨
        code = lfsErrIo ∧ (∃ i, status i ≠ .complete) ∧ ∃ stored seen, StandsFor stored seen a.fail s') := by
  have hat := h.cursor
  rw [hcursor] at hat
  obtain ⟨hblock', hoff, ⟨hnull, -⟩ | ⟨-, -, hbuffered⟩⟩ := hat
  · exact absurd (hblock.symm.trans hnull) (StandsFor.ne_null hblock')
  obtain ⟨code, s', hflush, herased, ⟨rfl, hflushed⟩ | ⟨rfl, hfailed, hunflushed⟩⟩ :=
    flush_spec h.stores h.coherent.even hbuffered validate status
  · obtain ⟨seen', hheld, -⟩ := h.flushed hbuffered herased hflushed
    have hsame : { a with visible := if validate then a.visible else a.synced, cursor := .idle } =
        { a with cursor := .idle } := by
      cases validate with
      | false => simp only [hvisible rfl, Bool.false_eq_true, if_false]
      | true => rfl
    rw [hsame] at hheld
    exact ⟨0, s', hflush, .inl ⟨rfl, hheld.cursor, _, seen', hheld.reopen hcursor hblock' hoff heven⟩⟩
  · exact ⟨_, s', hflush, .inr ⟨rfl, hfailed, _, _, h.unflushed hcursor hblock herased hunflushed⟩⟩

/-- The loop programs the bytes, or stops at a half-word that has failed. -/
theorem progTurns_leaves (validate : Bool) (status : ℕ → ℕ → FlashStatus) (fuel off : ℕ)
    (data : List UInt8) (stored seen : Programmed) (a : Programs) (s : Bd)
    (h : StandsFor stored seen a s) (hcursor : a.cursor = .behind block off)
    (hroom : s.pcache.block = block → s.pcache.size < 64) (hfits : off + data.length ≤ 4096)
    (hblank : ∀ o, off + off % 2 ≤ o → o < off + data.length → a.blank block o)
    (hfuel : (if s.pcache.block = lfsBlockNull then 2 * data.length else 2 * data.length - 1) ≤
      fuel) :
    ∃ code s', progTurns validate status block fuel off data s = some (code, s') ∧
      Programmed.Leaves (a.prog validate block off data) status code s' := by
  induction fuel generalizing off data stored seen a s with
  | zero =>
    have hdata : data = [] := by
      apply List.eq_nil_of_length_eq_zero
      split at hfuel
      · omega
      · omega
    subst hdata
    exact ⟨0, s, by rw [progTurns, if_pos rfl], leaves_nil h hcursor hroom validate status⟩
  | succ fuel ih =>
    by_cases hdata : data = []
    · subst hdata
      exact ⟨0, s, by rw [progTurns, if_pos rfl], leaves_nil h hcursor hroom validate status⟩
    have hpos := List.length_pos_iff.mpr hdata
    have hat := h.cursor
    rw [hcursor] at hat
    obtain ⟨hblock, hoff, ⟨hnull, -⟩ | ⟨hp, hend, hbuffered⟩⟩ := hat
    · have hother : ¬ (block = s.pcache.block ∧ off ≥ s.pcache.off ∧
          off < s.pcache.off + cacheSize) := fun hin => StandsFor.ne_null hblock (hin.1.trans hnull)
      rw [progTurns, if_neg hdata]
      dsimp only
      rw [if_neg hother, if_pos hnull]
      rw [if_pos hnull] at hfuel
      apply ih off data stored seen a _ (h.setup hcursor hnull) hcursor
        (fun _ => Nat.succ_pos 63) hfits hblank
      rw [if_neg (StandsFor.ne_null hblock)]
      omega
    · have hsize := hroom hp
      have heven := hbuffered.even
      have hin : block = s.pcache.block ∧ off ≥ s.pcache.off ∧ off < s.pcache.off + cacheSize :=
        ⟨hp.symm, by omega, by rw [cacheSize]; omega⟩
      rw [if_neg fun hnull => StandsFor.ne_null hblock (hp.symm.trans hnull)] at hfuel
      rw [progTurns, if_neg hdata]
      dsimp only
      rw [if_pos hin]
      generalize hn : min data.length (cacheSize - (off - s.pcache.off)) = n
      rw [cacheSize] at hn
      have htake : (data.take n).length = n := by
        rw [List.length_take]
        omega
      have hdrop : (data.drop n).length = data.length - n := List.length_drop
      have hsplit : a.prog validate block off data =
          (a.prog validate block off (data.take n)).prog validate block (off + n)
            (data.drop n) := by
        have happend := prog_append a validate block off (data.take n) (data.drop n)
        rwa [List.take_append_drop, htake] at happend
      have hblank' : ∀ o, off + n + (off + n) % 2 ≤ o → o < off + n + (data.drop n).length →
          (a.prog validate block off (data.take n)).blank block o := by
        intro o hlow hhigh
        rw [hdrop] at hhigh
        refine ⟨hblank o (by omega) (by omega), ?_⟩
        rintro ⟨-, -, htouched⟩
        rw [htake] at htouched
        omega
      have htaken : s.pcache.size + (data.take n).length ≤ 64 := by omega
      have hfill : StandsFor stored seen (a.prog validate block off (data.take n))
            { s with pcache := s.pcache.fill off (data.take n) } ∧
          (s.pcache.fill off (data.take n)).size = s.pcache.size + (data.take n).length :=
        h.fill hcursor hp htaken (by omega) (fun o hlow hhigh => hblank o hlow (by omega))
      obtain ⟨hfilled, hgrown⟩ := hfill
      have hcursor' : (a.prog validate block off (data.take n)).cursor = .behind block (off + n) := by
        rw [← htake]
        simp only [Programs.prog, htake]
      rw [hsplit]
      by_cases hfull : (s.pcache.fill off (data.take n)).size = cacheSize
      · rw [if_pos hfull]
        rw [hgrown, htake, cacheSize] at hfull
        obtain ⟨code, s', hflush, ⟨rfl, hnull, stored', seen', hheld⟩ |
            ⟨rfl, ⟨j, hj⟩, stored', seen', hheld⟩⟩ :=
          flush_filled hfilled hcursor' hp (by omega) validate (by rintro rfl; rfl)
            (status (s.pcache.fill off (data.take n)).off)
        · rw [hflush]
          dsimp only
          rw [if_neg (by decide)]
          apply ih (off + n) (data.drop n) stored' seen' _ s' hheld hcursor'
            (fun hb => absurd (hb.symm.trans hnull) (StandsFor.ne_null hblock)) (by omega) hblank'
          rw [if_pos hnull]
          omega
        · rw [hflush]
          dsimp only
          rw [if_pos (by decide)]
          exact ⟨_, s', rfl, .inr ⟨rfl, ⟨_, j, hj⟩,
            stands_fail (hheld.fail_prog hcursor') rfl⟩⟩
      · rw [if_neg hfull]
        rw [hgrown, htake, cacheSize] at hfull
        apply ih (off + n) (data.drop n) stored seen _ _ hfilled hcursor'
          (fun _ => by dsimp only; rw [hgrown, htake]; omega) (by omega) hblank'
        have hopen : ¬ (s.pcache.fill off (data.take n)).block = lfsBlockNull := fun hnull =>
          StandsFor.ne_null hblock (hp.symm.trans hnull)
        rw [if_neg hopen]
        omega

end Prog

end Not232
