import Not232.FlashDevice

/-!
# The block device as forty byte arrays

Abstractly the device keeps, for each block, the bytes programmed since its last erase. Every
sequence of calls that stay inside their block and program only erased half-words refines this: what
the arrays hold is in the flash, and no call changes a byte outside its block.
-/

namespace Not232

/-- A call, with what the hardware answers to it. -/
inductive FlashCall
  | read (block off size : UInt32)
  | prog (block off : UInt32) (buffer : ℕ → UInt8) (size : UInt32) (status : ℕ → FlashStatus)
  | erase (block : UInt32) (outcome : EraseOutcome)

/-- The bytes that successful calls have programmed since the last erase of their block. -/
abbrev Programmed := UInt32 → ℕ → Option UInt8

namespace FlashCall

def block : FlashCall → UInt32
  | read block _ _ | prog block _ _ _ _ | erase block _ => block

/-- The return value, the bytes read and the flash afterwards. -/
def run (f : Flash) : FlashCall → Option (Int32 × List UInt8 × Flash)
  | read block off size => some ((flashRead block off size f).1, (flashRead block off size f).2, f)
  | prog block off buffer size status =>
    (flashProg block off buffer size status f).map fun r => (r.1, [], r.2)
  | erase block outcome => (flashErase block outcome f).map fun r => (r.1, [], r.2)

/-- The call stays inside its block, and the half-words that it is to program are erased. -/
def Allowed (f : Flash) : FlashCall → Prop
  | read block off size => block < 40 ∧ off.toNat + size.toNat ≤ 4096
  | prog block off _ size _ =>
    (block < 40 ∧ off.toNat + size.toNat ≤ 4096) ∧
      (off.toNat % 2 = 0 → size.toNat % 2 = 0 → ∀ j < size.toNat / 2,
        f.erased ((blockAddr block + off.toNat) / 2 + j) = true)
  | erase block _ => block < 40

/-- What a call does to the arrays, by its return value. -/
def record (code : Int32) (image : Programmed) : FlashCall → Programmed
  | read _ _ _ => image
  | prog block off buffer size _ => fun b o =>
    if code = 0 ∧ b = block ∧ off.toNat ≤ o ∧ o < off.toNat + size.toNat then
      some (buffer (o - off.toNat))
    else image b o
  | erase block _ => fun b o => if b = block then none else image b o

/-- The bytes of the call's block. -/
def Owns (c : FlashCall) (a : ℕ) : Prop := blockAddr c.block ≤ a ∧ a < blockAddr c.block + 4096

/-- What a call returns and what it leaves. -/
def Returns (image : Programmed) (f : Flash) (code : Int32) (data : List UInt8) (f' : Flash) :
    FlashCall → Prop
  | read block off size =>
    code = 0 ∧ f' = f ∧ data.length = size.toNat ∧
      ∀ i < size.toNat, ∀ v, image block (off.toNat + i) = some v → data[i]? = some v
  | prog block off buffer size status =>
    if off.toNat % 2 = 1 ∨ size.toNat % 2 = 1 then code = lfsErrInval ∧ f' = f
    else ∃ k, Completed status (size.toNat / 2) 0 k ∧
      code = (if k = size.toNat / 2 then 0 else lfsErrIo) ∧
      f' = f.written (blockAddr block + off.toNat) (2 * k) buffer
  | erase _ outcome => code = if outcome.status = .complete then 0 else lfsErrIo

end FlashCall

/-- The states that allowed calls reach, with the arrays. -/
inductive FlashReaches : Programmed → Flash → Prop
  | boot {f : Flash} (h : f.locked = true) : FlashReaches (fun _ _ => none) f
  | call {image : Programmed} {f f' : Flash} {code : Int32} {data : List UInt8} (c : FlashCall)
      (h : FlashReaches image f) (hc : c.Allowed f) (hrun : c.run f = some (code, data, f')) :
      FlashReaches (c.record code image) f'

/-- The controller is locked, and what the arrays hold is in the flash, in half-words that are not
erased. -/
structure Stores (image : Programmed) (f : Flash) : Prop where
  locked : f.locked = true
  held : ∀ b < 40, ∀ o < 4096, ∀ v, image b o = some v →
    f.mem (blockAddr b + o) = v ∧ f.erased ((blockAddr b + o) / 2) = false

/-- What holds after every allowed call. -/
structure FlashCall.Faithful (image : Programmed) (f : Flash) (c : FlashCall) (code : Int32)
    (data : List UInt8) (f' : Flash) : Prop where
  locked : f'.locked = true
  frame : ∀ a, ¬ c.Owns a → f'.mem a = f.mem a
  region : ∀ a, c.Owns a → 0x08010000 ≤ a ∧ a ≤ 0x08037FFF
  rejected : code = lfsErrInval → f' = f
  returns : c.Returns image f code data f'

theorem FlashCall.Owns.region {c : FlashCall} {a : ℕ} (h : c.Owns a) (hblock : c.block < 40) :
    0x08010000 ≤ a ∧ a ≤ 0x08037FFF := by
  have hlt : c.block.toNat < 40 := hblock
  simp only [FlashCall.Owns, blockAddr] at h
  omega

theorem blockAddr_inj {b block : UInt32} {o : ℕ} (ho : o < 4096)
    (h : (blockAddr b + o) / 4096 = blockAddr block / 4096) : b = block := by
  apply UInt32.toNat_inj.mp
  simp only [blockAddr] at h
  omega

namespace Stores

variable {image : Programmed} {f : Flash}

theorem read (h : Stores image f) {block off size : UInt32}
    (hc : (FlashCall.read block off size).Allowed f) :
    (FlashCall.read block off size).Faithful image f (flashRead block off size f).1
      (flashRead block off size f).2 f := by
  obtain ⟨hblock, hfits⟩ := hc
  have hread := flashRead_eq hblock hfits f
  refine ⟨h.locked, fun _ _ => rfl, fun a ha => ha.region hblock, fun _ => rfl, ?_⟩
  rw [hread]
  refine ⟨rfl, rfl, by simp, ?_⟩
  intro i hi v hv
  have hheld := (h.held block hblock (off.toNat + i) (by omega) v hv).1
  rw [List.getElem?_map, List.getElem?_range hi, Option.map_some, Nat.add_assoc, hheld]

/-- Programming erased half-words leaves what the arrays hold. -/
theorem written (h : Stores image f) {start k : ℕ} (hstart : start % 2 = 0)
    (herased : ∀ j < k, f.erased (start / 2 + j) = true) (bytes : ℕ → UInt8) :
    Stores image (f.written start (2 * k) bytes) := by
  refine ⟨h.locked, ?_⟩
  intro b hb o ho v hv
  obtain ⟨hmem, hprogrammed⟩ := h.held b hb o ho v hv
  have houtside : ¬ (start ≤ blockAddr b + o ∧ blockAddr b + o < start + 2 * k) := by
    intro hin
    have hhalf := herased ((blockAddr b + o) / 2 - start / 2) (by omega)
    have hindex : start / 2 + ((blockAddr b + o) / 2 - start / 2) = (blockAddr b + o) / 2 := by
      omega
    rw [hindex, hprogrammed] at hhalf
    exact Bool.false_ne_true hhalf
  constructor
  · rw [Flash.written]
    exact (if_neg houtside).trans hmem
  · rw [Flash.written]
    exact (if_neg (by omega)).trans hprogrammed

theorem prog (h : Stores image f) {block off size : UInt32} {buffer : ℕ → UInt8}
    {status : ℕ → FlashStatus} (hc : (FlashCall.prog block off buffer size status).Allowed f) :
    ∃ code f', flashProg block off buffer size status f = some (code, f') ∧
      Stores ((FlashCall.prog block off buffer size status).record code image) f' ∧
      (FlashCall.prog block off buffer size status).Faithful image f code [] f' := by
  obtain ⟨⟨hblock, hfits⟩, herased⟩ := hc
  have hregion : ∀ a, (FlashCall.prog block off buffer size status).Owns a →
      0x08010000 ≤ a ∧ a ≤ 0x08037FFF := fun a ha => ha.region hblock
  by_cases hodd : off.toNat % 2 = 1 ∨ size.toNat % 2 = 1
  · refine ⟨lfsErrInval, f, flashProg_odd hodd buffer status f, ⟨h.locked, ?_⟩,
      ⟨h.locked, fun _ _ => rfl, hregion, fun _ => rfl, ?_⟩⟩
    · intro b hb o ho v hv
      dsimp only [FlashCall.record] at hv
      rw [if_neg (fun hcode => absurd hcode.1 (by decide))] at hv
      exact h.held b hb o ho v hv
    · rw [FlashCall.Returns, if_pos hodd]
      exact ⟨rfl, rfl⟩
  · have hoff : off.toNat % 2 = 0 := by omega
    have hsize : size.toNat % 2 = 0 := by omega
    have hhalves := herased hoff hsize
    have haddr : blockAddr block = 0x08010000 + 4096 * block.toNat := rfl
    obtain ⟨k, hk, hprog⟩ := flashProg_spec hblock hfits hoff hsize h.locked hhalves buffer status
    have hle := hk.le
    have hstored := h.written (k := k) (by omega) (fun j hj => hhalves j (by omega)) buffer
    refine ⟨_, _, hprog, ⟨hstored.locked, ?_⟩, ⟨hstored.locked, ?_, hregion, ?_, ?_⟩⟩
    · intro b hb o ho v hv
      dsimp only [FlashCall.record] at hv
      by_cases hnew : (if k = size.toNat / 2 then (0 : Int32) else lfsErrIo) = 0 ∧ b = block ∧
          off.toNat ≤ o ∧ o < off.toNat + size.toNat
      · rw [if_pos hnew] at hv
        obtain ⟨hcode, rfl, hlow, hhigh⟩ := hnew
        have hall : k = size.toNat / 2 := by
          by_contra hne
          rw [if_neg hne] at hcode
          exact absurd hcode (by decide)
        have hin : blockAddr b + off.toNat ≤ blockAddr b + o ∧
            blockAddr b + o < blockAddr b + off.toNat + 2 * k := by omega
        rw [Flash.written]
        refine ⟨(if_pos hin).trans ?_, if_pos (by omega)⟩
        rw [← Option.some.inj hv]
        congr 1
        omega
      · rw [if_neg hnew] at hv
        exact hstored.held b hb o ho v hv
    · intro a hout
      simp only [FlashCall.Owns, FlashCall.block] at hout
      rw [Flash.written]
      exact if_neg (by omega)
    · intro hcode
      by_cases hall : k = size.toNat / 2
      · rw [if_pos hall] at hcode
        exact absurd hcode (by decide)
      · rw [if_neg hall] at hcode
        exact absurd hcode (by decide)
    · rw [FlashCall.Returns, if_neg hodd]
      exact ⟨k, hk, rfl, rfl⟩

theorem erase (h : Stores image f) {block : UInt32} (outcome : EraseOutcome)
    (hblock : block < 40) :
    ∃ code f', flashErase block outcome f = some (code, f') ∧
      Stores ((FlashCall.erase block outcome).record code image) f' ∧
      (FlashCall.erase block outcome).Faithful image f code [] f' := by
  have hregion : ∀ a, (FlashCall.erase block outcome).Owns a →
      0x08010000 ≤ a ∧ a ≤ 0x08037FFF := fun a ha => ha.region hblock
  refine ⟨_, _, flashErase_eq hblock outcome f, ⟨rfl, ?_⟩, ⟨rfl, ?_, hregion, ?_, ?_⟩⟩
  · intro b hb o ho v hv
    dsimp only [FlashCall.record] at hv
    by_cases hown : b = block
    · rw [if_pos hown] at hv
      cases hv
    · rw [if_neg hown] at hv
      obtain ⟨hmem, hprogrammed⟩ := h.held b hb o ho v hv
      have hother : ¬ (blockAddr b + o) / 4096 = blockAddr block / 4096 :=
        fun heq => hown (blockAddr_inj ho heq)
      exact ⟨(if_neg hother).trans hmem, (if_neg (by omega)).trans hprogrammed⟩
  · intro a hout
    have haddr : blockAddr block = 0x08010000 + 4096 * block.toNat := rfl
    simp only [FlashCall.Owns, FlashCall.block] at hout
    exact if_neg (by omega)
  · intro hcode
    by_cases hstatus : outcome.status ≠ .complete
    · rw [if_pos hstatus] at hcode
      exact absurd hcode (by decide)
    · rw [if_neg hstatus] at hcode
      exact absurd hcode (by decide)
  · rw [FlashCall.Returns]
    exact ite_not _ _ _

theorem call (h : Stores image f) {c : FlashCall} (hc : c.Allowed f) :
    ∃ code data f', c.run f = some (code, data, f') ∧ Stores (c.record code image) f' ∧
      c.Faithful image f code data f' := by
  cases c with
  | read block off size => exact ⟨_, _, _, rfl, h, h.read hc⟩
  | prog block off buffer size status =>
    obtain ⟨code, f', hprog, hstores, hfaithful⟩ := h.prog hc
    exact ⟨code, [], f', by rw [FlashCall.run, hprog, Option.map_some], hstores, hfaithful⟩
  | erase block outcome =>
    obtain ⟨code, f', herase, hstores, hfaithful⟩ := h.erase outcome hc
    exact ⟨code, [], f', by rw [FlashCall.run, herase, Option.map_some], hstores, hfaithful⟩

end Stores

theorem FlashReaches.stores {image : Programmed} {f : Flash} (h : FlashReaches image f) :
    Stores image f := by
  induction h with
  | boot h => exact ⟨h, fun b _ o _ v hv => by cases hv⟩
  | call c _ hc hrun ih =>
    obtain ⟨code, data, f', hrun', hstores, -⟩ := ih.call hc
    rw [hrun', Option.some.injEq, Prod.mk.injEq, Prod.mk.injEq] at hrun
    obtain ⟨rfl, -, rfl⟩ := hrun
    exact hstores

end Not232
