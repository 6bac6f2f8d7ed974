import Not232.Gpio

/-!
# Port A under a bit-banged transfer

A transfer writes the set and clear registers of port A, waits and reads the pins. Every write and
every turn of a delay takes a sample of the output latch, and what the pins read is a function of
the samples so far, newest first. `Closed` is the invariant rule of transfers: what every write of
their masks keeps, they keep.
-/

namespace Not232

structure PortA where
  outdr : UInt32
  trace : List UInt32

/-- The input register, by the samples of the latch. -/
abbrev Indr := List UInt32 → UInt32

namespace PortA

def tick (s : PortA) : PortA := { s with trace := s.outdr :: s.trace }

def writeBshr (value : UInt32) (s : PortA) : PortA := tick { s with outdr := bshr value s.outdr }

def writeBcr (value : UInt32) (s : PortA) : PortA := tick { s with outdr := bcr value s.outdr }

def delay (n : ℕ) (s : PortA) : PortA := tick^[n] s

@[simp] theorem outdr_writeBshr (value : UInt32) (s : PortA) :
    (s.writeBshr value).outdr = bshr value s.outdr := rfl

@[simp] theorem outdr_writeBcr (value : UInt32) (s : PortA) :
    (s.writeBcr value).outdr = bcr value s.outdr := rfl

/-- A delay keeps what a sample keeps. -/
theorem delay_of_tick {P : PortA → Prop} (h : ∀ s, P s → P s.tick) (n : ℕ) {s : PortA}
    (hs : P s) : P (s.delay n) := by
  unfold delay
  induction n generalizing s with
  | zero => exact hs
  | succ n ih => exact ih (h s hs)

@[simp] theorem outdr_delay (n : ℕ) (s : PortA) : (s.delay n).outdr = s.outdr :=
  delay_of_tick (P := fun t => t.outdr = s.outdr) (fun _ ht => ht) n rfl

end PortA

/-- A property of the output latch that writes of the given masks keep. -/
structure Closed (masks : Set UInt32) (P : UInt32 → Prop) : Prop where
  bshr : ∀ m ∈ masks, ∀ outdr, P outdr → P (bshr m outdr)
  bcr : ∀ m ∈ masks, ∀ outdr, P outdr → P (bcr m outdr)

/-- Masks without bit `i` in either half keep the level of bit `i`. -/
theorem closed_bit {masks : Set UInt32} {i : ℕ} (hi : i < 16) (b : Bool)
    (hlow : ∀ m ∈ masks, bit m i = false) (hhigh : ∀ m ∈ masks, bit m (i + 16) = false) :
    Closed masks fun outdr => bit outdr i = b where
  bshr m hm outdr h := by
    rw [bit_bshr _ _ hi, hlow m hm, hhigh m hm, h, Bool.false_or, Bool.not_false, Bool.and_true]
  bcr m hm outdr h := by
    rw [bit_bcr _ _ hi, hlow m hm, h, Bool.not_false, Bool.and_true]

/-- Masks without bit `i` in the low half keep a low bit `i` low. -/
theorem closed_low {masks : Set UInt32} {i : ℕ} (hi : i < 16)
    (hlow : ∀ m ∈ masks, bit m i = false) : Closed masks fun outdr => bit outdr i = false where
  bshr m hm outdr h := by
    rw [bit_bshr _ _ hi, hlow m hm, h, Bool.false_or, Bool.false_and]
  bcr m hm outdr h := by
    rw [bit_bcr _ _ hi, h, Bool.false_and]

end Not232
