import Mathlib.Data.List.Basic

/-!
# An ideal slave on a clocked serial link

The clock of a link leaves its idle level on a leading edge and returns to it on a trailing edge.
The slave takes the bits of the master on one of the two edges and moves to its next own bit on the
other.
-/

namespace Not232.ShiftLink

structure Wires where
  sck : Bool
  mosi : Bool
  deriving DecidableEq

/-- The idle level of the clock, and whether the slave takes bits on the trailing edge. -/
structure Mode where
  idle : Bool
  cpha : Bool

/-- Whether the clock has left its idle level, the edges so far and the bits the slave has taken. -/
structure Shift where
  active : Bool
  leading : ℕ
  trailing : ℕ
  received : List Bool
  deriving DecidableEq

/-- The state between two bits. -/
def Shift.after (bits : List Bool) : Shift := ⟨false, bits.length, bits.length, bits⟩

namespace Mode

variable (m : Mode)

def sample (now : Wires) (r : Shift) : Shift :=
  if now.sck = m.idle then
    if r.active then
      ⟨false, r.leading, r.trailing + 1, if m.cpha then r.received ++ [now.mosi] else r.received⟩
    else r
  else
    if r.active then r
    else
      ⟨true, r.leading + 1, r.trailing, if m.cpha then r.received else r.received ++ [now.mosi]⟩

/-- What the slave has seen of the samples, newest first, since the clock was idle. -/
def observe (samples : List Wires) : Shift := samples.foldr m.sample (Shift.after [])

/-- The number of the bit that the slave presents: the first one from the beginning and the next
behind each trailing edge, or one behind each leading edge. -/
def presented (r : Shift) : Option ℕ :=
  if m.cpha then if r.leading = 0 then none else some (r.leading - 1) else some r.trailing

variable {m} {now : Wires} {r : Shift} {bits : List Bool}

theorem active_sample (m : Mode) (now : Wires) (r : Shift) :
    (m.sample now r).active = (now.sck != m.idle) := by
  unfold sample
  by_cases hsck : now.sck = m.idle
  · rw [if_pos hsck, hsck, bne_self_eq_false]
    cases hactive : r.active with
    | true => rfl
    | false => exact hactive
  · rw [if_neg hsck, bne_iff_ne.mpr hsck]
    cases hactive : r.active with
    | true => exact hactive
    | false => rfl

/-- Without an edge nothing happens. -/
theorem sample_hold (h : (now.sck != m.idle) = r.active) : m.sample now r = r := by
  unfold sample
  by_cases hsck : now.sck = m.idle
  · have hactive : r.active = false := by rw [← h, hsck, bne_self_eq_false]
    rw [if_pos hsck, hactive]
    rfl
  · have hactive : r.active = true := by rw [← h, bne_iff_ne]; exact hsck
    rw [if_neg hsck, hactive]
    rfl

/-- A bit of a slave that takes it on the leading edge. -/
theorem sample_leading_first (hcpha : m.cpha = false) (bits : List Bool) (bit mosi : Bool) :
    m.sample ⟨!m.idle, bit⟩ (Shift.after bits) =
        ⟨true, bits.length + 1, bits.length, bits ++ [bit]⟩ ∧
      m.sample ⟨m.idle, mosi⟩ ⟨true, bits.length + 1, bits.length, bits ++ [bit]⟩ =
        Shift.after (bits ++ [bit]) := by
  have hne : (!m.idle) ≠ m.idle := by simp
  constructor
  · rw [sample, if_neg hne, hcpha]
    rfl
  · rw [sample, if_pos rfl, hcpha, Shift.after, List.length_append]
    rfl

/-- A bit of a slave that takes it on the trailing edge. -/
theorem sample_trailing_second (hcpha : m.cpha = true) (bits : List Bool) (mosi bit : Bool) :
    m.sample ⟨!m.idle, mosi⟩ (Shift.after bits) = ⟨true, bits.length + 1, bits.length, bits⟩ ∧
      m.sample ⟨m.idle, bit⟩ ⟨true, bits.length + 1, bits.length, bits⟩ =
        Shift.after (bits ++ [bit]) := by
  have hne : (!m.idle) ≠ m.idle := by simp
  constructor
  · rw [sample, if_neg hne, hcpha]
    rfl
  · rw [sample, if_pos rfl, hcpha, Shift.after, List.length_append]
    rfl

end Mode

end Not232.ShiftLink
