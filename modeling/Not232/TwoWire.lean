import Mathlib.Tactic

/-!
# A two-wire bus

The clock is driven by the master, the data line by the master and a slave, either of which can pull
it low. A trace lists the levels of the wires, newest first, and a slave is any function of the
trace so far.
-/

namespace Not232.TwoWire

structure Wires where
  sda : Bool
  scl : Bool
  deriving DecidableEq

/-- What the slave drives on the data line, by the levels it has seen. -/
abbrev Slave := List Wires → Bool

/-- The slave changes the data line only while the clock is low. -/
def Obeys (slave : Slave) : Prop := ∀ x trace, x.scl = true → slave (x :: trace) = slave trace

/-- The data line rises while the clock is high, and both lines are high from then on. -/
def endsWithStop : List Wires → Bool
  | ⟨true, true⟩ :: ⟨false, true⟩ :: _ => true
  | ⟨true, true⟩ :: rest => endsWithStop rest
  | _ => false

variable {slave : Slave} {trace : List Wires}

theorem slave_replicate (hs : Obeys slave) (n : ℕ) (d : Bool) :
    slave (List.replicate n ⟨d, true⟩ ++ trace) = slave trace := by
  induction n with
  | zero => rfl
  | succ n ih =>
    rw [List.replicate_succ, List.cons_append, hs _ _ rfl, ih]

/-- Raising the clock on a data line that then keeps its level makes no stop condition. -/
theorem not_endsWithStop_replicate (n : ℕ) (d : Bool) {x : Wires} (hx : x.scl = false) :
    endsWithStop (List.replicate n ⟨d, true⟩ ++ x :: trace) = false := by
  rcases x with ⟨sda, scl⟩
  obtain rfl : scl = false := hx
  have hlow : endsWithStop (⟨sda, false⟩ :: trace) = false := by cases sda <;> rfl
  cases d with
  | false =>
    cases n with
    | zero => exact hlow
    | succ n => rfl
  | true =>
    induction n with
    | zero => exact hlow
    | succ n ih =>
      cases n with
      | zero => cases sda <;> rfl
      | succ n => exact ih

end Not232.TwoWire
