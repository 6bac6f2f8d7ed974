import Mathlib.Tactic

/-!
# Pulse trains

A level sampled at equal times, and the lengths of its pulses: of the runs of high samples. A train
of separate pulses has the lengths of its pulses, and a coded train the bits that it codes.
-/

namespace Not232

/-- The lengths of the high runs, when the first run has been high for `n` samples before. -/
def highTimes (n : ℕ) : (levels : List Bool) → List ℕ
  | [] => if n = 0 then [] else [n]
  | true :: levels => highTimes (n + 1) levels
  | false :: levels => (if n = 0 then [] else [n]) ++ highTimes 0 levels

/-- A pulse that is low at its end. -/
def pulse (high low : ℕ) : List Bool :=
  List.replicate (high + 1) true ++ List.replicate (low + 1) false

theorem highTimes_low (k : ℕ) (levels : List Bool) :
    highTimes 0 (List.replicate k false ++ levels) = highTimes 0 levels := by
  induction k with
  | zero => rfl
  | succ k ih =>
    rw [List.replicate_succ, List.cons_append, highTimes, ih]
    rfl

/-- The bits of a train: a pulse of more than `threshold` samples is a one. -/
def decodePulses (threshold : ℕ) (levels : List Bool) : List Bool :=
  (highTimes 0 levels).map fun time => decide (threshold < time)

/-- The levels decode to the bits, whatever train follows them. -/
def Codes (threshold : ℕ) (levels bits : List Bool) : Prop :=
  ∀ rest, decodePulses threshold (levels ++ rest) = bits ++ decodePulses threshold rest

variable {threshold : ℕ} {levels more bits others : List Bool}

theorem Codes.append (h : Codes threshold levels bits) (hmore : Codes threshold more others) :
    Codes threshold (levels ++ more) (bits ++ others) := by
  intro rest
  rw [List.append_assoc, h, hmore, List.append_assoc]

/-- A low level before, between or behind the pulses has no effect. -/
theorem codes_low (threshold k : ℕ) : Codes threshold (List.replicate k false) [] := by
  intro rest
  rw [decodePulses, highTimes_low, List.nil_append, decodePulses]

theorem Codes.decode (h : Codes threshold levels bits) : decodePulses threshold levels = bits := by
  have hrest := h []
  have hnil : decodePulses threshold [] = [] := rfl
  rwa [List.append_nil, hnil, List.append_nil] at hrest

end Not232
