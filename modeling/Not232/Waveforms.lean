import Not232.MsbFirst
import Not232.TwoWire

/-!
# The waveform of a transaction

What a device that polls the two wires of a bus can sample of a transaction: a start condition, the
bytes with a clock for each bit and a ninth one, and a stop condition. Every level of the clock is
seen at least twice, and a bit stays on the data line for a sample behind its clock.
-/

namespace Not232.TwoWire

def ClockLow (wave : List Wires) : Prop := ∀ w ∈ wave, w.scl = false

def BitWave (bit : Bool) (wave : List Wires) : Prop :=
  ∃ before n next after, ClockLow before ∧ ClockLow (next :: after) ∧
    wave = before ++ (List.replicate (n + 2) ⟨bit, true⟩ ++ ⟨bit, false⟩ :: next :: after)

/-- The ninth clock, with any levels of the data line. -/
def AckWave (wave : List Wires) : Prop :=
  ∃ before first high last after, ClockLow before ∧ first.scl = true ∧
    (∀ w ∈ high, w.scl = true) ∧ ClockLow (last :: after) ∧
      wave = before ++ first :: (high ++ last :: after)

def ByteWave (byte : UInt8) (wave : List Wires) : Prop :=
  ∃ waves ack, List.Forall₂ BitWave (msbFirst byte) waves ∧ AckWave ack ∧
    wave = waves.flatten ++ ack

/-- The data line falls while the clock is high, from an idle bus. -/
def StartWave (wave : List Wires) : Prop :=
  ∃ n k first after, ClockLow (first :: after) ∧
    wave = List.replicate (n + 1) ⟨true, true⟩ ++
      (List.replicate (k + 1) ⟨false, true⟩ ++ first :: after)

/-- The data line rises while the clock is high. -/
def StopWave (wave : List Wires) : Prop :=
  ∃ before n after, ClockLow before ∧
    wave = before ++ (List.replicate (n + 2) ⟨false, true⟩ ++ ⟨true, true⟩ :: ⟨true, true⟩ :: after)

def TransactionWave (bytes : List UInt8) (wave : List Wires) : Prop :=
  ∃ start waves stop, StartWave start ∧ List.Forall₂ ByteWave bytes waves ∧ StopWave stop ∧
    wave = start ++ (waves.flatten ++ stop)

theorem ClockLow.append {wave more : List Wires} (h : ClockLow wave) (hmore : ClockLow more) :
    ClockLow (wave ++ more) := List.forall_mem_append.mpr ⟨h, hmore⟩

theorem clockLow_replicate (n : ℕ) (sda : Bool) : ClockLow (List.replicate n ⟨sda, false⟩) :=
  fun _ hw => congrArg Wires.scl (List.eq_of_mem_replicate hw)

/-- A bit between two low clocks, with as many samples for each level. -/
theorem bitWave_of_holds (bit : Bool) (n : ℕ) :
    BitWave bit (List.replicate (n + 2) ⟨bit, false⟩ ++
      (List.replicate (n + 2) ⟨bit, true⟩ ++ List.replicate (n + 2) ⟨bit, false⟩)) :=
  ⟨_, n, _, _, clockLow_replicate (n + 2) bit, clockLow_replicate (n + 1) bit, rfl⟩

theorem ackWave_of_holds (sda : Bool) (n : ℕ) :
    AckWave (List.replicate (n + 1) ⟨sda, false⟩ ++
      (List.replicate (n + 1) ⟨sda, true⟩ ++ List.replicate (n + 1) ⟨sda, false⟩)) := by
  refine ⟨_, _, List.replicate n ⟨sda, true⟩, _, _, clockLow_replicate (n + 1) sda, rfl, ?_,
    clockLow_replicate (n + 1) sda, rfl⟩
  exact fun _ hw => congrArg Wires.scl (List.eq_of_mem_replicate hw)

theorem AckWave.append {wave more : List Wires} (h : AckWave wave) (hmore : ClockLow more) :
    AckWave (wave ++ more) := by
  obtain ⟨before, first, high, last, after, hbefore, hfirst, hhigh, hafter, rfl⟩ := h
  refine ⟨before, first, high, last, after ++ more, hbefore, hfirst, hhigh,
    hafter.append hmore, ?_⟩
  simp only [List.append_assoc, List.cons_append]

/-- A waveform has at least as many samples as bytes. -/
theorem length_le_of_byteWaves {bytes : List UInt8} {waves : List (List Wires)}
    (h : List.Forall₂ ByteWave bytes waves) : bytes.length ≤ waves.flatten.length := by
  induction h with
  | nil => exact le_refl _
  | cons hwave _ ih =>
    obtain ⟨bits, ack, -, ⟨before, first, high, last, after, -, -, -, -, rfl⟩, rfl⟩ := hwave
    simp only [List.length_cons, List.flatten_cons, List.length_append]
    omega

end Not232.TwoWire
