import Not232.PulseIn

/-!
# The newest captures

Captures, clears and reads in any order, with no capture during a read. The ring then always holds
the newest durations since the last clear, and a read sends as many of them as it asks for and
leaves them there.
-/

namespace Not232

open HistoryRing

inductive PulseEvent
  | capture (line : ExtiLine)
  | clear
  | read (tryRead : UInt32)

/-- A read that no capture falls into. -/
def quietRead (tryRead : UInt32) (s : PulseIn) : List UInt32 × PulseIn :=
  pulseioInRead tryRead (fun _ => []) s

def PulseEvent.run (s : PulseIn) : PulseEvent → PulseIn
  | capture line => capturePulse line s
  | clear => pulseioInClear s
  | read tryRead => (quietRead tryRead s).2

/-- The durations captured since the last clear. -/
def PulseEvent.record (history : List UInt16) : PulseEvent → List UInt16
  | capture line => history ++ captured [line]
  | clear => []
  | read _ => history

def runEvents (events : List PulseEvent) (s : PulseIn) : PulseIn :=
  events.foldl PulseEvent.run s

def sinceClear (events : List PulseEvent) : List UInt16 := events.foldl PulseEvent.record []

/-! ### Reads without captures -/

theorem sendValues_quiet (tail : UInt32) (n i : ℕ) (s : PulseIn) :
    (sendValues tail (fun _ => []) n i s).2 = s := by
  induction n generalizing i with
  | zero => rfl
  | succ n ih => exact ih (i + 1)

theorem arrived_quiet (i : ℕ) : arrived (fun _ => []) i = [] := by
  rw [arrived, List.flatMap_eq_nil_iff]
  intro j _
  rfl

/-- A quiet read consumes nothing. -/
theorem quietRead_state (tryRead : UInt32) (s : PulseIn) : (quietRead tryRead s).2 = s :=
  sendValues_quiet _ _ 0 s

/-- A quiet read sends the newest durations, oldest first. -/
theorem Recorded.quietRead_words {history : List UInt16} {s : PulseIn} (hs : Recorded history s)
    (tryRead : UInt32) :
    let m := min tryRead.toNat s.pioCount.toNat
    (quietRead tryRead s).1 =
      .ofNat m :: (history.drop (history.length - m)).map UInt16.toUInt32 := by
  intro m
  apply (hs.pulseioInRead_iff tryRead (fun _ => []) rfl).mpr
  intro i _ duration hlater
  rw [arrived_quiet, overwriting, List.getElem?_nil] at hlater
  cases hlater

/-! ### Sequences of events -/

theorem Recorded.run {history : List UInt16} {s : PulseIn} (hs : Recorded history s)
    (e : PulseEvent) : Recorded (e.record history) (e.run s) := by
  cases e with
  | capture line => exact hs.capturePulse line
  | clear => exact ⟨rfl, rfl, holds_nil _⟩
  | read tryRead =>
    rw [PulseEvent.run, quietRead_state]
    exact hs

theorem Recorded.runEvents {history : List UInt16} {s : PulseIn} (hs : Recorded history s)
    (events : List PulseEvent) :
    Recorded (events.foldl PulseEvent.record history) (runEvents events s) := by
  induction events generalizing history s with
  | nil => exact hs
  | cons e rest ih => exact ih (hs.run e)

theorem drop_suffix_drop {α : Type} (l : List α) {i j : ℕ} (h : i ≤ j) : l.drop j <:+ l.drop i := by
  obtain ⟨k, rfl⟩ := Nat.exists_eq_add_of_le h
  rw [← List.drop_drop]
  exact List.drop_suffix k _

/-- After any events the head is an index, the count is that of the durations since the last clear
up to 3000, and a read sends the newest of them and leaves the state as it is. -/
theorem pulseRing_newest (events : List PulseEvent) (buffer : ℕ → UInt16) :
    let s := runEvents events ⟨0, 0, buffer⟩
    let history := sinceClear events
    s.pioHead.toNat < 3000 ∧ s.pioCount.toNat = min 3000 history.length ∧
      ∀ tryRead : UInt32,
        let m := min tryRead.toNat s.pioCount.toNat
        quietRead tryRead s =
            (.ofNat m :: (history.drop (history.length - m)).map UInt16.toUInt32, s) ∧
        ∀ larger : UInt32, tryRead ≤ larger →
          (quietRead tryRead s).1.tail <:+ (quietRead larger s).1.tail := by
  intro s history
  have hstart : Recorded [] ⟨0, 0, buffer⟩ := ⟨rfl, rfl, holds_nil _⟩
  have hs : Recorded history s := hstart.runEvents events
  refine ⟨?_, ?_, fun tryRead => ⟨?_, fun larger hle => ?_⟩⟩
  · rw [hs.pioHead]
    exact Nat.mod_lt _ (by decide)
  · rw [hs.pioCount, Nat.min_comm]
    rfl
  · exact Prod.ext (hs.quietRead_words tryRead) (quietRead_state tryRead s)
  · rw [hs.quietRead_words tryRead, hs.quietRead_words larger, List.tail_cons, List.tail_cons]
    have hle' : tryRead.toNat ≤ larger.toNat := hle
    exact (drop_suffix_drop history (by omega)).map _

end Not232
