import Mathlib.Tactic
import Not232.HistoryRing
import Not232.Words

/-!
# Pulse capture

The capture interrupt writes the time since the last edge into a ring of 3000 durations. A read
copies the head and the count with interrupts disabled and fetches the durations later, one between
any two words that it sends, so that captures can overwrite those it has not fetched yet.
-/

namespace Not232

open HistoryRing

def pioRingSize : ℕ := 3000

/-- The variables that the interrupt shares with the main thread. -/
structure PulseIn where
  pioHead : UInt32
  pioCount : UInt32
  pioBuffer : ℕ → UInt16

/-- What the interrupt finds at an external line: its pending flag and the count of the timer. -/
structure ExtiLine where
  pending : Bool
  cnt : UInt16

def capturePulse (line : ExtiLine) (s : PulseIn) : PulseIn :=
  if line.pending then
    { pioHead := (s.pioHead + 1) % .ofNat pioRingSize
      pioCount := if s.pioCount < .ofNat pioRingSize then s.pioCount + 1 else s.pioCount
      pioBuffer := Function.update s.pioBuffer s.pioHead.toNat line.cnt }
  else s

/-- The interrupt handlers check the lines that they serve, in order. -/
def extiHandler (lines : List ExtiLine) (s : PulseIn) : PulseIn :=
  lines.foldl (fun s line => capturePulse line s) s

def pulseioInClear (s : PulseIn) : PulseIn := { s with pioHead := 0, pioCount := 0 }

/-- The loop of a read from value `i` on, with the lines served before each value is fetched. -/
def sendValues (tail : UInt32) (interrupts : ℕ → List ExtiLine) :
    (n i : ℕ) → PulseIn → List UInt32 × PulseIn
  | 0, _, s => ([], s)
  | n + 1, i, s =>
    let s := extiHandler (interrupts i) s
    let value := s.pioBuffer ((tail + .ofNat i) % .ofNat pioRingSize).toNat
    let (values, s) := sendValues tail interrupts n (i + 1) s
    (value.toUInt32 :: values, s)

/-- The words that a read sends, and the state when it returns. -/
def pulseioInRead (tryRead : UInt32) (interrupts : ℕ → List ExtiLine) (s : PulseIn) :
    List UInt32 × PulseIn :=
  let modifiedCount := if s.pioCount < tryRead then s.pioCount else tryRead
  let tail := (s.pioHead + .ofNat pioRingSize - modifiedCount) % .ofNat pioRingSize
  let (values, s) := sendValues tail interrupts modifiedCount.toNat 0 s
  (modifiedCount :: values, s)

/-- The durations captured from lines. -/
def captured (lines : List ExtiLine) : List UInt16 :=
  (lines.filter ExtiLine.pending).map ExtiLine.cnt

/-- The durations captured from the snapshot until value `i` is fetched. -/
def arrived (interrupts : ℕ → List ExtiLine) (i : ℕ) : List UInt16 :=
  (List.range (i + 1)).flatMap fun j => captured (interrupts j)

/-- The states that captures and clears reach, with the durations captured since the last clear. -/
inductive Captured : List UInt16 → PulseIn → Prop
  | boot (buffer : ℕ → UInt16) : Captured [] ⟨0, 0, buffer⟩
  | exti {history : List UInt16} {s : PulseIn} (lines : List ExtiLine) (h : Captured history s) :
      Captured (history ++ captured lines) (extiHandler lines s)
  | clear {history : List UInt16} {s : PulseIn} (h : Captured history s) :
      Captured [] (pulseioInClear s)

/-! ### What the ring holds -/

/-- The ring holds the last 3000 durations of a history. -/
structure Recorded (history : List UInt16) (s : PulseIn) : Prop where
  pioHead : s.pioHead.toNat = history.length % pioRingSize
  pioCount : s.pioCount.toNat = min history.length pioRingSize
  pioBuffer : Holds pioRingSize s.pioBuffer history

namespace Recorded

variable {history : List UInt16} {s : PulseIn}

theorem capturePulse (h : Recorded history s) (line : ExtiLine) :
    Recorded (history ++ captured [line]) (capturePulse line s) := by
  obtain ⟨hhead, hcount, hbuffer⟩ := h
  unfold Not232.capturePulse
  by_cases hpending : line.pending = true
  · have hcaptured : captured [line] = [line.cnt] := by simp [captured, hpending]
    have hsize : (UInt32.ofNat pioRingSize).toNat = pioRingSize := rfl
    rw [if_pos hpending, hcaptured]
    refine ⟨?_, ?_, hhead ▸ hbuffer.push line.cnt⟩
    · have hlt : s.pioHead.toNat < pioRingSize := hhead ▸ Nat.mod_lt _ (by decide)
      have hone : (s.pioHead + 1).toNat = s.pioHead.toNat + 1 :=
        toNat_add_one (hlt.trans (by decide))
      rw [UInt32.toNat_mod, hone, hhead, hsize, List.length_append, List.length_singleton,
        Nat.mod_add_mod]
    · rw [List.length_append, List.length_singleton]
      by_cases hfull : s.pioCount < .ofNat pioRingSize
      · have hlt : s.pioCount.toNat < pioRingSize := hfull
        have hone : (s.pioCount + 1).toNat = s.pioCount.toNat + 1 :=
          toNat_add_one (hlt.trans (by decide))
        dsimp only
        rw [if_pos hfull, hone]
        omega
      · have hge : ¬ s.pioCount.toNat < pioRingSize := hfull
        dsimp only
        rw [if_neg hfull]
        omega
  · have hcaptured : captured [line] = [] := by simp [captured, hpending]
    rw [if_neg hpending, hcaptured, List.append_nil]
    exact ⟨hhead, hcount, hbuffer⟩

theorem extiHandler (h : Recorded history s) (lines : List ExtiLine) :
    Recorded (history ++ captured lines) (extiHandler lines s) := by
  induction lines generalizing history s with
  | nil =>
    have hnil : captured [] = [] := rfl
    rw [hnil, List.append_nil]
    exact h
  | cons line rest ih =>
    have hsplit : captured (line :: rest) = captured [line] ++ captured rest := by
      rw [captured, ← List.singleton_append, List.filter_append, List.map_append]
      rfl
    rw [hsplit, ← List.append_assoc]
    exact ih (h.capturePulse line)

end Recorded

theorem Captured.recorded {history : List UInt16} {s : PulseIn} (h : Captured history s) :
    Recorded history s := by
  induction h with
  | boot buffer => exact ⟨rfl, rfl, holds_nil _⟩
  | exti lines _ ih => exact ih.extiHandler lines
  | clear _ _ => exact ⟨rfl, rfl, holds_nil _⟩

/-! ### Reads -/

theorem toUInt32_inj {v w : UInt16} : v.toUInt32 = w.toUInt32 ↔ v = w := by
  constructor
  · intro h
    have hnat := congrArg UInt32.toNat h
    rw [UInt16.toNat_toUInt32, UInt16.toNat_toUInt32] at hnat
    exact UInt16.toNat_inj.mp hnat
  · rintro rfl
    rfl

/-- From value `i` on the values sent are those of the history if and only if none of them is
overwritten by a different duration before it is fetched. -/
theorem sendValues_iff {history : List UInt16} {m : ℕ} {tail : UInt32}
    {interrupts : ℕ → List ExtiLine} (hm : m ≤ history.length) (hsize : m ≤ pioRingSize)
    (htail : ∀ i < m, ((tail + .ofNat i) % .ofNat pioRingSize).toNat =
      (history.length - m + i) % pioRingSize)
    (n i : ℕ) (hn : i + n = m) (s : PulseIn)
    (hs : Recorded (history ++ (List.range i).flatMap fun j => captured (interrupts j)) s) :
    (sendValues tail interrupts n i s).1 =
        (history.drop (history.length - m + i)).map UInt16.toUInt32 ↔
      ∀ j, i ≤ j → j < m → ∀ duration ∈ overwriting pioRingSize history.length
        (history.length - m + j) (arrived interrupts j),
          history[history.length - m + j]? = some duration := by
  induction n generalizing i s with
  | zero =>
    have hdrop : history.drop (history.length - m + i) = [] := List.drop_eq_nil_of_le (by omega)
    rw [hdrop]
    apply iff_of_true rfl
    intro j hij hjm
    omega
  | succ n ih =>
    have hi : history.length - m + i < history.length := by omega
    have hserved := hs.extiHandler (interrupts i)
    have harrived : (List.range i).flatMap (fun j => captured (interrupts j)) ++
        captured (interrupts i) = arrived interrupts i := by
      rw [arrived, List.range_succ, List.flatMap_append, List.flatMap_singleton]
    rw [List.append_assoc, harrived] at hserved
    have hfetched := hserved.pioBuffer.cell_append hi (by omega)
    have hrest := ih (i + 1) (by omega) _ hserved
    rw [← Nat.add_assoc] at hrest
    have hfirst : (extiHandler (interrupts i) s).pioBuffer
          ((history.length - m + i) % pioRingSize) = history[history.length - m + i] ↔
        ∀ duration ∈ overwriting pioRingSize history.length (history.length - m + i)
          (arrived interrupts i), history[history.length - m + i]? = some duration := by
      rw [hfetched, List.getElem?_eq_getElem hi]
      cases overwriting pioRingSize history.length (history.length - m + i)
          (arrived interrupts i) with
      | none => simp
      | some duration => simp [eq_comm]
    rw [sendValues, List.drop_eq_getElem_cons hi, List.map_cons, htail i (by omega)]
    dsimp only
    rw [List.cons.injEq, toUInt32_inj, hfirst, hrest]
    constructor
    · rintro ⟨hhead, htail⟩ j hij hjm
      by_cases hj : j = i
      · exact hj ▸ hhead
      · exact htail j (by omega) hjm
    · intro h
      exact ⟨h i le_rfl (by omega), fun j hij hjm => h j (by omega) hjm⟩

theorem modifiedCount_eq (count tryRead : UInt32) :
    (if count < tryRead then count else tryRead) = .ofNat (min tryRead.toNat count.toNat) := by
  by_cases hlt : count < tryRead
  · have hlt' : count.toNat < tryRead.toNat := hlt
    rw [if_pos hlt, Nat.min_eq_right hlt'.le, UInt32.ofNat_toNat]
  · have hge : ¬ count.toNat < tryRead.toNat := hlt
    rw [if_neg hlt, Nat.min_eq_left (Nat.le_of_not_lt hge), UInt32.ofNat_toNat]

/-- The index from which value `i` is fetched. -/
theorem toNat_tail_add {pioHead : UInt32} {length m i : ℕ}
    (hhead : pioHead.toNat = length % pioRingSize) (hm : m ≤ length) (hsize : m ≤ pioRingSize)
    (hi : i < m) :
    (((pioHead + .ofNat pioRingSize - .ofNat m) % .ofNat pioRingSize + .ofNat i) %
      .ofNat pioRingSize).toNat = (length - m + i) % pioRingSize := by
  have hring : (UInt32.ofNat pioRingSize).toNat = 3000 := rfl
  simp only [pioRingSize] at hhead hsize
  have hword : 3000 < UInt32.size := by decide
  have hcount : (UInt32.ofNat m).toNat = m := UInt32.toNat_ofNat_of_lt' (by omega)
  have hindex : (UInt32.ofNat i).toNat = i := UInt32.toNat_ofNat_of_lt' (by omega)
  have hsum : (pioHead + .ofNat pioRingSize).toNat = length % 3000 + 3000 := by
    rw [UInt32.toNat_add, hring, hhead]
    omega
  have hle : UInt32.ofNat m ≤ pioHead + .ofNat pioRingSize := by
    rw [UInt32.le_iff_toNat_le, hcount, hsum]
    omega
  rw [UInt32.toNat_mod, UInt32.toNat_add, UInt32.toNat_mod, UInt32.toNat_sub_of_le _ _ hle, hsum,
    hring, hcount, hindex, pioRingSize]
  omega

theorem Recorded.pulseioInRead_iff {history : List UInt16} {s : PulseIn}
    (hs : Recorded history s) (tryRead : UInt32) (interrupts : ℕ → List ExtiLine) {m : ℕ}
    (hm : m = min tryRead.toNat s.pioCount.toNat) :
    (pulseioInRead tryRead interrupts s).1 =
        .ofNat m :: (history.drop (history.length - m)).map UInt16.toUInt32 ↔
      ∀ i < m, ∀ duration ∈ overwriting pioRingSize history.length (history.length - m + i)
        (arrived interrupts i), history[history.length - m + i]? = some duration := by
  have hcount := hs.pioCount
  have hle : m ≤ history.length := by omega
  have hsize : m ≤ pioRingSize := by omega
  have hnat : (UInt32.ofNat m).toNat = m :=
    UInt32.toNat_ofNat_of_lt' (hsize.trans_lt (by decide))
  have htail := fun i => toNat_tail_add (i := i) hs.pioHead hle hsize
  have hempty :
      Recorded (history ++ (List.range 0).flatMap fun j => captured (interrupts j)) s := by
    rw [List.range_zero, List.flatMap_nil, List.append_nil]
    exact hs
  have hsend := sendValues_iff hle hsize htail m 0 (Nat.zero_add m) s hempty
  rw [pulseioInRead, modifiedCount_eq, ← hm]
  dsimp only
  rw [List.cons.injEq, hnat]
  simpa using hsend

/-- A read sends the number of values and the last values captured before its snapshot if and only
if no value has been overwritten by a different duration when it is fetched. -/
theorem pulseioInRead_snapshot_iff (history : List UInt16) (s : PulseIn)
    (hs : Captured history s) (tryRead : UInt32) (interrupts : ℕ → List ExtiLine) :
    let m := min tryRead.toNat s.pioCount.toNat
    (pulseioInRead tryRead interrupts s).1 =
        .ofNat m :: (history.drop (history.length - m)).map UInt16.toUInt32 ↔
      ∀ i < m, ∀ duration ∈ overwriting pioRingSize history.length (history.length - m + i)
        (arrived interrupts i), history[history.length - m + i]? = some duration :=
  hs.recorded.pulseioInRead_iff tryRead interrupts rfl

/-- Without captures during a read the snapshot is sent. -/
theorem pulseioInRead_snapshot_iff_quiet :
    let s : PulseIn := extiHandler [⟨true, 7⟩, ⟨true, 9⟩] ⟨0, 0, fun _ => 0⟩
    let m := min (UInt32.toNat 1) s.pioCount.toNat
    (pulseioInRead 1 (fun _ => []) s).1 =
        .ofNat m :: (([7, 9] : List UInt16).drop (2 - m)).map UInt16.toUInt32 ↔
      ∀ i < m, ∀ duration ∈ overwriting pioRingSize 2 (2 - m + i)
        (arrived (fun _ => []) i), ([7, 9] : List UInt16)[2 - m + i]? = some duration :=
  pulseioInRead_snapshot_iff [7, 9] _ ((Captured.boot _).exti [⟨true, 7⟩, ⟨true, 9⟩]) 1 fun _ => []

/-- A full ring of zeros. -/
theorem captured_zeros :
    Captured (List.replicate pioRingSize 0)
      (extiHandler (List.replicate pioRingSize ⟨true, 0⟩) ⟨0, 0, fun _ => 0⟩) := by
  have h := (Captured.boot fun _ => 0).exti (List.replicate pioRingSize ⟨true, 0⟩)
  rwa [List.nil_append, captured, List.filter_replicate_of_pos rfl, List.map_replicate] at h

/-- One capture after the snapshot replaces the oldest duration of a full ring. -/
theorem pulseioInRead_overwritten :
    ∃ (history : List UInt16) (s : PulseIn), Captured history s ∧ s.pioCount = 3000 ∧
      (pulseioInRead 3000 (fun i => if i = 0 then [⟨true, 1⟩] else []) s).1 ≠
        3000 :: (history.drop (history.length - 3000)).map UInt16.toUInt32 := by
  have hs := captured_zeros.recorded
  have hlength : (List.replicate pioRingSize (0 : UInt16)).length = 3000 := List.length_replicate
  have hcount := hs.pioCount
  rw [hlength] at hcount
  refine ⟨_, _, captured_zeros, UInt32.toNat_inj.mp hcount, fun heq => ?_⟩
  have hkept := (hs.pulseioInRead_iff 3000 _ (m := 3000) (by rw [hcount]; rfl)).mp heq
  rw [hlength] at hkept
  have hfirst := hkept 0 (by decide) 1 rfl
  rw [List.getElem?_replicate_of_lt (by decide)] at hfirst
  exact absurd hfirst (by decide)

end Not232
