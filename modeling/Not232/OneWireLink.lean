import Not232.Neopixel
import Not232.OneWire
import Not232.SlotBus

/-!
# The 1-Wire master

Resets, writes and reads on a pin with any number of devices. A slot carries the conjunction of the
bits that the master and the devices offer, to all devices and to a master that reads, and a reset
finds out whether there is a device.
-/

namespace Not232

open SlotBus

/-- The times of a device, in samples. A low of `decision` samples is a zero to every device, and a
device that offers a zero makes it as long. -/
structure InTime (decision : ℕ) (d : Device) : Prop where
  sample : 8 ≤ d.sample ∧ d.sample ≤ decision
  hold : 16 ≤ d.hold ∧ decision ≤ d.hold + 1 ∧ d.hold ≤ 70
  reset : 72 ≤ d.reset ∧ d.reset ≤ 481
  wait : 15 ≤ d.wait ∧ d.wait ≤ 60
  presence : 60 ≤ d.presence ∧ d.presence ≤ 240

inductive OneWireCall
  | reset
  | write (bit : Bool)
  | read

namespace OneWireCall

/-- The results that are sent to the host, and the port. -/
def run (indr : Indr) (pinMask : UInt16) : OneWireCall → PortA → List Bool × PortA
  | reset, s => ([(oneWireReset indr pinMask s).1], (oneWireReset indr pinMask s).2)
  | write false, s => ([], oneWireWrite0 pinMask s)
  | write true, s => ([], oneWireWrite1 pinMask s)
  | read, s => ([(oneWireRead indr pinMask s).1], (oneWireRead indr pinMask s).2)

/-- The results of the slots, and what has happened on the wire. -/
def spec (devices : List Device) : OneWireCall → List WireEvent → List Bool × List WireEvent
  | reset, h => ([!devices.isEmpty], h ++ [.reset])
  | write bit, h => ([], h ++ [.slot (bit && devices.all fun d => d.offer h)])
  | read, h =>
    let bit := devices.all fun d => d.offer h
    ([bit], h ++ [.slot bit])

end OneWireCall

def runWire (indr : Indr) (pinMask : UInt16) : List OneWireCall → PortA → List Bool × PortA
  | [], s => ([], s)
  | call :: calls, s =>
    let (results, s) := call.run indr pinMask s
    let (more, s) := runWire indr pinMask calls s
    (results ++ more, s)

def specWire (devices : List Device) :
    List OneWireCall → List WireEvent → List Bool × List WireEvent
  | [], h => ([], h)
  | call :: calls, h =>
    let (results, h) := call.spec devices h
    let (more, h) := specWire devices calls h
    (results ++ more, h)

/-- The levels of a pin in the samples of the latch, newest first. -/
def heard (pin : UInt8) (trace : List UInt32) : List Bool :=
  trace.map fun outdr => pinLevel outdr pin

/-- The pin reads the wire that it shares with the devices. -/
def Wired (indr : Indr) (pin : UInt8) (devices : List Device) : Prop :=
  ∀ trace, pinLevel (indr trace) pin = lineLevel (resting devices []) (heard pin trace)

/-- The wire is high, and no slot is under way. -/
structure AtRest (pin : UInt8) (devices : List Device) (h : List WireEvent) (s : PortA) : Prop where
  high : pinLevel s.outdr pin = true
  resting : observe (resting devices []) (heard pin s.trace) = resting devices h

variable {pin : UInt8} {devices : List Device} {h : List WireEvent} {s s₁ : PortA} {indr : Indr}
  {levels : List Bool} {decision u : ℕ} {bit : Bool}

/-! ### The wire behind the pin -/

theorem Shows.heard (hshows : Shows pin s levels s₁) :
    Not232.heard pin s₁.trace = levels.reverse ++ Not232.heard pin s.trace := by
  obtain ⟨samples, htrace, hlevels, -⟩ := hshows.sampled
  rw [Not232.heard, htrace, List.map_append, ← hlevels, List.reverse_reverse]
  rfl

theorem Shows.onlyPin (hshows : Shows pin s levels s₁) : OnlyPin pin s s₁ := by
  obtain ⟨samples, htrace, -, hothers⟩ := hshows.sampled
  have hsince : s.since s₁ = samples := by
    rw [PortA.since, htrace, List.length_append, Nat.add_sub_cancel, List.take_left']
    rfl
  intro outdr houtdr
  rw [hsince] at houtdr
  rcases List.mem_cons.mp houtdr with rfl | hmem
  · exact hshows.latched
  · exact hothers outdr hmem

theorem AtRest.observe (hs : AtRest pin devices h s) (hshows : Shows pin s levels s₁) :
    SlotBus.observe (SlotBus.resting devices []) (heard pin s₁.trace) =
      SlotBus.observe (SlotBus.resting devices h) levels.reverse := by
  rw [hshows.heard, observe_append, hs.resting]

/-- A low and the high behind it lead from rest to rest. -/
theorem AtRest.slot {low high : ℕ} {h' : List WireEvent} (hs : AtRest pin devices h s)
    (hshows : Shows pin s (List.replicate low false ++ List.replicate high true) s₁)
    (hhigh : pinLevel s₁.outdr pin = true)
    (hslot : SlotBus.observe (SlotBus.resting devices h)
        (List.replicate high true ++ List.replicate low false) = SlotBus.resting devices h') :
    AtRest pin devices h' s₁ := by
  apply AtRest.mk hhigh
  rw [hs.observe hshows, List.reverse_append, List.reverse_replicate, List.reverse_replicate, hslot]

/-- What the pin reads behind a low and samples of a high of which one is the newest. -/
theorem AtRest.reads {low high : ℕ} (hs : AtRest pin devices h s)
    (hwired : Wired indr pin devices)
    (hshows : Shows pin s (List.replicate low false ++ List.replicate (high + 1) true) s₁) :
    pinLevel (indr s₁.trace) pin =
      level (SlotBus.observe (SlotBus.resting devices h)
        (List.replicate high true ++ List.replicate low false)) true := by
  rw [hwired, hshows.heard, List.reverse_append, List.reverse_replicate, List.reverse_replicate,
    List.replicate_succ, List.cons_append, List.cons_append, lineLevel, observe_append, hs.resting]

section Transfer

variable (hpin : pin < 16)
include hpin

theorem indr_ne_zero (indr : Indr) (s : PortA) :
    (indr s.trace &&& (pinMask16 pin).toUInt32 != 0) = pinLevel (indr s.trace) pin := by
  have hread := SpiBus.gpioReadFast_eq indr hpin s
  rw [gpioReadFast] at hread
  by_cases hne : indr s.trace &&& (pinMask16 pin).toUInt32 ≠ 0
  · rw [if_pos hne] at hread
    cases hlevel : pinLevel (indr s.trace) pin with
    | true => exact bne_iff_ne.mpr hne
    | false =>
      rw [hlevel] at hread
      cases hread
  · rw [if_neg hne] at hread
    cases hlevel : pinLevel (indr s.trace) pin with
    | true =>
      rw [hlevel] at hread
      cases hread
    | false => exact bne_eq_false_iff_eq.mpr (not_not.mp hne)

/-- The pin is low, and then high. -/
theorem shows_pulse (low high : ℕ) (s : PortA) :
    Shows pin s (List.replicate (low + 1) false ++ List.replicate (high + 1) true)
      ((((s.writeBcr (pinMask16 pin).toUInt32).delay low).writeBshr
        (pinMask16 pin).toUInt32).delay high) :=
  (shows_drive hpin false low s).trans (shows_drive hpin true high _)

theorem high_pulse (high : ℕ) (s : PortA) :
    pinLevel ((s.writeBshr (pinMask16 pin).toUInt32).delay high).outdr pin = true := by
  rw [PortA.outdr_delay, PortA.outdr_writeBshr, SpiBus.pinMask16_eq hpin, pinLevel_bshr_self hpin]

/-- A pulse with a longer pause at its high level. -/
theorem shows_pause (low high more : ℕ) (s : PortA) :
    Shows pin s (List.replicate (low + 1) false ++ List.replicate (high + 1 + more) true)
      (((((s.writeBcr (pinMask16 pin).toUInt32).delay low).writeBshr
        (pinMask16 pin).toUInt32).delay high).delay more) := by
  have hmore := shows_delay more ((((s.writeBcr (pinMask16 pin).toUInt32).delay low).writeBshr
    (pinMask16 pin).toUInt32).delay high) pin
  rw [high_pulse hpin] at hmore
  have hall := (shows_pulse hpin low high s).trans hmore
  rwa [List.append_assoc, ← List.replicate_add] at hall

theorem oneWireWrite0_shows (s : PortA) :
    Shows pin s (List.replicate 61 false ++ List.replicate 11 true)
      (oneWireWrite0 (pinMask16 pin) s) := shows_pulse hpin 60 10 s

theorem oneWireWrite1_shows (s : PortA) :
    Shows pin s (List.replicate 7 false ++ List.replicate 65 true)
      (oneWireWrite1 (pinMask16 pin) s) := shows_pulse hpin 6 64 s

theorem oneWireRead_shows (indr : Indr) (s : PortA) :
    Shows pin s (List.replicate 7 false ++ List.replicate 65 true)
      (oneWireRead indr (pinMask16 pin) s).2 := shows_pause hpin 6 9 55 s

theorem oneWireReset_shows (indr : Indr) (s : PortA) :
    Shows pin s (List.replicate 481 false ++ List.replicate 481 true)
      (oneWireReset indr (pinMask16 pin) s).2 := by
  have hstart : s.delay owDelayG = s := rfl
  unfold oneWireReset
  rw [hstart]
  dsimp only
  exact shows_pause hpin 480 70 410 s

theorem OneWireCall.run_shows (indr : Indr) (call : OneWireCall) (s : PortA) :
    ∃ levels, Shows pin s levels (call.run indr (pinMask16 pin) s).2 := by
  cases call with
  | reset =>
    simp only [OneWireCall.run]
    exact ⟨_, oneWireReset_shows hpin indr s⟩
  | write bit =>
    cases bit with
    | false => exact ⟨_, oneWireWrite0_shows hpin s⟩
    | true => exact ⟨_, oneWireWrite1_shows hpin s⟩
  | read => exact ⟨_, oneWireRead_shows hpin indr s⟩

theorem runWire_shows (indr : Indr) (calls : List OneWireCall) (s : PortA) :
    ∃ levels, Shows pin s levels (runWire indr (pinMask16 pin) calls s).2 := by
  induction calls generalizing s with
  | nil => exact ⟨[], shows_refl pin s⟩
  | cons call calls ih =>
    obtain ⟨levels, hcall⟩ := OneWireCall.run_shows hpin indr call s
    obtain ⟨more, hcalls⟩ := ih (call.run indr (pinMask16 pin) s).2
    exact ⟨levels ++ more, hcall.trans hcalls⟩

end Transfer

/-! ### Slots and resets -/

section Times

variable (hall : ∀ d ∈ devices, InTime decision d)
include hall

theorem times_zero (hlow : decision ≤ u) (hhigh : u ≤ 71) : Times devices u false := by
  intro d hd
  have hsample := (hall d hd).sample.2
  have hreset := (hall d hd).reset.1
  exact ⟨by omega, decide_eq_false (by omega)⟩

theorem times_one : Times devices 7 true := by
  intro d hd
  have hsample := (hall d hd).sample.1
  have hreset := (hall d hd).reset.1
  exact ⟨by omega, decide_eq_true (by omega)⟩

/-- In the middle of a slot the wire is held if a device offers a zero. -/
theorem held_iff (hu : u ≤ 16) :
    Held devices h u ↔ (devices.all fun d => d.offer h) = false := by
  rw [Bool.eq_false_iff, ne_eq, List.all_eq_true]
  constructor
  · rintro ⟨d, hd, hoffer, -⟩ hone
    rw [hone d hd] at hoffer
    cases hoffer
  · intro hone
    push Not at hone
    obtain ⟨d, hd, hoffer⟩ := hone
    have hhold := (hall d hd).hold.1
    exact ⟨d, hd, Bool.eq_false_iff.mpr hoffer, by omega⟩

/-- No device holds the wire up to the end of a slot. -/
theorem not_held_end (hu : 71 ≤ u) : ¬ Held devices h u := by
  rintro ⟨d, hd, -, htime⟩
  have hhold := (hall d hd).hold.2.2
  omega

/-- After a short low the wire rises at once if every bit is one, and behind the decision if not. -/
theorem times_of_short (hle : u ≤ 71) (hrises : Rises devices h 7 u) :
    Times devices u (devices.all fun d => d.offer h) := by
  cases hbit : devices.all fun d => d.offer h with
  | true =>
    have hfree : ¬ Held devices h 7 := by
      intro hheld
      rw [held_iff hall (by decide), hbit] at hheld
      cases hheld
    rcases Nat.eq_or_lt_of_le hrises.after with rfl | hlater
    · exact times_one hall
    · exact absurd (hrises.held 7 (le_refl 7) hlater) hfree
  | false =>
    obtain ⟨d, hd, hoffer, -⟩ := (held_iff hall (Nat.zero_le 16)).mpr hbit
    have hlong : d.hold < u := by
      by_contra hshort
      exact hrises.free ⟨d, hd, hoffer, not_lt.mp hshort⟩
    have hhold := (hall d hd).hold.2.1
    exact times_zero hall (by omega) hle

end Times

section Call

variable (hpin : pin < 16) (hdecision : decision ≤ 61) (hall : ∀ d ∈ devices, InTime decision d)
  (hs : AtRest pin devices h s)
include hpin hall hs

include hdecision in
theorem oneWireWrite0_carries : AtRest pin devices (h ++ [.slot false])
    (oneWireWrite0 (pinMask16 pin) s) := by
  apply hs.slot (oneWireWrite0_shows hpin s) (high_pulse hpin 10 _)
  apply observe_slot
  · intro u hu hrises
    have hafter := hrises.after
    exact times_zero hall (by omega) (by omega)
  · decide
  · exact not_held_end hall (by decide)

theorem oneWireWrite1_carries :
    AtRest pin devices (h ++ [.slot (devices.all fun d => d.offer h)])
      (oneWireWrite1 (pinMask16 pin) s) := by
  apply hs.slot (oneWireWrite1_shows hpin s) (high_pulse hpin 64 _)
  apply observe_slot
  · intro u hu hrises
    exact times_of_short hall (by omega) hrises
  · decide
  · exact not_held_end hall (by decide)

variable (hwired : Wired indr pin devices)
include hwired

theorem oneWireRead_carries :
    (oneWireRead indr (pinMask16 pin) s).1 = (devices.all fun d => d.offer h) ∧
      AtRest pin devices (h ++ [.slot (devices.all fun d => d.offer h)])
        (oneWireRead indr (pinMask16 pin) s).2 := by
  constructor
  · have hlevel : (oneWireRead indr (pinMask16 pin) s).1 =
        level (observe (resting devices h)
          (List.replicate 9 true ++ List.replicate 7 false)) true :=
      (indr_ne_zero hpin indr _).trans (hs.reads hwired (shows_pulse hpin 6 9 s))
    have hslot : level (observe (resting devices h)
        (List.replicate 9 true ++ List.replicate 7 false)) true = true ↔ ¬ Held devices h 16 :=
      level_slot fun u hu hrises => times_of_short hall (by omega) hrises
    rw [hlevel, Bool.eq_iff_iff, hslot, held_iff hall (le_refl 16), Bool.not_eq_false]
  · apply hs.slot (oneWireRead_shows hpin indr s)
    · rw [outdr_oneWireRead, SpiBus.pinMask16_eq hpin, pinLevel_bshr_self hpin]
    · apply observe_slot
      · intro u hu hrises
        exact times_of_short hall (by omega) hrises
      · decide
      · exact not_held_end hall (by decide)

theorem oneWireReset_carries :
    (oneWireReset indr (pinMask16 pin) s).1 = !devices.isEmpty ∧
      AtRest pin devices (h ++ [.reset]) (oneWireReset indr (pinMask16 pin) s).2 := by
  have hoverlap : Overlap devices 69 300 := by
    constructor
    · intro d hd
      have hwait := (hall d hd).wait
      have hpresence := (hall d hd).presence
      omega
    · intro d hd
      have hwait := (hall d hd).wait
      have hpresence := (hall d hd).presence
      omega
  have hanswer : observe (resting devices h) (true :: List.replicate 481 false) =
      answering devices (h ++ [.reset]) 0 := by
    apply observe_reset
    · exact not_held_end hall (by decide)
    · intro d hd
      exact (hall d hd).reset.2
  have hsplit : ∀ n, List.replicate (n + 1) true ++ List.replicate 481 false =
      List.replicate n true ++ true :: List.replicate 481 false := by
    intro n
    rw [List.replicate_succ', List.append_assoc, List.singleton_append]
  constructor
  · have hlevel : (oneWireReset indr (pinMask16 pin) s).1 =
        !level (observe (resting devices h)
          (List.replicate 70 true ++ List.replicate 481 false)) true := by
      rw [← hs.reads hwired (shows_pulse hpin 480 70 s), ← indr_ne_zero hpin]
      exact (Bool.not_not _).symm
    rw [hlevel, hsplit, observe_append, hanswer, observe_answering hoverlap _ (le_refl 69),
      level_answering hoverlap]
  · apply hs.slot (oneWireReset_shows hpin indr s)
    · rw [outdr_oneWireReset, SpiBus.pinMask16_eq hpin, pinLevel_bshr_self hpin]
    · have hlast : 300 < 480 := by norm_num
      rw [hsplit, observe_append, hanswer, observe_answered hoverlap _ hlast]

include hdecision

/-- One call does what the slot does, and leaves the wire at rest. -/
theorem OneWireCall.run_carries (call : OneWireCall) :
    (call.run indr (pinMask16 pin) s).1 = (call.spec devices h).1 ∧
      AtRest pin devices (call.spec devices h).2 (call.run indr (pinMask16 pin) s).2 := by
  cases call with
  | reset =>
    obtain ⟨hresult, hrest⟩ := oneWireReset_carries hpin hall hs hwired
    simp only [OneWireCall.run, OneWireCall.spec, hresult]
    exact ⟨trivial, hrest⟩
  | write bit =>
    cases bit with
    | false => exact ⟨rfl, oneWireWrite0_carries hpin hdecision hall hs⟩
    | true => exact ⟨rfl, oneWireWrite1_carries hpin hall hs⟩
  | read =>
    obtain ⟨hresult, hrest⟩ := oneWireRead_carries hpin hall hs hwired
    simp only [OneWireCall.run, OneWireCall.spec, hresult]
    exact ⟨trivial, hrest⟩

omit hs in
theorem runWire_carries (calls : List OneWireCall) (hs : AtRest pin devices h s) :
    (runWire indr (pinMask16 pin) calls s).1 = (specWire devices calls h).1 ∧
      AtRest pin devices (specWire devices calls h).2
        (runWire indr (pinMask16 pin) calls s).2 := by
  induction calls generalizing h s with
  | nil => exact ⟨rfl, hs⟩
  | cons call calls ih =>
    obtain ⟨hresults, hrest⟩ := call.run_carries hpin hdecision hall hs hwired
    obtain ⟨hmore, hend⟩ := ih hrest
    simp only [runWire, specWire, hresults, hmore]
    exact ⟨trivial, hend⟩

end Call

/-- Every sequence of calls sends the results of the slots to the host, tells all devices the same,
and leaves the other pins. -/
theorem oneWire_refines_slots (hpin : pin < 16) (hdecision : decision ≤ 61)
    (hall : ∀ d ∈ devices, InTime decision d) (hwired : Wired indr pin devices)
    (hs : AtRest pin devices h s) (calls : List OneWireCall) :
    (runWire indr (pinMask16 pin) calls s).1 = (specWire devices calls h).1 ∧
      AtRest pin devices (specWire devices calls h).2
        (runWire indr (pinMask16 pin) calls s).2 ∧
      OnlyPin pin s (runWire indr (pinMask16 pin) calls s).2 := by
  obtain ⟨hresults, hrest⟩ := runWire_carries hpin hdecision hall hwired calls hs
  obtain ⟨levels, hshows⟩ := runWire_shows hpin indr calls s
  exact ⟨hresults, hrest, hshows.onlyPin⟩

/-- The devices on pin 3. -/
def wiredIndr (devices : List Device) : Indr := fun trace =>
  if lineLevel (resting devices []) (heard 3 trace) then 0xFFFF else 0

/-- A device that only listens, and one that sends a zero behind a reset and a one. -/
def twoDevices : List Device :=
  [⟨30, 30, 480, 15, 60, fun _ => true⟩,
    ⟨15, 45, 100, 60, 240, fun h => decide (h ≠ [.reset, .slot true])⟩]

theorem oneWire_refines_slots_two :
    (runWire (wiredIndr twoDevices) (pinMask16 3)
        [.reset, .write true, .read, .write false, .read] ⟨8, []⟩).1 = [true, false, true] := by
  have hall : ∀ d ∈ twoDevices, InTime 30 d := by
    intro d hd
    rcases List.mem_pair.mp hd with rfl | rfl
    · exact ⟨by decide, by decide, by decide, by decide, by decide⟩
    · exact ⟨by decide, by decide, by decide, by decide, by decide⟩
  have hwired : Wired (wiredIndr twoDevices) 3 twoDevices := by
    intro trace
    rw [wiredIndr]
    cases lineLevel (resting twoDevices []) (heard 3 trace) with
    | true => rfl
    | false => rfl
  have hstart : AtRest 3 twoDevices [] ⟨8, []⟩ := ⟨rfl, rfl⟩
  exact (oneWire_refines_slots (by decide) (by decide) hall hwired hstart _).1

end Not232
