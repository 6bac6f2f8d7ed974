import Not232.Gpio
import Not232.PulseIn

/-!
# The time between two edges

`TIM4` counts microseconds in 16 bits and starts over at 0. An edge on a pin that is listened to
sets the flag of its external line, and the interrupt handler, which is assumed to run at once,
stores the count and restarts the timer. A count is the time since the last edge only modulo 2^16.
-/

namespace Not232

structure Tim4 where
  cnt : UInt16
  enabled : Bool

/-- The external lines by number: whether they interrupt, and their flags. -/
structure Exti where
  enabled : UInt8 → Bool
  pending : UInt8 → Bool

structure PulseSystem where
  tim4 : Tim4
  exti : Exti
  gpio : Gpio
  pulse : PulseIn

/-- A microsecond. -/
def Tim4.tick (t : Tim4) : Tim4 := if t.enabled then { t with cnt := t.cnt + 1 } else t

def pulseioInTim4Start (_ : Tim4) : Tim4 := { cnt := 0, enabled := true }

/-- The count, and the stopped timer. -/
def pulseioInTim4Stop (t : Tim4) : UInt16 × Tim4 := (t.cnt, { t with enabled := false })

namespace Exti

def getITStatus (line : UInt8) (e : Exti) : Bool := e.pending line && e.enabled line

def clearITPendingBit (line : UInt8) (e : Exti) : Exti :=
  { e with pending := Function.update e.pending line false }

/-- `EXTI_INIT`, for both edges of a pin. -/
def init (pin : UInt8) (e : Exti) : Exti :=
  clearITPendingBit pin { e with enabled := Function.update e.enabled pin true }

/-- An edge on a pin. -/
def edge (pin : UInt8) (e : Exti) : Exti :=
  { e with pending := Function.update e.pending pin (e.pending pin || e.enabled pin) }

end Exti

namespace PulseSystem

/-- `capture_pulse`, with the timer and the flag of its line. -/
def capture (number : UInt8) (s : PulseSystem) : PulseSystem :=
  if s.exti.getITStatus number then
    let stopped := pulseioInTim4Stop s.tim4
    { s with
      pulse := capturePulse ⟨true, stopped.1⟩ s.pulse
      exti := s.exti.clearITPendingBit number
      tim4 := pulseioInTim4Start stopped.2 }
  else s

/-- The lines that the interrupt handler of a pin checks. -/
def handlerLines (pin : UInt8) : List UInt8 :=
  if pin ≤ 4 then [pin]
  else if pin ≤ 9 then [5, 6, 7, 8, 9]
  else [10, 11, 12, 13, 14, 15]

def handle (lines : List UInt8) (s : PulseSystem) : PulseSystem :=
  lines.foldl (fun s number => s.capture number) s

def elapse (n : ℕ) (s : PulseSystem) : PulseSystem := { s with tim4 := Tim4.tick^[n] s.tim4 }

/-- An edge on a pin, served at once. -/
def edge (pin : UInt8) (s : PulseSystem) : PulseSystem :=
  ({ s with exti := s.exti.edge pin }).handle (handlerLines pin)

end PulseSystem

/-- The pin is driven low for a trigger pulse if one is asked for, and is an input from then on. -/
def pulseioInResume (pin : UInt8) (triggerDuration : UInt32) (s : PulseSystem) :
    Option PulseSystem := do
  let gpio ← (if triggerDuration ≠ 0 then do
      let gpio ← gpioInitPin pin .outOD s.gpio
      some ((gpio.write .a .bcr (pinMask pin)).write .a .bshr (pinMask pin))
    else some s.gpio)
  let gpio ← gpioInitPin pin .inFloating gpio
  some { s with gpio := gpio, exti := s.exti.init pin, tim4 := pulseioInTim4Start s.tim4 }

/-- The times of the edges on a pin, in microseconds, behind the time 0 of the resume's return. -/
structure EdgeTimes where
  time : ℕ → ℕ
  zero : time 0 = 0
  increasing : StrictMono time

/-- The microseconds before edge `i`, counted from 0. -/
def EdgeTimes.gap (t : EdgeTimes) (i : ℕ) : ℕ := t.time (i + 1) - t.time i

/-- The state when `i` edges have been served. -/
def afterEdges (pin : UInt8) (t : EdgeTimes) (s : PulseSystem) : ℕ → PulseSystem
  | 0 => s
  | i + 1 => ((afterEdges pin t s i).elapse (t.gap i)).edge pin

/-! ### The timer -/

theorem tick_iterate {t : Tim4} (h : t.enabled = true) (n : ℕ) :
    Tim4.tick^[n] t = { t with cnt := t.cnt + .ofNat n } := by
  induction n generalizing t with
  | zero => simp
  | succ n ih =>
    have htick : t.tick = { t with cnt := t.cnt + 1 } := if_pos h
    have hrest : Tim4.tick^[n] { t with cnt := t.cnt + 1 } =
        { t with cnt := t.cnt + 1 + .ofNat n } := ih h
    rw [Function.iterate_succ_apply, htick, hrest, UInt16.add_assoc, Nat.add_comm n,
      UInt16.ofNat_add]
    rfl

/-- A duration of 16 bits is the time itself exactly up to its maximum, or by chance. -/
theorem ofNat_eq_min_iff (g : ℕ) :
    UInt16.ofNat g = .ofNat (min g 65535) ↔ g ≤ 65535 ∨ g % 65536 = 65535 := by
  rw [← UInt16.toNat_inj, UInt16.toNat_ofNat', UInt16.toNat_ofNat']
  omega

/-! ### Handlers -/

namespace PulseSystem

variable {pin : UInt8} {s : PulseSystem} {lines : List UInt8}

theorem handle_of_quiet (h : ∀ number ∈ lines, s.exti.getITStatus number = false) :
    s.handle lines = s := by
  induction lines with
  | nil => rfl
  | cons number rest ih =>
    rw [List.forall_mem_cons] at h
    have hfirst : s.capture number = s := by
      rw [capture, h.1]
      rfl
    rw [handle, List.foldl_cons, hfirst]
    exact ih h.2

/-- A handler that finds one flag serves it and nothing else. -/
theorem handle_of_one (hmem : pin ∈ lines) (hpending : s.exti.getITStatus pin = true)
    (hothers : ∀ number, number ≠ pin → s.exti.getITStatus number = false) :
    s.handle lines = s.capture pin := by
  induction lines with
  | nil => cases hmem
  | cons number rest ih =>
    rw [handle, List.foldl_cons]
    by_cases hnumber : number = pin
    · rw [hnumber]
      apply handle_of_quiet
      intro other _
      rw [capture, if_pos hpending]
      by_cases hother : other = pin
      · simp [Exti.getITStatus, Exti.clearITPendingBit, hother]
      · have hquiet := hothers other hother
        rw [Exti.getITStatus] at hquiet
        simpa [Exti.getITStatus, Exti.clearITPendingBit, Function.update_of_ne hother] using hquiet
    · have hfirst : s.capture number = s := by
        rw [capture, hothers number hnumber]
        rfl
      rw [hfirst]
      exact ih (List.mem_of_ne_of_mem (Ne.symm hnumber) hmem)

theorem mem_handlerLines_iff : pin ∈ handlerLines pin ↔ pin < 16 := by
  have hnat : ∀ n : UInt8, pin = n ↔ pin.toNat = n.toNat := fun n => UInt8.toNat_inj.symm
  rw [handlerLines]
  simp only [UInt8.le_iff_toNat_le, UInt8.lt_iff_toNat_lt]
  split_ifs with hlow hmid
  · simp at hlow ⊢
    omega
  · simp [hnat] at hlow hmid ⊢
    omega
  · simp [hnat] at hmid ⊢
    omega

/-- The line of the pin interrupts, and no other line has anything to serve. -/
structure Listening (pin : UInt8) (s : PulseSystem) : Prop where
  enabled : s.exti.enabled pin = true
  others : ∀ number, number ≠ pin → s.exti.getITStatus number = false

theorem Listening.edge_exti (hs : Listening pin s) :
    (s.exti.edge pin).getITStatus pin = true ∧
      ∀ number, number ≠ pin → (s.exti.edge pin).getITStatus number = false := by
  refine ⟨?_, fun number hne => ?_⟩
  · simp [Exti.getITStatus, Exti.edge, hs.enabled]
  · have hquiet := hs.others number hne
    rw [Exti.getITStatus] at hquiet
    simpa [Exti.getITStatus, Exti.edge, Function.update_of_ne hne] using hquiet

/-- An edge on a pin with an external line is captured and restarts the timer. -/
theorem Listening.edge_of_lt (hs : Listening pin s) (hpin : pin < 16) :
    (s.edge pin).pulse = capturePulse ⟨true, s.tim4.cnt⟩ s.pulse ∧
      (s.edge pin).tim4 = ⟨0, true⟩ ∧ Listening pin (s.edge pin) := by
  obtain ⟨hpending, hothers⟩ := hs.edge_exti
  have hedge : s.edge pin = ({ s with exti := s.exti.edge pin } : PulseSystem).capture pin :=
    handle_of_one (mem_handlerLines_iff.mpr hpin) hpending hothers
  rw [hedge, capture, if_pos hpending]
  refine ⟨rfl, rfl, hs.enabled, fun number hne => ?_⟩
  have hquiet := hothers number hne
  rw [Exti.getITStatus] at hquiet
  simpa [Exti.getITStatus, Exti.clearITPendingBit, Function.update_of_ne hne] using hquiet

/-- Without an external line it is not noticed. -/
theorem Listening.edge_of_not_lt (hs : Listening pin s) (hpin : ¬ pin < 16) :
    (s.edge pin).pulse = s.pulse ∧ Listening pin (s.edge pin) := by
  obtain ⟨-, hothers⟩ := hs.edge_exti
  have hedge : s.edge pin = { s with exti := s.exti.edge pin } :=
    handle_of_quiet fun number hmem => hothers number fun heq =>
      hpin (mem_handlerLines_iff.mp (heq ▸ hmem))
  rw [hedge]
  exact ⟨rfl, hs.enabled, hothers⟩

theorem Listening.afterEdges (hs : Listening pin s) (t : EdgeTimes) (i : ℕ) :
    Listening pin (afterEdges pin t s i) ∧
      (pin < 16 → s.tim4 = ⟨0, true⟩ → (afterEdges pin t s i).tim4 = ⟨0, true⟩) := by
  induction i with
  | zero => exact ⟨hs, fun _ h => h⟩
  | succ i ih =>
    have helapsed : Listening pin ((Not232.afterEdges pin t s i).elapse (t.gap i)) :=
      ⟨ih.1.enabled, ih.1.others⟩
    by_cases hpin : pin < 16
    · obtain ⟨-, htimer, hnext⟩ := helapsed.edge_of_lt hpin
      exact ⟨hnext, fun _ _ => htimer⟩
    · exact ⟨(helapsed.edge_of_not_lt hpin).2, fun h => absurd h hpin⟩

end PulseSystem

open PulseSystem

theorem capturePulse_ne (cnt : UInt16) (s : PulseIn) : capturePulse ⟨true, cnt⟩ s ≠ s := by
  intro h
  have hhead : ((s.pioHead + 1) % .ofNat pioRingSize).toNat = s.pioHead.toNat :=
    congrArg (fun s => s.pioHead.toNat) h
  have hsize : (UInt32.ofNat pioRingSize).toNat = 3000 := rfl
  have hlt := s.pioHead.toNat_lt
  rw [UInt32.toNat_mod, UInt32.toNat_add, UInt32.toNat_one, hsize] at hhead
  omega

theorem capturePulse_inj {cnt cnt' : UInt16} {s : PulseIn}
    (h : capturePulse ⟨true, cnt⟩ s = capturePulse ⟨true, cnt'⟩ s) : cnt = cnt' := by
  have hcell := congrFun (congrArg PulseIn.pioBuffer h) s.pioHead.toNat
  simpa [capturePulse] using hcell

/-- When the resume returns, its pin is listened to and the timer has just started. -/
theorem pulseioInResume_listening {pin : UInt8} {triggerDuration : UInt32} {s start : PulseSystem}
    (hquiet : ∀ number, s.exti.getITStatus number = false)
    (h : pulseioInResume pin triggerDuration s = some start) :
    Listening pin start ∧ start.tim4 = ⟨0, true⟩ := by
  obtain ⟨_, -, h⟩ := Option.bind_eq_some_iff.mp h
  obtain ⟨gpio, -, h⟩ := Option.bind_eq_some_iff.mp h
  cases h
  refine ⟨⟨Function.update_self _ _ _, fun number hne => ?_⟩, rfl⟩
  have hnumber := hquiet number
  rw [Exti.getITStatus] at hnumber
  simpa [Exti.getITStatus, Exti.init, Exti.clearITPendingBit, Function.update_of_ne hne]
    using hnumber

/-- What an edge stores is the time since the last one modulo 2^16. -/
theorem afterEdges_pulse {pin : UInt8} {start : PulseSystem} (hs : Listening pin start)
    (htimer : start.tim4 = ⟨0, true⟩) (hpin : pin < 16) (t : EdgeTimes) (i : ℕ) :
    (afterEdges pin t start (i + 1)).pulse =
      capturePulse ⟨true, .ofNat (t.gap i)⟩ (afterEdges pin t start i).pulse := by
  obtain ⟨hbefore, hbeforeTimer⟩ := hs.afterEdges t i
  have helapsed : Listening pin ((afterEdges pin t start i).elapse (t.gap i)) :=
    ⟨hbefore.enabled, hbefore.others⟩
  have hcnt : ((afterEdges pin t start i).elapse (t.gap i)).tim4.cnt = .ofNat (t.gap i) := by
    rw [elapse, hbeforeTimer hpin htimer, tick_iterate rfl, UInt16.zero_add]
  have hstored := (helapsed.edge_of_lt hpin).1
  rw [hcnt] at hstored
  exact hstored

/-- Behind a resume that finds no flag to serve, the edge that follows edge `i` stores the time
since then, up to the maximum, if and only if the pin has an external line and the time is at most
the maximum or leaves it as the remainder modulo 2^16. -/
theorem storedDuration_iff {pin : UInt8} {triggerDuration : UInt32} {s start : PulseSystem}
    (hquiet : ∀ number, s.exti.getITStatus number = false)
    (hstart : pulseioInResume pin triggerDuration s = some start) (t : EdgeTimes) (i : ℕ) :
    (afterEdges pin t start (i + 1)).pulse =
        capturePulse ⟨true, .ofNat (min (t.gap i) 65535)⟩ (afterEdges pin t start i).pulse ↔
      pin < 16 ∧ (t.gap i ≤ 65535 ∨ t.gap i % 65536 = 65535) := by
  obtain ⟨hlistening, htimer⟩ := pulseioInResume_listening hquiet hstart
  by_cases hpin : pin < 16
  · rw [afterEdges_pulse hlistening htimer hpin, ← ofNat_eq_min_iff]
    exact ⟨fun h => ⟨hpin, capturePulse_inj h⟩, fun h => by rw [h.2]⟩
  · have helapsed : Listening pin ((afterEdges pin t start i).elapse (t.gap i)) :=
      ⟨(hlistening.afterEdges t i).1.enabled, (hlistening.afterEdges t i).1.others⟩
    rw [afterEdges, (helapsed.edge_of_not_lt hpin).1]
    exact ⟨fun h => absurd h.symm (capturePulse_ne _ _), fun h => absurd h.1 hpin⟩

/-- An edge each `period` microseconds. -/
def periodicEdges (period : ℕ) (h : 0 < period) : EdgeTimes where
  time i := i * period
  zero := Nat.zero_mul period
  increasing := fun _ _ hlt => Nat.mul_lt_mul_of_pos_right hlt h

def idleSystem : PulseSystem :=
  ⟨⟨0, false⟩, ⟨fun _ => false, fun _ => false⟩, ⟨⟨0, 0, 0⟩, ⟨0, 0, 0⟩, []⟩, ⟨0, 0, fun _ => 0⟩⟩

theorem storedDuration_iff_millisecond :
    ∃ start, pulseioInResume 0 0 idleSystem = some start ∧
      ((afterEdges 0 (periodicEdges 1000 (by decide)) start 1).pulse =
          capturePulse ⟨true, .ofNat (min 1000 65535)⟩
            (afterEdges 0 (periodicEdges 1000 (by decide)) start 0).pulse ↔
        (0 : UInt8) < 16 ∧ (1000 ≤ 65535 ∨ 1000 % 65536 = 65535)) := by
  obtain ⟨start, hstart⟩ : ∃ start, pulseioInResume 0 0 idleSystem = some start := ⟨_, rfl⟩
  have hquiet : ∀ number, idleSystem.exti.getITStatus number = false := fun _ => rfl
  exact ⟨start, hstart, storedDuration_iff hquiet hstart (periodicEdges 1000 (by decide)) 0⟩

/-- An edge after 65536 microseconds is stored as one after none. -/
theorem storedDuration_wraps :
    ∃ start, pulseioInResume 0 0 idleSystem = some start ∧
      (afterEdges 0 (periodicEdges 65536 (by decide)) start 1).pulse =
        capturePulse ⟨true, 0⟩ start.pulse ∧
      (afterEdges 0 (periodicEdges 65536 (by decide)) start 1).pulse ≠
        capturePulse ⟨true, .ofNat (min 65536 65535)⟩ start.pulse := by
  obtain ⟨start, hstart⟩ : ∃ start, pulseioInResume 0 0 idleSystem = some start := ⟨_, rfl⟩
  obtain ⟨hlistening, htimer⟩ := pulseioInResume_listening (fun _ => rfl) hstart
  have hstored := afterEdges_pulse hlistening htimer (by decide)
    (periodicEdges 65536 (by decide)) 0
  refine ⟨start, hstart, hstored, fun h => ?_⟩
  have hcnt : (0 : UInt16) = .ofNat (min 65536 65535) := capturePulse_inj (hstored.symm.trans h)
  exact absurd hcnt (by decide)

end Not232
