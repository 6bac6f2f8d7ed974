import Not232.PulseOut
import Not232.PulseRing
import Not232.PulseTimer

/-!
# Pulses from one board to another

One board sends pulses, a demodulating receiver turns the carrier into a level, and another board
listens to the level. It captures the time before the first pulse, and then the pulses themselves: a
pulse is captured when the next one starts, so a pause at the end is not.
-/

namespace Not232

open PulseSystem

section Hear

variable {pin : UInt8} {last level : Bool} {levels : List Bool} {s : PulseSystem} {c : UInt16}

/-- The pin is listened to, and its last edge is `c` microseconds ago. -/
structure Timed (pin : UInt8) (c : UInt16) (s : PulseSystem) : Prop where
  listening : Listening pin s
  timer : s.tim4 = ⟨c, true⟩

theorem Timed.elapse (h : Timed pin c s) (n : ℕ) :
    Timed pin (c + .ofNat n) (s.elapse n) ∧ (s.elapse n).pulse = s.pulse := by
  refine ⟨⟨⟨h.listening.enabled, h.listening.others⟩, ?_⟩, rfl⟩
  rw [PulseSystem.elapse, h.timer, tick_iterate rfl]

theorem Timed.edge (h : Timed pin c s) (hpin : pin < 16) :
    Timed pin 0 (s.edge pin) ∧ (s.edge pin).pulse = capturePulse ⟨true, c⟩ s.pulse := by
  obtain ⟨hpulse, htimer, hlistening⟩ := h.listening.edge_of_lt hpin
  rw [h.timer] at hpulse
  exact ⟨⟨hlistening, htimer⟩, hpulse⟩

end Hear

end Not232
