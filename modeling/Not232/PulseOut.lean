import Mathlib.Tactic

/-!
# Pulses on a carrier

Three timers drive twelve pins with a carrier whose share of high time is a compare register each.
Pulses are sent by writing the register of a pin at even indices and zero at odd ones. Delays take
their microseconds and the code between them none; the trace has the registers in each microsecond,
newest first.
-/

namespace Not232

inductive PwmTimer
  | tim1 | tim2 | tim3
  deriving DecidableEq

/-- The compare registers of a timer. -/
inductive CompareRegister
  | ch1cvr | ch2cvr | ch3cvr | ch4cvr
  deriving DecidableEq

abbrev PwmChannel := PwmTimer × CompareRegister

structure Pwm where
  cvr : PwmChannel → UInt16
  trace : List (PwmChannel → UInt16)

namespace Pwm

def write (channel : PwmChannel) (value : UInt16) (s : Pwm) : Pwm :=
  { s with cvr := Function.update s.cvr channel value }

def delay (n : ℕ) (s : Pwm) : Pwm := { s with trace := List.replicate n s.cvr ++ s.trace }

end Pwm

def pwmSetDuty (pinNumber duty : UInt8) (s : Pwm) : Pwm :=
  let duty := duty.toUInt16
  if pinNumber = 0 then s.write (.tim2, .ch1cvr) duty
  else if pinNumber = 1 then s.write (.tim2, .ch2cvr) duty
  else if pinNumber = 2 then s.write (.tim2, .ch3cvr) duty
  else if pinNumber = 3 then s.write (.tim2, .ch4cvr) duty
  else if pinNumber = 6 then s.write (.tim3, .ch1cvr) duty
  else if pinNumber = 7 then s.write (.tim3, .ch2cvr) duty
  else if pinNumber = 16 then s.write (.tim3, .ch3cvr) duty
  else if pinNumber = 17 then s.write (.tim3, .ch4cvr) duty
  else if pinNumber = 8 then s.write (.tim1, .ch1cvr) duty
  else if pinNumber = 9 then s.write (.tim1, .ch2cvr) duty
  else if pinNumber = 10 then s.write (.tim1, .ch3cvr) duty
  else if pinNumber = 11 then s.write (.tim1, .ch4cvr) duty
  else s

/-- The pulses from index `i` on. -/
def sendPulses (pinNumber duty : UInt8) : ℕ → List UInt16 → Pwm → Pwm
  | _, [], s => s
  | i, pulse :: pulses, s =>
    let s := if i % 2 = 1 then pwmSetDuty pinNumber 0 s else pwmSetDuty pinNumber duty s
    sendPulses pinNumber duty (i + 1) pulses (s.delay pulse.toNat)

/-- The words have been read from the host. -/
def pulseioOutSend (pinNumber duty : UInt8) (words : List UInt32) (s : Pwm) : Pwm :=
  pwmSetDuty pinNumber 0 (sendPulses pinNumber duty 0 (words.map UInt32.toUInt16) s)

/-! ### The channels of the pins -/

section Channel

variable {pinNumber duty : UInt8} {channel other : PwmChannel} {s : Pwm}

end Channel

/-! ### What a demodulating receiver sees -/

section Envelope

variable {pinNumber duty : UInt8} {channel other : PwmChannel}

end Envelope

end Not232
