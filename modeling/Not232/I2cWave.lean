import Not232.I2c
import Not232.Waveforms

/-!
# The waveform of an I2C write

The samples that the master takes while it sends bytes are the waveform of a transaction without its
end. No slave pulls the data line low here: the levels are those that the master drives, which do
not depend on the answers of a slave.
-/

namespace Not232

open TwoWire

namespace I2cBus

/-- A bus on which only the master drives the data line. -/
def masterBus (sda scl : UInt8) : I2cBus := ⟨sda, scl, fun _ => true⟩

/-- From `s` to `s'` the master drives the waveform, and last these levels. -/
structure Plays (e : I2cBus) (s : I2cState) (wave : List Wires) (sda scl : Bool)
    (s' : I2cState) : Prop where
  trace : s'.trace = wave.reverse ++ s.trace
  sda : pinLevel s'.outdr e.sda = sda
  scl : pinLevel s'.outdr e.scl = scl

variable {sdaPin sclPin : UInt8} {s s₁ s₂ : I2cState} {wave more : List Wires}
  {sda scl sda' scl' : Bool}

theorem plays_refl {e : I2cBus} (hsda : pinLevel s.outdr e.sda = sda)
    (hscl : pinLevel s.outdr e.scl = scl) : e.Plays s [] sda scl s := ⟨rfl, hsda, hscl⟩

theorem Plays.trans {e : I2cBus} (h₁ : e.Plays s wave sda scl s₁)
    (h₂ : e.Plays s₁ more sda' scl' s₂) : e.Plays s (wave ++ more) sda' scl' s₂ := by
  refine ⟨?_, h₂.sda, h₂.scl⟩
  rw [h₂.trace, h₁.trace, List.reverse_append, List.append_assoc]

theorem Plays.tick (h : (masterBus sdaPin sclPin).Plays s wave sda scl s₁) :
    (masterBus sdaPin sclPin).Plays s (wave ++ [⟨sda, scl⟩]) sda scl
      ((masterBus sdaPin sclPin).tick s₁) := by
  refine ⟨?_, h.sda, h.scl⟩
  have hwires : (masterBus sdaPin sclPin).wires s₁ = ⟨sda, scl⟩ := by
    rw [wires, h.sda, h.scl]
    exact congrArg (Wires.mk · scl) (Bool.and_true sda)
  rw [I2cBus.tick, hwires, h.trace, List.reverse_append]
  rfl

theorem i2cSendBytes_zero (e : I2cBus) (address : UInt8) (buffer : List UInt8) (delay : UInt32)
    (s : I2cState) :
    e.i2cSendBytes address buffer 0 delay s =
      e.sendLoop delay buffer (e.i2cSendByte address delay (e.i2cStart delay s)).2 := by
  dsimp only [i2cSendBytes]
  exact if_neg (not_not.mpr rfl)

/-- A write to the latch and the delay behind it. -/
theorem plays_hold {outdr : UInt32} (hsda : pinLevel outdr sdaPin = sda)
    (hscl : pinLevel outdr sclPin = scl) (delay : UInt32) :
    (masterBus sdaPin sclPin).Plays s (List.replicate (delay.toNat + 1) ⟨sda, scl⟩) sda scl
      ((masterBus sdaPin sclPin).i2cDelay delay
        ((masterBus sdaPin sclPin).tick { s with outdr := outdr })) := by
  have hset : (masterBus sdaPin sclPin).Plays s [] sda scl { s with outdr := outdr } :=
    ⟨rfl, hsda, hscl⟩
  have hall : ∀ n, (masterBus sdaPin sclPin).Plays s (List.replicate (n + 1) ⟨sda, scl⟩) sda scl
      ((masterBus sdaPin sclPin).tick^[n]
        ((masterBus sdaPin sclPin).tick { s with outdr := outdr })) := by
    intro n
    induction n with
    | zero => exact hset.tick
    | succ n ih =>
      rw [List.replicate_succ', Function.iterate_succ_apply']
      exact ih.tick
  exact hall delay.toNat

section Master

variable (he : (masterBus sdaPin sclPin).Wired)
include he

theorem plays_sda (hscl : pinLevel s.outdr sclPin = scl) (level : Bool) (delay : UInt32) :
    let e := masterBus sdaPin sclPin
    e.Plays s (List.replicate (delay.toNat + 1) ⟨level, scl⟩) level scl
      (e.i2cDelay delay
        (if level then e.writeBshr (pinMask e.sda) s else e.writeBcr (pinMask e.sda) s)) := by
  have hlevel := fun p hp => pinLevel_drive (p := p) he.sda hp level s.outdr
  have hhold := plays_hold (s := s) ((hlevel sdaPin he.sda).trans (if_pos rfl))
    (((hlevel sclPin he.scl).trans (if_neg he.ne)).trans hscl) delay
  cases level with
  | true => exact hhold
  | false => exact hhold

theorem plays_scl (hsda : pinLevel s.outdr sdaPin = sda) (level : Bool) (delay : UInt32) :
    let e := masterBus sdaPin sclPin
    e.Plays s (List.replicate (delay.toNat + 1) ⟨sda, level⟩) sda level
      (e.i2cDelay delay
        (if level then e.writeBshr (pinMask e.scl) s else e.writeBcr (pinMask e.scl) s)) := by
  have hlevel := fun p hp => pinLevel_drive (p := p) he.scl hp level s.outdr
  have hhold := plays_hold (s := s)
    (((hlevel sdaPin he.sda).trans (if_neg he.ne.symm)).trans hsda)
    ((hlevel sclPin he.scl).trans (if_pos rfl)) delay
  cases level with
  | true => exact hhold
  | false => exact hhold

/-- A waveform for the bit, with the clock left low. -/
theorem i2cSendBit_plays (hscl : pinLevel s.outdr sclPin = false) {delay : UInt32}
    (hdelay : 0 < delay.toNat) (bit : Bool) :
    ∃ wave, BitWave bit wave ∧ (masterBus sdaPin sclPin).Plays s wave bit false
      ((masterBus sdaPin sclPin).i2cSendBit bit delay s) := by
  obtain ⟨n, hn⟩ : ∃ n, delay.toNat + 1 = n + 2 := ⟨delay.toNat - 1, by omega⟩
  have hbit := plays_sda he hscl bit delay
  have hrise := plays_scl he hbit.sda true delay
  have hfall := plays_scl he hrise.sda false delay
  rw [hn] at hbit hrise hfall
  exact ⟨_, bitWave_of_holds bit n, hbit.trans (hrise.trans hfall)⟩

theorem sendBits_plays (hscl : pinLevel s.outdr sclPin = false) {delay : UInt32}
    (hdelay : 0 < delay.toNat) (bits : List Bool) :
    ∃ waves sda, List.Forall₂ BitWave bits waves ∧
      (masterBus sdaPin sclPin).Plays s waves.flatten sda false
        (bits.foldl (fun s bit => (masterBus sdaPin sclPin).i2cSendBit bit delay s) s) := by
  induction bits generalizing s with
  | nil => exact ⟨[], _, .nil, plays_refl rfl hscl⟩
  | cons bit bits ih =>
    obtain ⟨wave, hwave, hplays⟩ := i2cSendBit_plays he hscl hdelay bit
    obtain ⟨waves, sda, hwaves, hrest⟩ := ih hplays.scl
    exact ⟨wave :: waves, sda, .cons hwave hwaves, hplays.trans hrest⟩

theorem i2cSendByte_plays (hscl : pinLevel s.outdr sclPin = false) {delay : UInt32}
    (hdelay : 0 < delay.toNat) (byte : UInt8) :
    ∃ wave, ByteWave byte wave ∧ (masterBus sdaPin sclPin).Plays s wave true false
      ((masterBus sdaPin sclPin).i2cSendByte byte delay s).2 := by
  obtain ⟨waves, sda, hwaves, hbits⟩ := sendBits_plays he hscl hdelay (msbFirst byte)
  have hfree := plays_sda he hbits.scl true delay
  have hrise := plays_scl he hfree.sda true delay
  have hfall := plays_scl he hrise.sda false delay
  -- the data line is released once more, without a delay
  have hend := plays_sda he hfall.scl true 0
  have hack := (ackWave_of_holds true delay.toNat).append (clockLow_replicate 1 true)
  refine ⟨_, ⟨waves, _, hwaves, hack, rfl⟩, ?_⟩
  exact hbits.trans ((hfree.trans (hrise.trans hfall)).trans hend)

theorem sendLoop_plays (hscl : pinLevel s.outdr sclPin = false) {delay : UInt32}
    (hdelay : 0 < delay.toNat) (buffer : List UInt8) :
    ∃ waves sda, List.Forall₂ ByteWave buffer waves ∧
      (masterBus sdaPin sclPin).Plays s waves.flatten sda false
        ((masterBus sdaPin sclPin).sendLoop delay buffer s) := by
  induction buffer generalizing s with
  | nil => exact ⟨[], _, .nil, plays_refl rfl hscl⟩
  | cons byte buffer ih =>
    obtain ⟨wave, hwave, hplays⟩ := i2cSendByte_plays he hscl hdelay byte
    obtain ⟨waves, sda, hwaves, hrest⟩ := ih hplays.scl
    exact ⟨wave :: waves, sda, .cons hwave hwaves, hplays.trans hrest⟩

/-- Started with the clock high, the master makes a start condition. -/
theorem i2cStart_plays (hscl : pinLevel s.outdr sclPin = true) (delay : UInt32) :
    ∃ wave, StartWave wave ∧ (masterBus sdaPin sclPin).Plays s wave false false
      ((masterBus sdaPin sclPin).i2cStart delay s) := by
  have hfree := plays_sda he hscl true delay
  have hrise := plays_scl he hfree.sda true delay
  have hdata := plays_sda he hrise.scl false delay
  have hfall := plays_scl he hdata.sda false delay
  have hidle := (hfree.trans hrise).trans (hdata.trans hfall)
  rw [← List.replicate_add, ← Nat.add_assoc] at hidle
  exact ⟨_, ⟨_, _, _, _, clockLow_replicate (delay.toNat + 1) false, rfl⟩, hidle⟩

/-- What the master drives in a write without a stop condition, and the stop condition that another
driver makes behind it. -/
theorem i2cSendBytes_transaction {outdr : UInt32} (hscl : pinLevel outdr sclPin = true)
    {delay : UInt32} (hdelay : 0 < delay.toNat) (address : UInt8) (buffer : List UInt8)
    {stop : List Wires} (hstop : StopWave stop) :
    TransactionWave (address :: buffer)
      (((masterBus sdaPin sclPin).i2cSendBytes address buffer 0 delay ⟨outdr, []⟩).trace.reverse ++
        stop) := by
  have hidle : pinLevel (⟨outdr, []⟩ : I2cState).outdr sclPin = true := hscl
  obtain ⟨start, hstart, hplays⟩ := i2cStart_plays he hidle delay
  obtain ⟨wave, hwave, haddress⟩ := i2cSendByte_plays he hplays.scl hdelay address
  obtain ⟨waves, sda, hwaves, hbuffer⟩ := sendLoop_plays he haddress.scl hdelay buffer
  refine ⟨start, wave :: waves, stop, hstart, .cons hwave hwaves, hstop, ?_⟩
  have htrace := (hplays.trans (haddress.trans hbuffer)).trace
  rw [List.append_nil] at htrace
  rw [i2cSendBytes_zero, htrace, List.reverse_reverse, List.flatten_cons, List.append_assoc]

end Master

end I2cBus

end Not232
