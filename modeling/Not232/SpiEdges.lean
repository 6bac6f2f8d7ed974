import Not232.SpiExchange

/-!
# The clock edges of an SPI transfer

Every byte first drives the clock to its idle level and then makes eight pulses. The clock is at
rest between the bytes of a transfer, so only the first byte can make one more edge, from the level
that the setup or a transfer in another mode left.
-/

namespace Not232

/-- The changes of a level along the samples, newest first, that follow a first level. -/
def edges (first : Bool) : (samples : List Bool) → ℕ
  | [] => 0
  | level :: older => edges first older + if level = older.headD first then 0 else 1

def spiInit (sckPin mosiPin misoPin : UInt8) (g : Gpio) : Option Gpio := do
  let g ← gpioInitPin sckPin .outPP g
  let g ← gpioInitPin mosiPin .outPP g
  gpioInitPin misoPin .inFloating g

/-- The setup does not write the output latch. -/
theorem outdr_spiInit {sckPin mosiPin misoPin : UInt8} {g g' : Gpio}
    (h : spiInit sckPin mosiPin misoPin g = some g') : g'.a.outdr = g.a.outdr := by
  simp only [spiInit, Option.bind_eq_bind, Option.bind_eq_some_iff] at h
  obtain ⟨g₁, h₁, g₂, h₂, h₃⟩ := h
  rw [outdr_gpioInitPin h₃, outdr_gpioInitPin h₂, outdr_gpioInitPin h₁]

namespace SpiBus

def sckLevel (e : SpiBus) (outdr : UInt32) : Bool := pinLevel outdr e.sckPin

/-- Since `s₀` the clock has made `n` transitions, and it is at `level`. -/
structure Clocked (e : SpiBus) (s₀ : PortA) (n : ℕ) (level : Bool) (s : PortA) : Prop where
  counted : ∃ samples, s.trace = samples ++ s₀.trace ∧
    edges (e.sckLevel s₀.outdr) (samples.map e.sckLevel) = n ∧
    (samples.map e.sckLevel).headD (e.sckLevel s₀.outdr) = level
  latched : e.sckLevel s.outdr = level

variable {e : SpiBus} {s₀ s : PortA} {n : ℕ} {level idle : Bool}

theorem clocked_start (e : SpiBus) (s : PortA) : e.Clocked s 0 (e.sckLevel s.outdr) s :=
  ⟨⟨[], rfl, rfl, rfl⟩, rfl⟩

theorem Clocked.write (hs : e.Clocked s₀ n level s) (outdr : UInt32) :
    e.Clocked s₀ (n + if e.sckLevel outdr = level then 0 else 1) (e.sckLevel outdr)
      (PortA.tick { s with outdr := outdr }) := by
  obtain ⟨samples, htrace, hedges, hlevel⟩ := hs.counted
  refine ⟨⟨outdr :: samples, congrArg (List.cons outdr) htrace, ?_, rfl⟩, rfl⟩
  rw [List.map_cons, edges, hedges, hlevel]

theorem Clocked.hold (hs : e.Clocked s₀ n level s) {outdr : UInt32}
    (h : e.sckLevel outdr = level) :
    e.Clocked s₀ n level (PortA.tick { s with outdr := outdr }) := by
  have hwrite := hs.write outdr
  rwa [h, if_pos rfl] at hwrite

theorem Clocked.delay (hs : e.Clocked s₀ n level s) (k : ℕ) :
    e.Clocked s₀ n level (s.delay k) :=
  PortA.delay_of_tick (fun _ h => h.hold h.latched) k hs

/-- Driving the clock makes one transition when it changes the level. -/
theorem Clocked.driveSck (hsck : e.sckPin < 16) (hs : e.Clocked s₀ n level s) {value : UInt8}
    {next : Bool} (hnext : (value != 0) = next) (delay : UInt32) :
    e.Clocked s₀ (n + if next = level then 0 else 1) next (e.driveSck value delay s) := by
  obtain ⟨outdr, hwrite, hlevel⟩ := gpioWriteFast_eq hsck value s
  have hpin : e.sckLevel outdr = next := by rw [sckLevel, hlevel _ hsck, if_pos rfl, hnext]
  have hclocked := hs.write outdr
  rw [hpin] at hclocked
  rw [SpiBus.driveSck, hwrite]
  exact hclocked.delay _

theorem Clocked.driveMosi (hsck : e.sckPin < 16) (hmosi : e.mosiPin < 16)
    (hne : e.mosiPin ≠ e.sckPin) (hs : e.Clocked s₀ n level s) (out : UInt8) :
    e.Clocked s₀ n level (e.driveMosi out s) := by
  obtain ⟨outdr, hwrite, hlevel⟩ :=
    gpioWriteFast_eq hmosi (if out &&& 0x80 ≠ 0 then 1 else 0) s
  have hpin : e.sckLevel outdr = level := by
    rw [sckLevel, hlevel _ hsck, if_neg hne, ← hs.latched, sckLevel]
  rw [SpiBus.driveMosi, hwrite]
  exact hs.hold hpin

section Transfer

variable (hsck : e.sckPin < 16) (hmosi : e.mosiPin < 16) (hne : e.mosiPin ≠ e.sckPin)
include hsck hmosi hne

theorem turnLeading_clocked {active rest : UInt8} (hactive : (active != 0) = !idle)
    (hrest : (rest != 0) = idle) (delay : UInt32) {r : SpiByte}
    (hs : e.Clocked s₀ n idle r.port) :
    e.Clocked s₀ (n + 2) idle (e.turnLeading active rest delay r).port := by
  have hbit := hs.driveMosi hsck hmosi hne r.out
  have hpulse := (hbit.driveSck hsck hactive delay).driveSck hsck hrest delay
  rw [if_neg (Bool.not_ne_self idle), if_neg (Bool.self_ne_not idle)] at hpulse
  exact hpulse

theorem turnTrailing_clocked {active rest : UInt8} (hactive : (active != 0) = !idle)
    (hrest : (rest != 0) = idle) (delay : UInt32) {r : SpiByte}
    (hs : e.Clocked s₀ n idle r.port) :
    e.Clocked s₀ (n + 2) idle (e.turnTrailing active rest delay r).port := by
  have hbit := (hs.driveSck hsck hactive delay).driveMosi hsck hmosi hne r.out
  have hpulse := hbit.driveSck hsck hrest delay
  rw [if_neg (Bool.not_ne_self idle), if_neg (Bool.self_ne_not idle)] at hpulse
  exact hpulse

omit hsck hmosi hne in
theorem iterate_clocked {turn : SpiByte → SpiByte}
    (hturn : ∀ n r, e.Clocked s₀ n idle r.port → e.Clocked s₀ (n + 2) idle (turn r).port)
    (k : ℕ) {n : ℕ} {r : SpiByte} (hs : e.Clocked s₀ n idle r.port) :
    e.Clocked s₀ (n + 2 * k) idle (turn^[k] r).port := by
  induction k generalizing n r with
  | zero => exact hs
  | succ k ih =>
    rw [Function.iterate_succ_apply, Nat.mul_succ, ← Nat.add_assoc, Nat.add_right_comm]
    exact ih (hturn n r hs)

/-- A byte makes sixteen transitions, and one more when it finds the clock active. -/
theorem spiXferByte_clocked (out mode : UInt8) (delay : UInt32)
    (hs : e.Clocked s₀ n level s) :
    e.Clocked s₀ (n + (if (linkMode mode).idle = level then 0 else 1) + 16)
      (linkMode mode).idle (e.spiXferByteBbCh32 out mode delay s).2 := by
  set rest : UInt8 := if mode >>> 1 ≠ 0 then 1 else 0 with hdef
  obtain ⟨hrest, hactive⟩ := linkMode_levels mode hdef
  have hstart := hs.driveSck hsck hrest delay
  unfold spiXferByteBbCh32
  dsimp only
  by_cases hcpha : mode &&& 1 = 0
  · rw [if_pos hcpha]
    exact iterate_clocked (fun _ _ => turnLeading_clocked hsck hmosi hne hactive hrest delay) 8
      hstart
  · rw [if_neg hcpha]
    exact iterate_clocked (fun _ _ => turnTrailing_clocked hsck hmosi hne hactive hrest delay) 8
      hstart

/-- From rest a transfer makes sixteen transitions a byte and returns to rest. -/
theorem xferBytes_clocked (mode : UInt8) (delay : UInt32) (out : List UInt8) {n : ℕ} {s : PortA}
    (hs : e.Clocked s₀ n (linkMode mode).idle s) :
    e.Clocked s₀ (n + 16 * out.length) (linkMode mode).idle
      (e.xferBytes mode delay out s).2 := by
  induction out generalizing n s with
  | nil => exact hs
  | cons byte out ih =>
    have hbyte := spiXferByte_clocked hsck hmosi hne byte mode delay hs
    rw [if_pos rfl] at hbyte
    rw [List.length_cons, Nat.mul_succ, Nat.add_comm (16 * out.length), ← Nat.add_assoc]
    exact ih hbyte

/-- A transfer leaves the clock at the idle level of its mode. -/
theorem sckLevel_xferBytes (mode : UInt8) (delay : UInt32) {out : List UInt8} (hout : out ≠ [])
    (s : PortA) : e.sckLevel (e.xferBytes mode delay out s).2.outdr = (linkMode mode).idle := by
  cases out with
  | nil => exact absurd rfl hout
  | cons byte out =>
    have hbyte := spiXferByte_clocked hsck hmosi hne byte mode delay (clocked_start e s)
    exact (xferBytes_clocked hsck hmosi hne mode delay out hbyte).latched

end Transfer

end SpiBus

end Not232
