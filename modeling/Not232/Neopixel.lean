import Not232.MsbFirst
import Not232.PulseTrain
import Not232.SpiExchange

/-!
# NeoPixel writes

Every bit is a pulse on the pin whose length codes it. The loop over the buffer takes three bytes a
turn, so it sends whole colours whatever the number of bytes that the host asked for.
-/

namespace Not232

/-! ### The transfer -/

def neopixelSend0 (pinMask : UInt16) (s : PortA) : PortA :=
  let s := (s.writeBshr pinMask.toUInt32).delay 11
  (s.writeBcr pinMask.toUInt32).delay 31

def neopixelSend1 (pinMask : UInt16) (s : PortA) : PortA :=
  let s := (s.writeBshr pinMask.toUInt32).delay 24
  (s.writeBcr pinMask.toUInt32).delay 18

def neopixelSendBit (pinMask : UInt16) (bit : UInt32) (s : PortA) : PortA :=
  if bit ≠ 0 then neopixelSend1 pinMask s else neopixelSend0 pinMask s

def neopixelSendByte (pinMask : UInt16) (byte : UInt8) (s : PortA) : PortA :=
  ([0x80, 0x40, 0x20, 0x10, 0x08, 0x04, 0x02, 0x01] : List UInt8).foldl
    (fun s mask => neopixelSendBit pinMask (byte &&& mask).toUInt32 s) s

def neopixelSendColor (pinMask : UInt16) (b0 b1 b2 : UInt8) (s : PortA) : PortA :=
  let s := neopixelSendByte pinMask b0 s
  let s := neopixelSendByte pinMask b1 s
  neopixelSendByte pinMask b2 s

/-- The loop from index `i` on. `pause` is the number of samples in `Delay_Us(200)`, and `buffer`
the memory from the address of the buffer on. -/
def neopixelSendLoop (pinMask : UInt16) (pause : ℕ) (buffer : ℕ → UInt8) (len i : ℕ)
    (s : PortA) : PortA :=
  if i < len then
    let s := neopixelSendColor pinMask (buffer i) (buffer (i + 1)) (buffer (i + 2)) s
    neopixelSendLoop pinMask pause buffer len (i + 3) (s.delay pause)
  else s
termination_by len - i

def neopixelSendBuffer (pinMask : UInt16) (pause : ℕ) (buffer : ℕ → UInt8) (len : ℕ)
    (s : PortA) : PortA :=
  neopixelSendLoop pinMask pause buffer len 0 s

/-- The handler, when it has received `data` into the shared buffer. -/
def neopixelWrite (pinNumber : UInt8) (pause : ℕ) (megaBuffer : ℕ → UInt8) (data : List UInt8)
    (s : PortA) : PortA :=
  neopixelSendBuffer (pinMask16 pinNumber) pause (fun i => data[i]?.getD (megaBuffer i))
    data.length s

/-- The samples that the latch took between two states, newest first. -/
def PortA.since (s s' : PortA) : List UInt32 :=
  s'.trace.take (s'.trace.length - s.trace.length)

/-- Between two states no pin but this one changes its level. -/
def OnlyPin (pin : UInt8) (s s' : PortA) : Prop :=
  ∀ outdr ∈ s'.outdr :: s.since s', ∀ p < 16, pin ≠ p → pinLevel outdr p = pinLevel s.outdr p

/-! ### What a pin shows -/

/-- Between two states the pin shows `levels`, and the other pins keep theirs. -/
structure Shows (pin : UInt8) (s : PortA) (levels : List Bool) (s' : PortA) : Prop where
  sampled : ∃ samples, s'.trace = samples ++ s.trace ∧
    (samples.map fun outdr => pinLevel outdr pin).reverse = levels ∧
    ∀ outdr ∈ samples, ∀ p < 16, pin ≠ p → pinLevel outdr p = pinLevel s.outdr p
  latched : ∀ p < 16, pin ≠ p → pinLevel s'.outdr p = pinLevel s.outdr p

variable {pin : UInt8} {s s₁ s₂ : PortA} {levels more : List Bool}

theorem shows_refl (pin : UInt8) (s : PortA) : Shows pin s [] s :=
  ⟨⟨[], rfl, rfl, fun _ h => absurd h List.not_mem_nil⟩, fun _ _ _ => rfl⟩

theorem Shows.trans (h₁ : Shows pin s levels s₁) (h₂ : Shows pin s₁ more s₂) :
    Shows pin s (levels ++ more) s₂ := by
  obtain ⟨first, htrace₁, hlevels₁, hothers₁⟩ := h₁.sampled
  obtain ⟨second, htrace₂, hlevels₂, hothers₂⟩ := h₂.sampled
  refine ⟨⟨second ++ first, ?_, ?_, fun outdr houtdr p hp hne => ?_⟩, fun p hp hne => ?_⟩
  · rw [htrace₂, htrace₁, List.append_assoc]
  · rw [List.map_append, List.reverse_append, hlevels₁, hlevels₂]
  · rcases List.mem_append.mp houtdr with hsecond | hfirst
    · rw [hothers₂ outdr hsecond p hp hne, h₁.latched p hp hne]
    · exact hothers₁ outdr hfirst p hp hne
  · rw [h₂.latched p hp hne, h₁.latched p hp hne]

/-- A write to the latch that changes at most the pin shows its new level. -/
theorem shows_write {outdr : UInt32} {level : Bool}
    (hlevel : ∀ p < 16, pinLevel outdr p = if pin = p then level else pinLevel s.outdr p)
    (hpin : pin < 16) : Shows pin s [level] (PortA.tick { s with outdr := outdr }) := by
  have hothers : ∀ p < 16, pin ≠ p → pinLevel outdr p = pinLevel s.outdr p := fun p hp hne => by
    rw [hlevel p hp, if_neg hne]
  refine ⟨⟨[outdr], rfl, ?_, fun sample hsample => ?_⟩, hothers⟩
  · rw [List.map_singleton, List.reverse_singleton, hlevel pin hpin, if_pos rfl]
  · rw [List.mem_singleton.mp hsample]
    exact hothers

theorem shows_delay (k : ℕ) (s : PortA) (pin : UInt8) :
    Shows pin s (List.replicate k (pinLevel s.outdr pin)) (s.delay k) := by
  induction k generalizing s with
  | zero => exact shows_refl pin s
  | succ k ih =>
    have hfirst : Shows pin s [pinLevel s.outdr pin] s.tick :=
      ⟨⟨[s.outdr], rfl, rfl, fun outdr houtdr _ _ _ => by rw [List.mem_singleton.mp houtdr]⟩,
        fun _ _ _ => rfl⟩
    exact hfirst.trans (ih s.tick)

section Transfer

variable (hpin : pin < 16)
include hpin

theorem shows_drive (level : Bool) (k : ℕ) (s : PortA) :
    let driven := if level then s.writeBshr (pinMask16 pin).toUInt32
      else s.writeBcr (pinMask16 pin).toUInt32
    Shows pin s (List.replicate (k + 1) level) (driven.delay k) := by
  intro driven
  have hdriven : driven = PortA.tick { s with
      outdr := if level then bshr (pinMask pin) s.outdr else bcr (pinMask pin) s.outdr } := by
    simp only [driven, SpiBus.pinMask16_eq hpin]
    cases level <;> rfl
  have hwrite := shows_write (fun p hp => pinLevel_drive hpin hp level s.outdr) hpin
  rw [← hdriven] at hwrite
  have hlevel : pinLevel driven.outdr pin = level := by
    rw [hdriven]
    exact (pinLevel_drive hpin hpin level s.outdr).trans (if_pos rfl)
  have hdelay := shows_delay k driven pin
  rw [hlevel] at hdelay
  exact hwrite.trans hdelay

end Transfer

/-! ### What a pin sends -/

/-- Between two states the pin sends the bits. -/
def Sends (pin : UInt8) (threshold : ℕ) (s : PortA) (bits : List Bool) (s' : PortA) : Prop :=
  ∃ levels, Shows pin s levels s' ∧ Codes threshold levels bits

variable {threshold : ℕ} {bits others : List Bool}

theorem Sends.trans (h₁ : Sends pin threshold s bits s₁) (h₂ : Sends pin threshold s₁ others s₂) :
    Sends pin threshold s (bits ++ others) s₂ := by
  obtain ⟨levels₁, hshows₁, hcodes₁⟩ := h₁
  obtain ⟨levels₂, hshows₂, hcodes₂⟩ := h₂
  exact ⟨levels₁ ++ levels₂, hshows₁.trans hshows₂, hcodes₁.append hcodes₂⟩

/-- A pause at the low level sends nothing. -/
theorem Sends.pause (h : Sends pin threshold s bits s₁) (hlow : pinLevel s₁.outdr pin = false)
    (k : ℕ) : Sends pin threshold s bits (s₁.delay k) := by
  have hshows := shows_delay k s₁ pin
  rw [hlow] at hshows
  have hpause : Sends pin threshold s₁ [] (s₁.delay k) := ⟨_, hshows, codes_low threshold k⟩
  have htrans := h.trans hpause
  rwa [List.append_nil] at htrans

section Bits

variable (hpin : pin < 16) (hshort : 12 ≤ threshold) (hlong : threshold < 25)
include hpin hshort hlong

end Bits

end Not232
