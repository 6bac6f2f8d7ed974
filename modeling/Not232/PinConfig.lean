import Not232.GpioInit

/-!
# The configuration of the pins

Each of the twenty pins has a port and a number there, no two the same and none that of the on-board
LED. A setup replaces the field of its own pin only, so after any run of setups a field holds what
the last setup of its pin wrote.
-/

namespace Not232

deriving instance DecidableEq for GpioMode

/-- The field of a mode at 50 MHz: two bits for the function and two for the speed. -/
def GpioMode.encoding : GpioMode → UInt32
  | ain => 0b0000
  | inFloating => 0b0100
  | ipd => 0b1000
  | ipu => 0b1000
  | outOD => 0b0111
  | outPP => 0b0011
  | afOD => 0b1111
  | afPP => 0b1011

/-- The configuration field of a pin of the port. -/
def GpioPort.field (p : GpioPort) (pin : UInt8) : UInt32 :=
  if pin < 8 then nibble p.cfglr pin.toUInt32 else nibble p.cfghr (pin.toUInt32 - 8)

def Gpio.fieldAt (g : Gpio) (l : GpioName × UInt8) : UInt32 := (g.port l.1).field l.2

/-- The port of a logical pin and its number there. -/
def pinLocation (pin : UInt8) : Option (GpioName × UInt8) := do
  let port ← pinPortMapping[pin.toNat]?
  let number ← pinNumberMapping[pin.toNat]?
  some (port, number)

/-- Setups of pins, one after the other. -/
def gpioInitPins : List (UInt8 × GpioMode) → Gpio → Option Gpio
  | [], g => some g
  | (pin, mode) :: rest, g => (gpioInitPin pin mode g).bind (gpioInitPins rest)

def gpioInitDefault (g : Gpio) : Option Gpio := do
  let g ← gpioInitPins ((List.range 20).map fun i => (UInt8.ofNat i, .inFloating)) g
  some (gpioBaseInitPins .b 3 .outPP g)

/-- The mode of the last setup of a pin. -/
def lastMode (pin : UInt8) : List (UInt8 × GpioMode) → Option GpioMode
  | [] => none
  | (p, mode) :: rest => (lastMode pin rest).or (if p = pin then some mode else none)

/-! ### One setup -/

theorem gpioInitMode_eq_encoding (mode : GpioMode) :
    gpioInitMode mode gpioSpeed50MHz = mode.encoding := by
  cases mode <;> rfl

theorem position_lt (pin : UInt8) (hpin : pin < 16) :
    (pin < 8 → pin.toUInt32 < 8) ∧ (¬ pin < 8 → pin.toUInt32 - 8 < 8) := by
  revert pin
  exact forall_pin (by decide)

theorem position_inj {pin p : UInt8} (h : p.toUInt32 - 8 = pin.toUInt32 - 8) : p = pin := by
  have hsum := congrArg (· + 8) h
  rw [UInt32.sub_add_cancel, UInt32.sub_add_cancel] at hsum
  exact UInt8.toUInt32_inj.mp hsum

theorem field_setField (gpio : GpioName) {pin : UInt8} (hpin : pin < 16) {field : UInt32}
    (hfield : field &&& 0x0F = field) (g : Gpio) {l : GpioName × UInt8} (hl : l.2 < 16) :
    (g.setField gpio pin field).fieldAt l = if l = (gpio, pin) then field else g.fieldAt l := by
  rcases l with ⟨name, p⟩
  obtain ⟨hpinLow, hpinHigh⟩ := position_lt pin hpin
  obtain ⟨hpLow, hpHigh⟩ := position_lt p hl
  unfold Gpio.fieldAt
  rw [setField_port]
  by_cases hname : name = gpio
  · subst hname
    rw [if_pos rfl]
    unfold GpioPort.field
    by_cases hsame : p = pin
    · subst hsame
      rw [if_pos rfl]
      by_cases hlow : p < 8
      · simp only [if_pos hlow, nibble_setNibble _ (hpLow hlow) (hpLow hlow) hfield, if_true]
      · simp only [if_neg hlow, nibble_setNibble _ (hpHigh hlow) (hpHigh hlow) hfield, if_true]
    · rw [if_neg fun h => hsame (congrArg Prod.snd h)]
      -- the two registers keep the pins of the other half apart
      by_cases hlow : pin < 8 <;> by_cases hplow : p < 8
      · simp only [if_pos hlow, if_pos hplow,
          nibble_setNibble _ (hpLow hplow) (hpinLow hlow) hfield,
          if_neg fun h => hsame (UInt8.toUInt32_inj.mp h)]
      · simp only [if_pos hlow, if_neg hplow]
      · simp only [if_neg hlow, if_pos hplow]
      · simp only [if_neg hlow, if_neg hplow,
          nibble_setNibble _ (hpHigh hplow) (hpinHigh hlow) hfield,
          if_neg fun h => hsame (position_inj h)]
  · rw [if_neg hname, if_neg fun h => hname (congrArg Prod.fst h)]

theorem field_gpioBaseInitPins (gpio : GpioName) {pin : UInt8} (hpin : pin < 16) (mode : GpioMode)
    (g : Gpio) {l : GpioName × UInt8} (hl : l.2 < 16) :
    (gpioBaseInitPins gpio pin mode g).fieldAt l =
      if l = (gpio, pin) then mode.encoding else g.fieldAt l := by
  rw [gpioBaseInitPins_eq gpio hpin, field_setField gpio hpin (gpioInitMode_field mode) g hl,
    gpioInitMode_eq_encoding]

/-! ### The mappings -/

/-- Every logical pin has a location, which is not that of the LED. -/
theorem pinLocation_exists (pin : UInt8) (hpin : pin < 20) :
    ∃ l, pinLocation pin = some l ∧ l.2 < 16 ∧ l ≠ (.b, 3) := by
  have hall : ∀ pin : UInt8, pin < 20 →
      (pinLocation pin).any fun l => decide (l.2 < 16 ∧ l ≠ (.b, 3)) :=
    forall_pin (by decide)
  obtain ⟨l, hl, hwell⟩ := (Option.any_eq_true _ _).mp (hall pin hpin)
  exact ⟨l, hl, of_decide_eq_true hwell⟩

/-- No two logical pins share a location. -/
theorem pinLocation_injective {pin p : UInt8} (hpin : pin < 20) (hp : p < 20)
    (h : pinLocation pin = pinLocation p) : pin = p := by
  have hall : ∀ pin : UInt8, pin < 20 → ∀ n < 20,
      pinLocation pin = pinLocation (UInt8.ofNat n) → pin = UInt8.ofNat n :=
    forall_pin (by decide)
  have hsame := hall pin hpin p.toNat hp
  rw [UInt8.ofNat_toNat] at hsame
  exact hsame h

theorem gpioInitPin_eq {pin : UInt8} {l : GpioName × UInt8} (hl : pinLocation pin = some l)
    (mode : GpioMode) (g : Gpio) :
    gpioInitPin pin mode g = some (gpioBaseInitPins l.1 l.2 mode g) := by
  simp only [pinLocation, Option.bind_eq_bind, Option.bind_eq_some_iff, Option.some.injEq] at hl
  obtain ⟨port, hport, number, hnumber, rfl⟩ := hl
  simp only [gpioInitPin, hport, hnumber, Option.bind_eq_bind, Option.bind_some]

/-! ### Runs of setups -/

/-- A run leaves in the field of a pin what its last setup wrote. -/
theorem gpioInitPins_field {calls : List (UInt8 × GpioMode)} (hcalls : ∀ c ∈ calls, c.1 < 20)
    (g : Gpio) :
    ∃ g', gpioInitPins calls g = some g' ∧
      (∀ pin < 20, ∀ l, pinLocation pin = some l →
        g'.fieldAt l = ((lastMode pin calls).map GpioMode.encoding).getD (g.fieldAt l)) ∧
      ∀ l, l.2 < 16 → (∀ pin < 20, pinLocation pin ≠ some l) → g'.fieldAt l = g.fieldAt l := by
  induction calls generalizing g with
  | nil => exact ⟨g, rfl, fun _ _ _ _ => rfl, fun _ _ _ => rfl⟩
  | cons c rest ih =>
    rcases c with ⟨p, mode⟩
    have hp : p < 20 := hcalls (p, mode) List.mem_cons_self
    obtain ⟨place, hplace, hplace16, -⟩ := pinLocation_exists p hp
    obtain ⟨g', hrun, hpins, hrest⟩ := ih (fun c hc => hcalls c (List.mem_cons_of_mem _ hc))
      (gpioBaseInitPins place.1 place.2 mode g)
    have hfirst : ∀ {l : GpioName × UInt8}, l.2 < 16 →
        (gpioBaseInitPins place.1 place.2 mode g).fieldAt l =
          if l = place then mode.encoding else g.fieldAt l :=
      fun hl => field_gpioBaseInitPins place.1 hplace16 mode g hl
    refine ⟨g', ?_, fun pin hpin l hl => ?_, fun l hl16 hother => ?_⟩
    · rw [gpioInitPins, gpioInitPin_eq hplace]
      exact hrun
    · obtain ⟨l', hl', hl16, -⟩ := pinLocation_exists pin hpin
      obtain rfl : l' = l := Option.some.inj (hl'.symm.trans hl)
      rw [hpins pin hpin l' hl, hfirst hl16, lastMode]
      by_cases hsame : p = pin
      · subst hsame
        obtain rfl : place = l' := Option.some.inj (hplace.symm.trans hl)
        rw [if_pos rfl, if_pos rfl]
        cases lastMode p rest <;> rfl
      · have hne : l' ≠ place := fun heq =>
          hsame (pinLocation_injective hp hpin (hplace.trans (heq ▸ hl.symm)))
        rw [if_neg hne, if_neg hsame, Option.or_none]
    · have hne : l ≠ place := fun heq => hother p hp (heq ▸ hplace)
      rw [hrest l hl16 hother, hfirst hl16, if_neg hne]

theorem lastMode_default (pin : UInt8) (hpin : pin < 20) :
    lastMode pin ((List.range 20).map fun i => (UInt8.ofNat i, GpioMode.inFloating)) =
      some .inFloating := by
  revert pin
  exact forall_pin (by decide)

/-- From the default on, every pin has the mode of its last setup, the LED stays an output and no
other field changes. -/
theorem pins_never_interfere {calls : List (UInt8 × GpioMode)} (hcalls : ∀ c ∈ calls, c.1 < 20)
    (g : Gpio) :
    ∃ g', (gpioInitDefault g).bind (gpioInitPins calls) = some g' ∧
      (∀ pin < 20, ∃ l, pinLocation pin = some l ∧
        g'.fieldAt l = ((lastMode pin calls).getD .inFloating).encoding) ∧
      g'.fieldAt (.b, 3) = GpioMode.outPP.encoding ∧
      ∀ l, l.2 < 16 → (∀ pin < 20, pinLocation pin ≠ some l) → l ≠ (.b, 3) →
        g'.fieldAt l = g.fieldAt l := by
  have hdefault : ∀ c ∈ (List.range 20).map fun i => (UInt8.ofNat i, GpioMode.inFloating),
      c.1 < 20 := by decide
  obtain ⟨g₁, hrun₁, hpins₁, hrest₁⟩ := gpioInitPins_field hdefault g
  have hled : ∀ {l : GpioName × UInt8}, l.2 < 16 →
      (gpioBaseInitPins .b 3 .outPP g₁).fieldAt l =
        if l = (.b, 3) then GpioMode.outPP.encoding else g₁.fieldAt l :=
    fun hl => field_gpioBaseInitPins .b (by decide) .outPP g₁ hl
  have hnoled : ∀ pin < 20, pinLocation pin ≠ some (.b, 3) := fun pin hpin h => by
    obtain ⟨l, hl, -, hne⟩ := pinLocation_exists pin hpin
    exact hne (Option.some.inj (hl.symm.trans h))
  obtain ⟨g', hrun, hpins, hrest⟩ := gpioInitPins_field hcalls (gpioBaseInitPins .b 3 .outPP g₁)
  refine ⟨g', ?_, fun pin hpin => ?_, ?_, fun l hl16 hother hne => ?_⟩
  · simp only [gpioInitDefault, hrun₁, Option.bind_eq_bind, Option.bind_some, hrun]
  · obtain ⟨l, hl, hl16, hne⟩ := pinLocation_exists pin hpin
    refine ⟨l, hl, ?_⟩
    rw [hpins pin hpin l hl, hled hl16, if_neg hne, hpins₁ pin hpin l hl,
      lastMode_default pin hpin]
    cases lastMode pin calls <;> rfl
  · rw [hrest _ (by decide) hnoled, hled (by decide), if_pos rfl]
  · rw [hrest l hl16 hother, hled hl16, if_neg hne, hrest₁ l hl16 hother]

theorem pins_never_interfere_two :
    ∃ g', (gpioInitDefault ⟨⟨0, 0, 0⟩, ⟨0, 0, 0⟩, []⟩).bind
        (gpioInitPins [(3, .outPP), (19, .ipu), (3, .afOD)]) = some g' ∧
      g'.fieldAt (.b, 3) = 0b0011 ∧ g'.fieldAt (.b, 4) = 0 := by
  have hcalls : ∀ c ∈ ([(3, .outPP), (19, .ipu), (3, .afOD)] : List (UInt8 × GpioMode)),
      c.1 < 20 := by decide
  obtain ⟨g', hrun, -, hled, hrest⟩ :=
    pins_never_interfere hcalls ⟨⟨0, 0, 0⟩, ⟨0, 0, 0⟩, []⟩
  exact ⟨g', hrun, hled, hrest (.b, 4) (by decide) (forall_pin (by decide)) (by decide)⟩

end Not232
