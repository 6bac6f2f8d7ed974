import Not232.Gpio
import Not232.Nibbles

/-!
# The pin setup of the peripheral library

`GPIO_Init` takes a set of pins and goes over the eight positions of either configuration register.
For an input with a pull resistor it also writes the output latch of the pin, which selects the
direction of the pull. The fast setup of one pin does not.
-/

namespace Not232

structure GpioInitTypeDef where
  pin : UInt16
  mode : GpioMode
  speed : UInt32

def gpioInitMode (mode : GpioMode) (speed : UInt32) : UInt32 :=
  let currentmode := mode.value &&& 0x0F
  if mode.value &&& 0x10 ≠ 0 then currentmode ||| speed else currentmode

/-- The write to the output latch that selects the pull of an input. -/
def gpioInitPull (gpio : GpioName) (mode : GpioMode) (mask : UInt32) (g : Gpio) : Gpio :=
  match mode with
  | .ipd => g.write gpio .bcr mask
  | .ipu => g.write gpio .bshr mask
  | _ => g

/-- One turn of the loop over a configuration register whose first pin is `first`. -/
def gpioInitTurn (gpio : GpioName) (init : GpioInitTypeDef) (first : UInt32) (r : UInt32 × Gpio)
    (pinpos : UInt32) : UInt32 × Gpio :=
  let pos := (1 : UInt32) <<< (pinpos + first)
  if init.pin.toUInt32 &&& pos = pos then
    let field := pinpos <<< 2
    let tmpreg := r.1 &&& ~~~((0x0F : UInt32) <<< field)
    (tmpreg ||| gpioInitMode init.mode init.speed <<< field, gpioInitPull gpio init.mode pos r.2)
  else r

def gpioInitLoop (gpio : GpioName) (init : GpioInitTypeDef) (first tmpreg : UInt32) (g : Gpio) :
    UInt32 × Gpio :=
  ([0, 1, 2, 3, 4, 5, 6, 7] : List UInt32).foldl (gpioInitTurn gpio init first) (tmpreg, g)

def gpioInitLow (gpio : GpioName) (init : GpioInitTypeDef) (g : Gpio) : Gpio :=
  let r := gpioInitLoop gpio init 0 (g.port gpio).cfglr g
  r.2.write gpio .cfglr r.1

def gpioInitHigh (gpio : GpioName) (init : GpioInitTypeDef) (g : Gpio) : Gpio :=
  let r := gpioInitLoop gpio init 8 (g.port gpio).cfghr g
  r.2.write gpio .cfghr r.1

def gpioInit (gpio : GpioName) (init : GpioInitTypeDef) (g : Gpio) : Gpio :=
  let g := if init.pin.toUInt32 &&& 0x00FF ≠ 0 then gpioInitLow gpio init g else g
  if init.pin > 0x00FF then gpioInitHigh gpio init g else g

/-! ### One pin of a register -/

/-- A loop in which only the turn at one position does anything is that turn. -/
theorem foldl_eq_of_unique {α β : Type*} {f : β → α → β} {k : α} {l : List α} (hl : l.Nodup)
    (hk : k ∈ l) (h : ∀ r, ∀ j ∈ l, j ≠ k → f r j = r) (r : β) : l.foldl f r = f r k := by
  obtain ⟨before, after, rfl⟩ := List.append_of_mem hk
  have hstay : ∀ (part : List α) (r : β), (∀ j ∈ part, j ∈ before ++ k :: after ∧ j ≠ k) →
      part.foldl f r = r := by
    intro part
    induction part with
    | nil => exact fun _ _ => rfl
    | cons j part ih =>
      intro r hpart
      obtain ⟨hmem, hne⟩ := hpart j List.mem_cons_self
      rw [List.foldl_cons, h r j hmem hne]
      exact ih r fun i hi => hpart i (List.mem_cons_of_mem j hi)
  obtain ⟨-, hafter, hdisjoint⟩ := List.nodup_append'.mp hl
  rw [List.foldl_append, List.foldl_cons]
  rw [hstay before r fun j hj =>
    ⟨List.mem_append_left _ hj, fun heq => hdisjoint (heq ▸ hj) List.mem_cons_self⟩]
  exact hstay after _ fun j hj =>
    ⟨List.mem_append_right _ (List.mem_cons_of_mem k hj), fun heq =>
      (List.nodup_cons.mp hafter).1 (heq ▸ hj)⟩

theorem gpioInitMode_field (mode : GpioMode) :
    gpioInitMode mode gpioSpeed50MHz &&& 0x0F = gpioInitMode mode gpioSpeed50MHz := by
  cases mode <;> decide

theorem forall_pin {count : UInt8} {P : UInt8 → Prop} (h : ∀ n < count.toNat, P (UInt8.ofNat n))
    (pin : UInt8) (hpin : pin < count) : P pin := by
  have hpin' := h pin.toNat hpin
  rwa [UInt8.ofNat_toNat] at hpin'

/-- The positions that a mask of one pin selects. -/
theorem selected_iff (pin : UInt8) (hpin : pin < 16) :
    (∀ j ∈ ([0, 1, 2, 3, 4, 5, 6, 7] : List UInt32),
      (((1 : UInt16) <<< pin.toUInt16).toUInt32 &&& 1 <<< (j + 0) = 1 <<< (j + 0) ↔
        j = pin.toUInt32) ∧
      (((1 : UInt16) <<< pin.toUInt16).toUInt32 &&& 1 <<< (j + 8) = 1 <<< (j + 8) ↔
        j = pin.toUInt32 - 8)) := by
  simp only [List.forall_mem_cons, List.not_mem_nil, false_implies, implies_true, and_true]
  revert pin
  exact forall_pin (by decide)

theorem high_iff (pin : UInt8) (hpin : pin < 16) :
    ((1 : UInt16) <<< pin.toUInt16 > 0x00FF ↔ ¬ pin < 8) ∧
      (((1 : UInt16) <<< pin.toUInt16).toUInt32 &&& 0x00FF ≠ 0 ↔ pin < 8) := by
  revert pin
  exact forall_pin (by decide)

theorem position_mem (pin : UInt8) (hpin : pin < 16) :
    (pin < 8 → pin.toUInt32 ∈ ([0, 1, 2, 3, 4, 5, 6, 7] : List UInt32) ∧
      (1 : UInt32) <<< (pin.toUInt32 + 0) = pinMask pin) ∧
    (¬ pin < 8 → pin.toUInt32 - 8 ∈ ([0, 1, 2, 3, 4, 5, 6, 7] : List UInt32) ∧
      (1 : UInt32) <<< (pin.toUInt32 - 8 + 8) = pinMask pin) := by
  revert pin
  exact forall_pin (by decide)

theorem gpioInitLoop_eq (gpio : GpioName) {init : GpioInitTypeDef} {first k : UInt32}
    (hk : k ∈ ([0, 1, 2, 3, 4, 5, 6, 7] : List UInt32))
    (hselected : ∀ j ∈ ([0, 1, 2, 3, 4, 5, 6, 7] : List UInt32),
      (init.pin.toUInt32 &&& 1 <<< (j + first) = 1 <<< (j + first) ↔ j = k))
    (tmpreg : UInt32) (g : Gpio) :
    gpioInitLoop gpio init first tmpreg g =
      (setNibble tmpreg k (gpioInitMode init.mode init.speed),
        gpioInitPull gpio init.mode (1 <<< (k + first)) g) := by
  have hother : ∀ r, ∀ j ∈ ([0, 1, 2, 3, 4, 5, 6, 7] : List UInt32), j ≠ k →
      gpioInitTurn gpio init first r j = r := by
    intro r j hj hne
    rw [gpioInitTurn, if_neg (mt (hselected j hj).mp hne)]
  rw [gpioInitLoop, foldl_eq_of_unique (by decide) hk hother, gpioInitTurn,
    if_pos ((hselected k hk).mpr rfl)]
  rfl

/-- Replaces the configuration field of a pin. -/
def Gpio.setField (gpio : GpioName) (pin : UInt8) (field : UInt32) (g : Gpio) : Gpio :=
  if pin < 8 then g.write gpio .cfglr (setNibble (g.port gpio).cfglr pin.toUInt32 field)
  else g.write gpio .cfghr (setNibble (g.port gpio).cfghr (pin.toUInt32 - 8) field)

theorem gpioBaseInitPins_eq (gpio : GpioName) {pin : UInt8} (hpin : pin < 16) (mode : GpioMode)
    (g : Gpio) :
    gpioBaseInitPins gpio pin mode g = g.setField gpio pin (gpioInitMode mode gpioSpeed50MHz) := by
  have hhigh := (high_iff pin hpin).1
  unfold gpioBaseInitPins Gpio.setField
  by_cases hlow : pin < 8
  · simp only [decide_eq_false (mt hhigh.mp (not_not_intro hlow)), Bool.false_eq_true, if_false,
      if_pos hlow]
    rfl
  · simp only [decide_eq_true (hhigh.mpr hlow), if_true, if_neg hlow]
    rfl

theorem registers_gpioInitPull (gpio : GpioName) (mode : GpioMode) (mask : UInt32) (g : Gpio)
    (name : GpioName) :
    ((gpioInitPull gpio mode mask g).port name).cfglr = (g.port name).cfglr ∧
      ((gpioInitPull gpio mode mask g).port name).cfghr = (g.port name).cfghr := by
  cases mode <;> cases gpio <;> cases name <;> exact ⟨rfl, rfl⟩

theorem gpioInit_eq (gpio : GpioName) {pin : UInt8} (hpin : pin < 16) (mode : GpioMode)
    (speed : UInt32) (g : Gpio) :
    gpioInit gpio ⟨1 <<< pin.toUInt16, mode, speed⟩ g =
      (gpioInitPull gpio mode (pinMask pin) g).setField gpio pin (gpioInitMode mode speed) := by
  obtain ⟨hhigh, hlow⟩ := high_iff pin hpin
  obtain ⟨hcfglr, hcfghr⟩ := registers_gpioInitPull gpio mode (pinMask pin) g gpio
  unfold gpioInit
  by_cases hpin8 : pin < 8
  · obtain ⟨hmem, hmask⟩ := (position_mem pin hpin).1 hpin8
    rw [if_pos (hlow.mpr hpin8), if_neg (mt hhigh.mp (not_not_intro hpin8)), gpioInitLow,
      gpioInitLoop_eq gpio hmem (fun j hj => (selected_iff pin hpin j hj).1), hmask,
      Gpio.setField, if_pos hpin8, hcfglr]
  · obtain ⟨hmem, hmask⟩ := (position_mem pin hpin).2 hpin8
    rw [if_neg (mt hlow.mp hpin8), if_pos (hhigh.mpr hpin8), gpioInitHigh,
      gpioInitLoop_eq gpio hmem (fun j hj => (selected_iff pin hpin j hj).2), hmask,
      Gpio.setField, if_neg hpin8, hcfghr]

/-! ### The pull of an input -/

/-- The level of the output latch that the pull of a mode asks for. -/
def PullLatched (mode : GpioMode) (level : Bool) : Prop :=
  match mode with
  | .ipd => level = false
  | .ipu => level = true
  | _ => True

instance (mode : GpioMode) (level : Bool) : Decidable (PullLatched mode level) :=
  match mode with
  | .ipd => inferInstanceAs (Decidable (level = false))
  | .ipu => inferInstanceAs (Decidable (level = true))
  | .ain | .inFloating | .outOD | .outPP | .afOD | .afPP => inferInstanceAs (Decidable True)

theorem bcr_eq_self_iff {pin : UInt8} (hpin : pin < 16) (outdr : UInt32) :
    bcr (pinMask pin) outdr = outdr ↔ pinLevel outdr pin = false := by
  constructor
  · intro hsame
    rw [← hsame, pinLevel_bcr_self hpin]
  · intro hlevel
    apply UInt32.toBitVec_inj.mp
    apply BitVec.eq_of_getLsbD_eq
    intro i hi
    change bit (bcr (pinMask pin) outdr) i = bit outdr i
    have hpin32 := toNat_lt_width hpin (by decide)
    rw [bcr, bit_and, bit_not _ hi, bit_and, bit_pinMask hpin32]
    by_cases hsame : pin.toNat = i
    · rw [← hsame, ← pinLevel_eq, hlevel, Bool.false_and]
    · rw [decide_eq_false hsame, Bool.false_and, Bool.not_false, Bool.and_true]

theorem bshr_eq_self_iff {pin : UInt8} (hpin : pin < 16) (outdr : UInt32) :
    bshr (pinMask pin) outdr = outdr ↔ pinLevel outdr pin = true := by
  constructor
  · intro hsame
    rw [← hsame, pinLevel_bshr_self hpin]
  · intro hlevel
    apply UInt32.toBitVec_inj.mp
    apply BitVec.eq_of_getLsbD_eq
    intro i hi
    change bit (bshr (pinMask pin) outdr) i = bit outdr i
    have hpin16 : pin.toNat < 16 := hpin
    have hpin32 := toNat_lt_width hpin (by decide)
    have hne : pin.toNat ≠ i + 16 := by omega
    rw [bshr, bit_or, bit_and, bit_not _ hi, bit_shiftRight_16, bit_and, bit_low,
      bit_pinMask hpin32, bit_pinMask hpin32, decide_eq_false hne, Bool.not_false, Bool.and_true]
    by_cases hsame : pin.toNat = i
    · rw [← hsame, ← pinLevel_eq, hlevel, Bool.true_or]
    · rw [decide_eq_false hsame, Bool.false_and, Bool.or_false]

theorem gpioInitPull_eq_iff (gpio : GpioName) {pin : UInt8} (hpin : pin < 16) (mode : GpioMode)
    (g : Gpio) :
    ((gpioInitPull gpio mode (pinMask pin) g).port gpio).outdr = (g.port gpio).outdr ↔
      PullLatched mode (pinLevel (g.port gpio).outdr pin) := by
  cases mode with
  | ipd => cases gpio <;> exact bcr_eq_self_iff hpin _
  | ipu => cases gpio <;> exact bshr_eq_self_iff hpin _
  | _ => exact iff_of_true rfl trivial

/-! ### The two setups -/

theorem setField_port (gpio : GpioName) (pin : UInt8) (field : UInt32) (g : Gpio)
    (name : GpioName) :
    (g.setField gpio pin field).port name =
      if name = gpio then
        if pin < 8 then
          { g.port gpio with cfglr := setNibble (g.port gpio).cfglr pin.toUInt32 field }
        else { g.port gpio with cfghr := setNibble (g.port gpio).cfghr (pin.toUInt32 - 8) field }
      else g.port name := by
  unfold Gpio.setField
  by_cases hlow : pin < 8
  · simp only [if_pos hlow]
    cases gpio <;> cases name <;> rfl
  · simp only [if_neg hlow]
    cases gpio <;> cases name <;> rfl

theorem outdr_setField (gpio : GpioName) (pin : UInt8) (field : UInt32) (g : Gpio)
    (name : GpioName) : ((g.setField gpio pin field).port name).outdr = (g.port name).outdr := by
  rw [setField_port]
  by_cases hname : name = gpio
  · subst hname
    rw [if_pos rfl]
    split <;> rfl
  · rw [if_neg hname]

/-- The configuration registers are those of the library for every mode. -/
theorem config_gpioBaseInitPins (gpio : GpioName) {pin : UInt8} (hpin : pin < 16) (mode : GpioMode)
    (g : Gpio) (name : GpioName) :
    let fast := (gpioBaseInitPins gpio pin mode g).port name
    let library := (gpioInit gpio ⟨1 <<< pin.toUInt16, mode, gpioSpeed50MHz⟩ g).port name
    fast = { library with outdr := fast.outdr } := by
  obtain ⟨hcfglr, hcfghr⟩ := registers_gpioInitPull gpio mode (pinMask pin) g name
  dsimp only
  rw [gpioBaseInitPins_eq gpio hpin, gpioInit_eq gpio hpin, setField_port, setField_port]
  by_cases hname : name = gpio
  · subst hname
    rw [if_pos rfl, if_pos rfl]
    by_cases hlow : pin < 8
    · simp only [if_pos hlow, hcfglr, hcfghr]
    · simp only [if_neg hlow, hcfglr, hcfghr]
  · simp only [if_neg hname]
    rw [hcfglr, hcfghr]

/-- The two setups leave the same registers exactly when the output latch of the pin already has
the level that the pull asks for. -/
theorem gpioBaseInitPins_eq_gpioInit_iff (gpio : GpioName) {pin : UInt8} (hpin : pin < 16)
    (mode : GpioMode) (g : Gpio) :
    (∀ name, (gpioBaseInitPins gpio pin mode g).port name =
        (gpioInit gpio ⟨1 <<< pin.toUInt16, mode, gpioSpeed50MHz⟩ g).port name) ↔
      PullLatched mode (pinLevel (g.port gpio).outdr pin) := by
  rw [← gpioInitPull_eq_iff gpio hpin]
  have houtdr : ∀ name, ((gpioBaseInitPins gpio pin mode g).port name).outdr =
      (g.port name).outdr := fun name => by rw [gpioBaseInitPins_eq gpio hpin, outdr_setField]
  have hpull : ∀ name,
      ((gpioInit gpio ⟨1 <<< pin.toUInt16, mode, gpioSpeed50MHz⟩ g).port name).outdr =
        ((gpioInitPull gpio mode (pinMask pin) g).port name).outdr := fun name => by
    rw [gpioInit_eq gpio hpin, outdr_setField]
  constructor
  · intro hsame
    rw [← hpull, ← hsame, houtdr]
  · intro hlatch name
    have hother : ((gpioInitPull gpio mode (pinMask pin) g).port name).outdr =
        (g.port name).outdr := by
      by_cases hname : name = gpio
      · rw [hname, hlatch]
      · cases mode <;> cases gpio <;> cases name <;> first | rfl | exact absurd rfl hname
    rw [config_gpioBaseInitPins gpio hpin mode g name, houtdr, ← hother, ← hpull]

theorem gpioBaseInitPins_eq_gpioInit_pullUp :
    let g : Gpio := ⟨⟨0x44444444, 0x44444444, 0x20⟩, ⟨0x44444444, 0x44444444, 0⟩, []⟩
    ∀ name, (gpioBaseInitPins .a 5 .ipu g).port name =
      (gpioInit .a ⟨1 <<< (5 : UInt8).toUInt16, .ipu, gpioSpeed50MHz⟩ g).port name :=
  (gpioBaseInitPins_eq_gpioInit_iff .a (show (5 : UInt8) < 16 by decide) .ipu
    ⟨⟨0x44444444, 0x44444444, 0x20⟩, ⟨0x44444444, 0x44444444, 0⟩, []⟩).mpr (by decide)

/-- An input with a pull up whose latch is low is pulled down by the fast setup. -/
theorem gpioBaseInitPins_pulls_down :
    let g : Gpio := ⟨⟨0x44444444, 0x44444444, 0⟩, ⟨0x44444444, 0x44444444, 0⟩, []⟩
    let fast := (gpioBaseInitPins .a 5 .ipu g).port .a
    let library := (gpioInit .a ⟨1 <<< (5 : UInt8).toUInt16, .ipu, gpioSpeed50MHz⟩ g).port .a
    fast ≠ library ∧ pinLevel fast.outdr 5 = false ∧ pinLevel library.outdr 5 = true := by
  decide

end Not232
