import Not232.MsbFirst
import Not232.ShiftSlave
import Not232.Spi

/-!
# What an SPI transfer exchanges

The slave sees the samples of the port since the transfer began. Either loop of the master hands it
one bit a turn and takes one from it, which is the step that the transfers of bytes and of buffers
repeat.
-/

namespace Not232

open ShiftLink

namespace SpiBus

/-- Three different pins of port A. -/
structure Wired (e : SpiBus) : Prop where
  sck : e.sckPin < 16
  mosi : e.mosiPin < 16
  miso : e.misoPin < 16
  sck_ne_mosi : e.sckPin ≠ e.mosiPin
  sck_ne_miso : e.sckPin ≠ e.misoPin
  mosi_ne_miso : e.mosiPin ≠ e.misoPin

def wires (e : SpiBus) (outdr : UInt32) : Wires :=
  ⟨pinLevel outdr e.sckPin, pinLevel outdr e.mosiPin⟩

/-- The mode of a link by the mode byte. -/
def linkMode (mode : UInt8) : Mode := ⟨decide (1 < mode), mode &&& 1 != 0⟩

/-- From `s₀` on the slave presents the bits in turn. -/
def Answers (e : SpiBus) (m : Mode) (s₀ : PortA) (bits : List Bool) : Prop :=
  ∀ samples k bit, m.presented (m.observe (samples.map e.wires)) = some k → bits[k]? = some bit →
    pinLevel (e.indr (samples ++ s₀.trace)) e.misoPin = bit

/-- The slave is in the state `r`, and the master drives `d` to it. -/
structure Linked (e : SpiBus) (m : Mode) (s₀ : PortA) (r : Shift) (d : Bool) (s : PortA) :
    Prop where
  observed : ∃ samples, s.trace = samples ++ s₀.trace ∧ m.observe (samples.map e.wires) = r
  mosi : pinLevel s.outdr e.mosiPin = d
  sck : (pinLevel s.outdr e.sckPin != m.idle) = r.active

/-! ### Writes and reads of one pin -/

theorem pinMask16_eq {pin : UInt8} (hpin : pin < 16) :
    (pinMask16 pin).toUInt32 = pinMask pin := by
  have hall : ∀ n < 16, (pinMask16 (UInt8.ofNat n)).toUInt32 = pinMask (UInt8.ofNat n) := by decide
  have hmask := hall pin.toNat hpin
  rwa [UInt8.ofNat_toNat] at hmask

theorem gpioWriteFast_eq {pin : UInt8} (hpin : pin < 16) (level : UInt8) (s : PortA) :
    ∃ outdr, gpioWriteFast (pinMask16 pin) level s = PortA.tick { s with outdr := outdr } ∧
      ∀ p < 16, pinLevel outdr p = if pin = p then level != 0 else pinLevel s.outdr p := by
  refine ⟨_, ?_, fun p hp => pinLevel_drive hpin hp (level != 0) s.outdr⟩
  rw [gpioWriteFast, pinMask16_eq hpin]
  by_cases hlevel : level ≠ 0
  · rw [if_pos hlevel, if_pos (bne_iff_ne.mpr hlevel)]
    rfl
  · rw [if_neg hlevel, if_neg (mt bne_iff_ne.mp hlevel)]
    rfl

theorem gpioReadFast_eq (indr : Indr) {pin : UInt8} (hpin : pin < 16) (s : PortA) :
    gpioReadFast indr (pinMask16 pin) s = if pinLevel (indr s.trace) pin then 1 else 0 := by
  have hlt := toNat_lt_width hpin (by decide)
  have hmask : bit (indr s.trace &&& pinMask pin) pin.toNat = pinLevel (indr s.trace) pin := by
    rw [bit_and, bit_pinMask hlt, decide_eq_true rfl, Bool.and_true, pinLevel_eq]
  rw [gpioReadFast, pinMask16_eq hpin]
  cases hlevel : pinLevel (indr s.trace) pin with
  | true =>
    have hne : indr s.trace &&& pinMask pin ≠ 0 := by
      intro hzero
      rw [hzero, hlevel] at hmask
      simp [bit] at hmask
    rw [if_pos hne, if_pos rfl]
  | false =>
    have hzero : indr s.trace &&& pinMask pin = 0 := by
      apply UInt32.toBitVec_inj.mp
      apply BitVec.eq_of_getLsbD_eq
      intro i hi
      change bit (indr s.trace &&& pinMask pin) i = _
      by_cases hsame : pin.toNat = i
      · rw [← hsame, hmask, hlevel]
        simp
      · rw [bit_and, bit_pinMask hlt, decide_eq_false hsame, Bool.and_false]
        simp
    rw [hzero, if_neg (fun h => h rfl), if_neg Bool.false_ne_true]

/-! ### The slave behind each step of the master -/

variable {e : SpiBus} {m : Mode} {s₀ s : PortA} {r : Shift} {d : Bool} {answers bits : List Bool}

theorem Linked.write (hs : e.Linked m s₀ r d s) (outdr : UInt32) :
    e.Linked m s₀ (m.sample (e.wires outdr) r) (pinLevel outdr e.mosiPin)
      (PortA.tick { s with outdr := outdr }) := by
  obtain ⟨samples, htrace, hobserved⟩ := hs.observed
  refine ⟨⟨outdr :: samples, congrArg (List.cons outdr) htrace, ?_⟩, rfl, ?_⟩
  · rw [← hobserved]
    rfl
  · exact (Mode.active_sample m (e.wires outdr) r).symm

theorem Linked.tick (hs : e.Linked m s₀ r d s) : e.Linked m s₀ r d s.tick := by
  have hwrite := hs.write s.outdr
  rw [Mode.sample_hold hs.sck, hs.mosi] at hwrite
  exact hwrite

theorem Linked.delay (hs : e.Linked m s₀ r d s) (n : ℕ) : e.Linked m s₀ r d (s.delay n) :=
  PortA.delay_of_tick (fun _ h => h.tick) n hs

theorem Linked.driveMosi (he : e.Wired) (hs : e.Linked m s₀ r d s) (out : UInt8) :
    e.Linked m s₀ r (out &&& 0x80 != 0) (e.driveMosi out s) := by
  obtain ⟨outdr, hwrite, hlevel⟩ :=
    gpioWriteFast_eq he.mosi (if out &&& 0x80 ≠ 0 then 1 else 0) s
  have hsck : pinLevel outdr e.sckPin = pinLevel s.outdr e.sckPin := by
    rw [hlevel _ he.sck, if_neg he.sck_ne_mosi.symm]
  have hmosi : pinLevel outdr e.mosiPin = (out &&& 0x80 != 0) := by
    rw [hlevel _ he.mosi, if_pos rfl]
    by_cases hbit : out &&& 0x80 = 0 <;> simp [hbit]
  have hlinked := hs.write outdr
  have hhold : m.sample (e.wires outdr) r = r := by
    apply Mode.sample_hold
    rw [← hs.sck, ← hsck]
    rfl
  rw [hhold, hmosi] at hlinked
  rw [SpiBus.driveMosi, hwrite]
  exact hlinked

theorem Linked.driveSck (he : e.Wired) (hs : e.Linked m s₀ r d s) {level : UInt8} {c : Bool}
    (hc : (level != 0) = c) (delay : UInt32) :
    e.Linked m s₀ (m.sample ⟨c, d⟩ r) d (e.driveSck level delay s) := by
  obtain ⟨outdr, hwrite, hlevel⟩ := gpioWriteFast_eq he.sck level s
  have hsck : pinLevel outdr e.sckPin = c := by rw [hlevel _ he.sck, if_pos rfl, hc]
  have hmosi : pinLevel outdr e.mosiPin = d := by
    rw [hlevel _ he.mosi, if_neg he.sck_ne_mosi, hs.mosi]
  have hlinked := hs.write outdr
  rw [wires, hsck, hmosi] at hlinked
  rw [SpiBus.driveSck, hwrite]
  exact hlinked.delay _

theorem Linked.read (he : e.Wired) (hs : e.Linked m s₀ r d s) (hanswers : e.Answers m s₀ answers)
    {k : ℕ} {bit : Bool} (hk : m.presented r = some k) (hbit : answers[k]? = some bit) :
    gpioReadFast e.indr (pinMask16 e.misoPin) s = if bit then 1 else 0 := by
  obtain ⟨samples, htrace, hobserved⟩ := hs.observed
  have hlevel := hanswers samples k bit (by rw [hobserved, hk]) hbit
  rw [gpioReadFast_eq e.indr he.miso, htrace, hlevel]

/-! ### Turns, bytes and buffers -/

/-- The slave has taken the bits so far and waits for the next one. -/
def Ready (e : SpiBus) (m : Mode) (s₀ : PortA) (bits : List Bool) (s : PortA) : Prop :=
  ∃ d, e.Linked m s₀ (Shift.after bits) d s

/-- A turn hands the next bit to the slave and takes one from it. -/
def Exchanges (e : SpiBus) (m : Mode) (s₀ : PortA) (answers : List Bool)
    (turn : SpiByte → SpiByte) : Prop :=
  ∀ bits bit r, e.Ready m s₀ bits r.port → answers[bits.length]? = some bit →
    ∃ port, turn r = ⟨r.out <<< 1, pushBit r.inp bit, port⟩ ∧
      e.Ready m s₀ (bits ++ [r.out &&& 0x80 != 0]) port

theorem turnLeading_exchanges (he : e.Wired) (hcpha : m.cpha = false) {active idle : UInt8}
    (hactive : (active != 0) = !m.idle) (hidle : (idle != 0) = m.idle)
    (hanswers : e.Answers m s₀ answers) (delay : UInt32) :
    e.Exchanges m s₀ answers (e.turnLeading active idle delay) := by
  rintro bits bit r ⟨d, hs⟩ hbit
  obtain ⟨hlead, htrail⟩ :=
    Mode.sample_leading_first hcpha bits (r.out &&& 0x80 != 0) (r.out &&& 0x80 != 0)
  have hhigh := (hs.driveMosi he r.out).driveSck he hactive delay
  rw [hlead] at hhigh
  have hlow := hhigh.driveSck he hidle delay
  rw [htrail] at hlow
  have hpresented : m.presented ⟨true, bits.length + 1, bits.length,
      bits ++ [r.out &&& 0x80 != 0]⟩ = some bits.length := by
    rw [Mode.presented, hcpha]
    rfl
  refine ⟨_, ?_, _, hlow⟩
  rw [turnLeading, hhigh.read he hanswers hpresented hbit, pushBit]

theorem turnTrailing_exchanges (he : e.Wired) (hcpha : m.cpha = true) {active idle : UInt8}
    (hactive : (active != 0) = !m.idle) (hidle : (idle != 0) = m.idle)
    (hanswers : e.Answers m s₀ answers) (delay : UInt32) :
    e.Exchanges m s₀ answers (e.turnTrailing active idle delay) := by
  rintro bits bit r ⟨d, hs⟩ hbit
  obtain ⟨hlead, htrail⟩ := Mode.sample_trailing_second hcpha bits d (r.out &&& 0x80 != 0)
  have hhigh := hs.driveSck he hactive delay
  rw [hlead] at hhigh
  have hlow := (hhigh.driveMosi he r.out).driveSck he hidle delay
  rw [htrail] at hlow
  have hpresented : m.presented (Shift.after (bits ++ [r.out &&& 0x80 != 0])) =
      some bits.length := by
    rw [Mode.presented, hcpha, Shift.after, List.length_append]
    rfl
  refine ⟨_, ?_, _, hlow⟩
  rw [turnTrailing, hlow.read he hanswers hpresented hbit, pushBit]

/-- The slave has the bits `todo` to present behind the first `n`. -/
def Pending (answers : List Bool) (n : ℕ) (todo : List Bool) : Prop :=
  ∀ j bit, todo[j]? = some bit → answers[n + j]? = some bit

theorem Exchanges.iterate {turn : SpiByte → SpiByte} (hturn : e.Exchanges m s₀ answers turn)
    (todo : List Bool) {bits : List Bool} {r : SpiByte} (hs : e.Ready m s₀ bits r.port)
    (htodo : Pending answers bits.length todo) :
    (turn^[todo.length] r).inp = todo.foldl pushBit r.inp ∧
      e.Ready m s₀ (bits ++ topBits todo.length r.out) (turn^[todo.length] r).port := by
  induction todo generalizing bits r with
  | nil => exact ⟨rfl, by rwa [List.length_nil, topBits, List.append_nil]⟩
  | cons bit todo ih =>
    obtain ⟨port, hnext, hport⟩ := hturn bits bit r hs (htodo 0 bit rfl)
    rw [List.length_cons, Function.iterate_succ_apply, hnext, topBits, List.append_cons]
    apply ih hport
    intro j next hj
    have hanswer := htodo (j + 1) next hj
    rwa [List.length_append, List.length_singleton, Nat.add_assoc, Nat.add_comm 1 j]

/-- The levels of the clock by the mode byte. -/
theorem linkMode_levels (mode : UInt8) {idle : UInt8} (h : idle = if mode >>> 1 ≠ 0 then 1 else 0) :
    (idle != 0) = (linkMode mode).idle ∧ (idle ^^^ 1 != 0) = !(linkMode mode).idle := by
  have hcpol : mode >>> 1 ≠ 0 ↔ 1 < mode := by
    rw [ne_eq, ← UInt8.toNat_inj, UInt8.lt_iff_toNat_lt, UInt8.toNat_shiftRight]
    change ¬ mode.toNat >>> 1 = 0 ↔ 1 < mode.toNat
    rw [Nat.shiftRight_eq_div_pow]
    omega
  rw [h, linkMode]
  by_cases hmode : 1 < mode
  · rw [if_pos (hcpol.mpr hmode), decide_eq_true hmode]
    exact ⟨rfl, rfl⟩
  · rw [if_neg (mt hcpol.mp hmode), decide_eq_false hmode]
    exact ⟨rfl, rfl⟩

theorem spiXferByte_ready (he : e.Wired) {mode : UInt8}
    (hanswers : e.Answers (linkMode mode) s₀ answers) (out : UInt8) (delay : UInt32)
    (hs : e.Ready (linkMode mode) s₀ bits s) {byte : UInt8}
    (hbyte : Pending answers bits.length (msbFirst byte)) :
    (e.spiXferByteBbCh32 out mode delay s).1 = byte ∧
      e.Ready (linkMode mode) s₀ (bits ++ msbFirst out)
        (e.spiXferByteBbCh32 out mode delay s).2 := by
  set idle : UInt8 := if mode >>> 1 ≠ 0 then 1 else 0 with hdef
  obtain ⟨hidle, hactive⟩ := linkMode_levels mode hdef
  -- the clock is driven to the level it has
  have hstart : e.Ready (linkMode mode) s₀ bits (e.driveSck idle delay s) := by
    obtain ⟨d, hs⟩ := hs
    have hlinked := hs.driveSck he hidle delay
    have hhold : (linkMode mode).sample ⟨(linkMode mode).idle, d⟩ (Shift.after bits) =
        Shift.after bits := Mode.sample_hold (bne_self_eq_false _)
    rw [hhold] at hlinked
    exact ⟨d, hlinked⟩
  have hiterate : ∀ turn, e.Exchanges (linkMode mode) s₀ answers turn →
      (turn^[8] ⟨out, 0, e.driveSck idle delay s⟩).inp = byte ∧
        e.Ready (linkMode mode) s₀ (bits ++ msbFirst out)
          (turn^[8] ⟨out, 0, e.driveSck idle delay s⟩).port := by
    intro turn hturn
    obtain ⟨hinp, hport⟩ :=
      hturn.iterate (msbFirst byte) (r := ⟨out, 0, e.driveSck idle delay s⟩) hstart hbyte
    rw [foldl_pushBit] at hinp
    rw [length_msbFirst, topBits_eight] at hport
    exact ⟨hinp, hport⟩
  unfold spiXferByteBbCh32
  dsimp only
  by_cases hcpha : mode &&& 1 = 0
  · rw [if_pos hcpha]
    refine hiterate _ (turnLeading_exchanges he ?_ hactive hidle hanswers delay)
    exact bne_eq_false_iff_eq.mpr hcpha
  · rw [if_neg hcpha]
    refine hiterate _ (turnTrailing_exchanges he ?_ hactive hidle hanswers delay)
    exact bne_iff_ne.mpr hcpha

theorem xferBytes_ready (he : e.Wired) {mode : UInt8}
    (hanswers : e.Answers (linkMode mode) s₀ answers) (delay : UInt32) (out : List UInt8)
    {inp : List UInt8} (hlen : inp.length = out.length) {bits : List Bool} {s : PortA}
    (hs : e.Ready (linkMode mode) s₀ bits s)
    (hinp : Pending answers bits.length (inp.flatMap msbFirst)) :
    (e.xferBytes mode delay out s).1 = inp ∧
      e.Ready (linkMode mode) s₀ (bits ++ out.flatMap msbFirst)
        (e.xferBytes mode delay out s).2 := by
  induction out generalizing inp bits s with
  | nil =>
    rw [List.length_nil, List.length_eq_zero_iff] at hlen
    exact ⟨hlen.symm, by rwa [List.flatMap_nil, List.append_nil]⟩
  | cons byte out ih =>
    cases inp with
    | nil => cases hlen
    | cons answer inp =>
      rw [List.flatMap_cons] at hinp
      have hfirst : Pending answers bits.length (msbFirst answer) := fun j bit hj => by
        obtain ⟨hj8, -⟩ := List.getElem?_eq_some_iff.mp hj
        exact hinp j bit (by rwa [List.getElem?_append_left hj8])
      obtain ⟨hanswer, hready⟩ := spiXferByte_ready he hanswers byte delay hs hfirst
      have hrest : Pending answers (bits ++ msbFirst byte).length (inp.flatMap msbFirst) := by
        intro j bit hj
        have hnext := hinp (8 + j) bit (by
          rw [List.getElem?_append_right (Nat.le_add_right 8 j), length_msbFirst,
            Nat.add_sub_cancel_left, hj])
        rwa [List.length_append, length_msbFirst, Nat.add_assoc]
      obtain ⟨hbuffer, hend⟩ := ih (Nat.succ.inj hlen) hready hrest
      rw [List.append_assoc, ← List.flatMap_cons] at hend
      exact ⟨congrArg₂ List.cons hanswer hbuffer, hend⟩

/-! ### Transfers -/

/-- The loop of `spiWrite`. -/
def writeLoop (e : SpiBus) (mode : UInt8) (delay : UInt32) : (buffer : List UInt8) → PortA → PortA
  | [], s => s
  | byte :: rest, s => writeLoop e mode delay rest (e.spiXferByteBbCh32 byte mode delay s).2

/-- The loop of `spiRead`. -/
def readLoop (e : SpiBus) (mode writeValue : UInt8) (delay : UInt32) :
    (len : ℕ) → PortA → List UInt8 × PortA
  | 0, s => ([], s)
  | len + 1, s =>
    let r := e.spiXferByteBbCh32 writeValue mode delay s
    let rest := readLoop e mode writeValue delay len r.2
    (r.1 :: rest.1, rest.2)

theorem writeLoop_eq (e : SpiBus) (mode : UInt8) (delay : UInt32) (buffer : List UInt8)
    (s : PortA) : e.writeLoop mode delay buffer s = e.spiWrite mode delay buffer s := by
  induction buffer generalizing s with
  | nil => rfl
  | cons byte rest ih => exact ih _

theorem readLoop_eq (e : SpiBus) (mode writeValue : UInt8) (delay : UInt32) (len : ℕ)
    (s : PortA) :
    e.readLoop mode writeValue delay len s = e.spiRead mode writeValue delay len s := by
  induction len generalizing s with
  | zero => rfl
  | succ len ih =>
    rw [readLoop, ih]
    rfl

theorem xferBytes_append (e : SpiBus) (mode : UInt8) (delay : UInt32) (done rest : List UInt8)
    (s : PortA) :
    (e.xferBytes mode delay (done ++ rest) s).2 =
      (e.xferBytes mode delay rest (e.xferBytes mode delay done s).2).2 := by
  induction done generalizing s with
  | nil => rfl
  | cons byte done ih => exact ih _

theorem Ready.idle {bits : List Bool} (hs : e.Ready m s₀ bits s) :
    pinLevel s.outdr e.sckPin = m.idle := by
  obtain ⟨d, hs⟩ := hs
  exact bne_eq_false_iff_eq.mp hs.sck

/-- A slave of the same mode and a master exchange their buffers. -/
theorem spiWriteRead_exchanges (he : e.Wired) (mode : UInt8) (delay : UInt32)
    (outBuffer inBytes : List UInt8) (hlen : inBytes.length = outBuffer.length)
    (hidle : pinLevel s.outdr e.sckPin = (linkMode mode).idle)
    (hanswers : e.Answers (linkMode mode) s (inBytes.flatMap msbFirst)) :
    (e.spiWriteRead mode delay outBuffer s).1 = inBytes ∧
      (∃ samples, (e.spiWriteRead mode delay outBuffer s).2.trace = samples ++ s.trace ∧
        ((linkMode mode).observe (samples.map e.wires)).received = outBuffer.flatMap msbFirst) ∧
      (∀ done rest, outBuffer = done ++ rest →
        pinLevel (e.spiWriteRead mode delay done s).2.outdr e.sckPin = (linkMode mode).idle ∧
          (e.spiWriteRead mode delay outBuffer s).2 =
            (e.spiWriteRead mode delay rest (e.spiWriteRead mode delay done s).2).2) ∧
      e.writeLoop mode delay outBuffer s = (e.spiWriteRead mode delay outBuffer s).2 ∧
      ∀ writeValue len, e.readLoop mode writeValue delay len s =
        e.spiWriteRead mode delay (List.replicate len writeValue) s := by
  have hready : e.Ready (linkMode mode) s [] s := by
    refine ⟨pinLevel s.outdr e.mosiPin, ⟨[], rfl, rfl⟩, rfl, ?_⟩
    rw [hidle, bne_self_eq_false]
    rfl
  have hpending : ∀ inp rest : List UInt8, inBytes = inp ++ rest →
      Pending (inBytes.flatMap msbFirst) 0 (inp.flatMap msbFirst) := by
    intro inp rest happend j bit hj
    obtain ⟨hlt, -⟩ := List.getElem?_eq_some_iff.mp hj
    rw [happend, List.flatMap_append, Nat.zero_add, List.getElem?_append_left hlt, hj]
  obtain ⟨hbuffer, d, hend⟩ := xferBytes_ready he hanswers delay outBuffer hlen hready
    (hpending inBytes [] (List.append_nil inBytes).symm)
  obtain ⟨samples, htrace, hobserved⟩ := hend.observed
  refine ⟨hbuffer, ⟨samples, htrace, congrArg Shift.received hobserved⟩, fun done rest hout => ?_,
    writeLoop_eq e mode delay outBuffer s, fun writeValue len => readLoop_eq e mode writeValue delay
      len s⟩
  have hdone : (inBytes.take done.length).length = done.length := by
    rw [List.length_take, hlen, hout, List.length_append]
    omega
  obtain ⟨-, hmiddle⟩ := xferBytes_ready he hanswers delay done hdone hready
    (hpending _ _ (List.take_append_drop done.length inBytes).symm)
  refine ⟨hmiddle.idle, ?_⟩
  rw [hout]
  exact xferBytes_append e mode delay done rest s

/-- A bus with an ideal slave that presents `bits`. -/
def idealBus (sckPin mosiPin misoPin : UInt8) (m : Mode) (bits : List Bool) : SpiBus where
  sckPin := sckPin
  mosiPin := mosiPin
  misoPin := misoPin
  indr trace :=
    let shift := m.observe (trace.map fun outdr => ⟨pinLevel outdr sckPin, pinLevel outdr mosiPin⟩)
    if (m.presented shift).bind (bits[·]?) = some true then pinMask misoPin else 0

theorem idealBus_answers {sckPin mosiPin misoPin : UInt8} (hmiso : misoPin < 16) (m : Mode)
    (bits : List Bool) (outdr : UInt32) :
    (idealBus sckPin mosiPin misoPin m bits).Answers m ⟨outdr, []⟩ bits := by
  intro samples k bit hk hbit
  have hlt := toNat_lt_width hmiso (by decide)
  have hanswer : (m.presented (m.observe (samples.map fun outdr =>
      ⟨pinLevel outdr sckPin, pinLevel outdr mosiPin⟩))).bind (bits[·]?) = some bit :=
    (congrArg (Option.bind · (bits[·]?)) hk).trans hbit
  rw [List.append_nil]
  change pinLevel (if _ = some true then _ else _) misoPin = bit
  rw [hanswer]
  cases bit with
  | true => rw [if_pos rfl, pinLevel_eq, bit_pinMask hlt, decide_eq_true rfl]
  | false =>
    rw [if_neg (by simp), pinLevel_eq]
    simp [bit]

theorem spiWriteRead_exchanges_bytes :
    ((idealBus 5 7 6 (linkMode 3) ([0x81, 0x3C].flatMap msbFirst)).spiWriteRead 3 1 [0xF0, 0x55]
      ⟨pinMask 5, []⟩).1 = [0x81, 0x3C] :=
  (spiWriteRead_exchanges ⟨by decide, by decide, by decide, by decide, by decide, by decide⟩ 3 1
    [0xF0, 0x55] [0x81, 0x3C] rfl (by decide) (idealBus_answers (by decide) _ _ _)).1

end SpiBus

end Not232
