import Not232.BusObserver
import Not232.I2c
import Not232.MsbFirst

/-!
# What an I2C write puts on the bus

The master changes the data line only while the clock is low, but for start conditions. Between two
bits the bus is in a state `Low`, once the data line has been written it is `Settled`, and while the
clock is high it is `High`; each bit of the master goes through these states and is one clock to an
observer, and a byte is eight clocks and one for the slave to acknowledge it.
-/

namespace Not232

open TwoWire

namespace I2cBus

/-- The clock is low and has been sampled so. -/
structure Low (e : I2cBus) (o : Observation) (s : I2cState) : Prop where
  observed : observe s.trace = o
  scl : pinLevel s.outdr e.scl = false
  sampled : ∃ x trace, s.trace = x :: trace ∧ x.scl = false

/-- The clock has been low for two samples, and the master drives the data line to `d`. -/
structure Settled (e : I2cBus) (o : Observation) (d : Bool) (s : I2cState) : Prop where
  observed : observe s.trace = o
  sda : pinLevel s.outdr e.sda = d
  scl : pinLevel s.outdr e.scl = false
  sampled : ∃ x y trace, s.trace = x :: y :: trace ∧ x.scl = false ∧ y.scl = false

/-- The clock is high, and the master and the slave drive the data line to `d` and `v`. -/
structure High (e : I2cBus) (o : Observation) (d v : Bool) (s : I2cState) : Prop where
  observed : observe s.trace = o
  sda : pinLevel s.outdr e.sda = d
  scl : pinLevel s.outdr e.scl = true
  slave : e.slave s.trace = v
  sampled : ∃ trace, s.trace = ⟨d && v, true⟩ :: trace

variable {e : I2cBus} {o : Observation} {d v : Bool} {s : I2cState}

theorem Settled.low (hs : e.Settled o d s) : e.Low o s := by
  obtain ⟨x, y, trace, htrace, hx, -⟩ := hs.sampled
  exact ⟨hs.observed, hs.scl, x, y :: trace, htrace, hx⟩

/-- A sample of the low clock on which the master drives `d`. -/
theorem Low.settle (hs : e.Low o s) {outdr : UInt32} (hsda : pinLevel outdr e.sda = d)
    (hscl : pinLevel outdr e.scl = false) : e.Settled o d (e.tick { s with outdr := outdr }) := by
  obtain ⟨x, trace, htrace, hx⟩ := hs.sampled
  refine ⟨?_, hsda, hscl, _, x, trace, congrArg (List.cons _) htrace, hscl, hx⟩
  exact (observe_low hscl).trans hs.observed

theorem Low.tick (hs : e.Low o s) : e.Low o (e.tick s) := (hs.settle rfl hs.scl).low

theorem Low.i2cDelay (hs : e.Low o s) (n : UInt32) : e.Low o (e.i2cDelay n s) :=
  i2cDelay_of_tick (fun _ h => h.tick) n hs

theorem Settled.i2cDelay (hs : e.Settled o d s) (n : UInt32) :
    e.Settled o d (e.i2cDelay n s) :=
  i2cDelay_of_tick (fun _ h => h.low.settle h.sda h.scl) n hs

/-- The master writes the data line while the clock is low. -/
theorem Low.write_sda (he : e.Wired) (hs : e.Low o s) (d : Bool) :
    e.Settled o d (if d then e.writeBshr (pinMask e.sda) s else e.writeBcr (pinMask e.sda) s) := by
  cases d with
  | true =>
    refine hs.settle ?_ ?_
    · exact pinLevel_bshr_self he.sda _
    · rw [pinLevel_bshr_of_ne he.sda he.scl he.ne, hs.scl]
  | false =>
    refine hs.settle ?_ ?_
    · exact pinLevel_bcr_self he.sda _
    · rw [pinLevel_bcr_of_ne he.sda he.scl he.ne, hs.scl]

/-- A rising clock samples a bit. -/
theorem Settled.rise (he : e.Wired) (hobeys : Obeys e.slave) (hs : e.Settled o d s) :
    e.High (o.clock (d && e.slave s.trace)) d (e.slave s.trace)
      (e.writeBshr (pinMask e.scl) s) := by
  obtain ⟨x, y, trace, htrace, hx, -⟩ := hs.sampled
  have hsda : pinLevel (bshr (pinMask e.scl) s.outdr) e.sda = d := by
    rw [pinLevel_bshr_of_ne he.scl he.sda he.ne.symm, hs.sda]
  have hscl := pinLevel_bshr_self he.scl s.outdr
  have hwires : (e.writeBshr (pinMask e.scl) s).trace =
      ⟨d && e.slave s.trace, true⟩ :: s.trace := by
    change (⟨_ && _, _⟩ : Wires) :: _ = _
    rw [hsda, hscl]
  refine ⟨?_, hsda, hscl, ?_, s.trace, hwires⟩
  · rw [hwires, ← hs.observed, htrace, observe_rise rfl hx]
  · rw [hwires, hobeys _ _ rfl]

theorem High.tick (hobeys : Obeys e.slave) (hs : e.High o d v s) : e.High o d v (e.tick s) := by
  obtain ⟨trace, htrace⟩ := hs.sampled
  have hwires : (e.tick s).trace = ⟨d && v, true⟩ :: s.trace := by
    change (⟨_ && _, _⟩ : Wires) :: _ = _
    rw [hs.sda, hs.slave, hs.scl]
  refine ⟨?_, hs.sda, hs.scl, ?_, s.trace, hwires⟩
  · rw [hwires, htrace, observe_hold, ← htrace, hs.observed]
  · rw [hwires, hobeys _ _ rfl, hs.slave]

theorem High.i2cDelay (hobeys : Obeys e.slave) (hs : e.High o d v s) (n : UInt32) :
    e.High o d v (e.i2cDelay n s) :=
  i2cDelay_of_tick (fun _ h => h.tick hobeys) n hs

theorem High.fall (he : e.Wired) (hs : e.High o d v s) :
    e.Low o (e.writeBcr (pinMask e.scl) s) := by
  have hscl := pinLevel_bcr_self he.scl s.outdr
  exact ⟨(observe_low hscl).trans hs.observed, hscl, _, s.trace, rfl, hscl⟩

/-- The slave presents its level to a settled bus. -/
theorem Settled.slave_eq {level : Observation → Bool} (hslave : Presents e.slave level)
    (hs : e.Settled o d s) : e.slave s.trace = level o := by
  obtain ⟨x, y, trace, htrace, hx, hy⟩ := hs.sampled
  rw [← hs.observed, htrace, hslave.settles x y trace hx hy]

/-- A pulse of the clock on a settled bus, with the levels while it is high. -/
theorem Settled.pulse (he : e.Wired) {level : Observation → Bool} (hslave : Presents e.slave level)
    (delay : UInt32) (hs : e.Settled o d s) :
    e.High (o.clock (d && level o)) d (level o)
        (e.i2cDelay delay (e.writeBshr (pinMask e.scl) s)) ∧
      e.Low (o.clock (d && level o)) (e.i2cDelay delay (e.writeBcr (pinMask e.scl)
        (e.i2cDelay delay (e.writeBshr (pinMask e.scl) s)))) := by
  have hhigh := (hs.rise he hslave.obeys).i2cDelay hslave.obeys delay
  rw [hs.slave_eq hslave] at hhigh
  exact ⟨hhigh, (hhigh.fall he).i2cDelay delay⟩

/-! ### Start conditions -/

/-- Both lines are released, and the start condition follows. -/
def beforeStart (e : I2cBus) (delay : UInt32) (s : I2cState) : I2cState :=
  e.i2cDelay delay (e.writeBshr (pinMask e.scl)
    (e.i2cDelay delay (e.writeBshr (pinMask e.sda) s)))

theorem i2cStart_low (he : e.Wired) (hobeys : Obeys e.slave) (delay : UInt32) (s : I2cState)
    (hfree : (e.beforeStart delay s).trace.head? = some ⟨true, true⟩) :
    e.Low ((observe (e.beforeStart delay s).trace).condition .start) (e.i2cStart delay s) := by
  set s' := e.beforeStart delay s with hs'
  obtain ⟨trace, htrace⟩ : ∃ trace, s'.trace = ⟨true, true⟩ :: trace :=
    ⟨_, List.eq_cons_of_mem_head? hfree⟩
  have hsda := pinLevel_bcr_self he.sda s'.outdr
  have hscl : pinLevel (bcr (pinMask e.sda) s'.outdr) e.scl = true := by
    rw [pinLevel_bcr_of_ne he.sda he.scl he.ne, hs', beforeStart, outdr_i2cDelay,
      outdr_writeBshr, pinLevel_bshr_self he.scl]
  have hwires : (e.writeBcr (pinMask e.sda) s').trace = ⟨false, true⟩ :: s'.trace := by
    change (⟨_ && _, _⟩ : Wires) :: _ = _
    rw [hsda, hscl, Bool.false_and]
  have hhigh : e.High ((observe s'.trace).condition .start) false (e.slave s'.trace)
      (e.writeBcr (pinMask e.sda) s') := by
    refine ⟨?_, hsda, hscl, ?_, s'.trace, hwires⟩
    · rw [hwires, htrace, observe_start]
    · rw [hwires, hobeys _ _ rfl]
  exact ((hhigh.i2cDelay hobeys delay).fall he).i2cDelay delay

/-- A start condition on a bus whose clock is low comes after one more clock. -/
theorem Low.beforeStart (he : e.Wired) {level : Observation → Bool}
    (hslave : Presents e.slave level) (delay : UInt32) (hs : e.Low o s) (hlevel : level o = true) :
    e.High (o.clock true) true true (e.beforeStart delay s) := by
  have hrise := (((hs.write_sda he true).i2cDelay delay).pulse he hslave delay).1
  rw [hlevel] at hrise
  exact hrise

theorem High.head (hs : e.High o true true s) : s.trace.head? = some ⟨true, true⟩ := by
  obtain ⟨trace, htrace⟩ := hs.sampled
  rw [htrace]
  rfl

/-! ### Bytes -/

/-- A slave that is receiving pulls the data line in the ninth clock only. -/
def Listens (level : Observation → Bool) (events : List BusEvent) : Prop :=
  ∀ bits, bits.length ≠ 8 → level ⟨bits, events⟩ = true

/-- A byte the master sends; its ninth bit is the slave's. -/
def answered (level : Observation → Bool) (events : List BusEvent) (byte : UInt8) : BusEvent :=
  .byte (msbFirst byte) (level ⟨msbFirst byte, events⟩)

/-- The events behind the bytes of a buffer. -/
def heard (level : Observation → Bool) : List BusEvent → List UInt8 → List BusEvent
  | events, [] => events
  | events, byte :: rest => heard level (events ++ [answered level events byte]) rest

variable {level : Observation → Bool}

theorem Listens.aligned (h : Listens level o.events) (ho : o.Aligned) : level o = true := by
  apply h
  rcases ho with hzero | hnine <;> omega

theorem i2cSendBit_low (he : e.Wired) (hslave : Presents e.slave level) (delay : UInt32)
    (hs : e.Low o s) (hlevel : level o = true) (bit : Bool) :
    e.Low (o.clock bit) (e.i2cSendBit bit delay s) := by
  have hlow := (((hs.write_sda he bit).i2cDelay delay).pulse he hslave delay).2
  rw [hlevel, Bool.and_true] at hlow
  exact hlow

/-- Bits that the master sends while the slave has released the data line. -/
theorem sendBits_low (he : e.Wired) (hslave : Presents e.slave level) (delay : UInt32)
    (bits : List Bool) {o : Observation} {s : I2cState} (hs : e.Low o s)
    (hlevel : ∀ done, done <+: bits → done ≠ bits → level (o.clocks done) = true) :
    e.Low (o.clocks bits) (bits.foldl (fun s bit => e.i2cSendBit bit delay s) s) := by
  induction bits generalizing o s with
  | nil => exact hs
  | cons bit bits ih =>
    have hbit := hlevel [] List.nil_prefix (List.cons_ne_nil bit bits).symm
    apply ih (i2cSendBit_low he hslave delay hs hbit bit)
    intro done hdone hne
    exact hlevel (bit :: done) (List.prefix_cons_inj bit |>.mpr hdone)
      fun h => hne (List.cons_inj_right bit |>.mp h)

theorem i2cSendByte_settled (he : e.Wired) (hslave : Presents e.slave level) (byte : UInt8)
    (delay : UInt32) (hs : e.Low o s) (ho : o.Aligned) (hlisten : Listens level o.events) :
    e.Settled ⟨msbFirst byte ++ [level ⟨msbFirst byte, o.events⟩],
        o.events ++ [answered level o.events byte]⟩ true (e.i2cSendByte byte delay s).2 := by
  set bits := msbFirst byte with hbits
  have hlen : bits.length = 8 := length_msbFirst byte
  have hne : bits ≠ [] := List.ne_nil_of_length_eq_add_one hlen
  -- the eight bits, during which the slave has released the data line
  have height : e.Low (o.clocks bits)
      (bits.foldl (fun s bit => e.i2cSendBit bit delay s) s) := by
    apply sendBits_low he hslave delay bits hs
    intro done hdone hdne
    by_cases hnil : done = []
    · subst hnil
      exact hlisten.aligned ho
    · have hlt : done.length < 8 := by
        refine lt_of_le_of_ne (hlen ▸ hdone.length_le) fun h => hdne ?_
        exact hdone.eq_of_length (h.trans hlen.symm)
      rw [Observation.clocks_of_aligned ho hlt.le hnil]
      exact hlisten done hlt.ne
  -- the ninth clock belongs to the slave
  have hninth := (((height.write_sda he true).i2cDelay delay).pulse he hslave delay).2
  have hanswer : level (o.clocks bits) = level ⟨bits, o.events⟩ :=
    congrArg level (Observation.clocks_of_aligned ho hlen.le hne)
  rw [hanswer, Bool.true_and, Observation.clocks_byte ho hlen] at hninth
  exact hninth.write_sda he true

theorem sendLoop_settled (he : e.Wired) (hslave : Presents e.slave level) (delay : UInt32)
    (buffer : List UInt8) {o : Observation} {s : I2cState} (hs : e.Settled o true s)
    (ho : o.Aligned)
    (hlisten : ∀ done, done <+: buffer → Listens level (heard level o.events done)) :
    ∃ o', o'.Aligned ∧ o'.events = heard level o.events buffer ∧
      e.Settled o' true (e.sendLoop delay buffer s) := by
  induction buffer generalizing o s with
  | nil => exact ⟨o, ho, rfl, hs⟩
  | cons byte rest ih =>
    have hbyte := i2cSendByte_settled he hslave byte delay hs.low ho (hlisten [] List.nil_prefix)
    exact ih hbyte (.inr rfl) fun done hdone =>
      hlisten (byte :: done) (List.prefix_cons_inj byte |>.mpr hdone)

/-! ### Transactions -/

/-- A combined transaction until the slave is to send. -/
def untilReadPhase (e : I2cBus) (address : UInt8) (outBuffer : List UInt8) (delay : UInt32)
    (s : I2cState) : I2cState :=
  let s := e.i2cStart delay s
  let s := (e.i2cSendByte address delay s).2
  let s := e.sendLoop delay outBuffer s
  let s := e.i2cStart delay s
  (e.i2cSendByte (address ||| 1) delay s).2

/-- The rest of a transaction that reads. -/
def readPhase (e : I2cBus) (len : ℕ) (stop : Int32) (delay : UInt32) (s : I2cState) :
    List UInt8 × I2cState :=
  let r := e.recvLoop delay len s
  (r.1, if stop ≠ 0 then e.i2cStop delay r.2 else r.2)

theorem i2cSendRecvBytes_eq (e : I2cBus) (address : UInt8) (outBuffer : List UInt8) (inLen : ℕ)
    (stop : Int32) (delay : UInt32) (s : I2cState) :
    e.i2cSendRecvBytes address outBuffer inLen stop delay s =
      e.readPhase inLen stop delay (e.untilReadPhase address outBuffer delay s) := rfl

/-- Releasing a data line that is released already. -/
theorem High.release (he : e.Wired) (hobeys : Obeys e.slave) (hs : e.High o true v s) :
    e.High o true v (e.writeBshr (pinMask e.sda) s) := by
  have hset : e.High o true v { s with outdr := bshr (pinMask e.sda) s.outdr } := by
    refine ⟨hs.observed, ?_, ?_, hs.slave, hs.sampled⟩
    · exact pinLevel_bshr_self he.sda _
    · rw [pinLevel_bshr_of_ne he.sda he.scl he.ne, hs.scl]
  exact hset.tick hobeys

/-- What `i2cStop` does is the first clock of a byte. -/
theorem i2cStop_events (he : e.Wired) (hslave : Presents e.slave level) (delay : UInt32)
    (hs : e.Settled o true s) (ho : o.Aligned) :
    (observe (e.i2cStop delay s).trace).events = o.events := by
  have hhigh := (hs.pulse he hslave delay).1
  have hend := (hhigh.release he hslave.obeys).i2cDelay hslave.obeys delay
  have hobserved : observe (e.i2cStop delay s).trace = o.clock (true && level o) := hend.observed
  rw [hobserved, Observation.clock_of_aligned ho]

/-- Start condition, address byte and buffer. -/
theorem write_settled (he : e.Wired) (hslave : Presents e.slave level) (address : UInt8)
    (buffer : List UInt8) (delay : UInt32) (s : I2cState)
    (hfree : (e.beforeStart delay s).trace.head? = some ⟨true, true⟩)
    (hlisten : ∀ done, done <+: address :: buffer → Listens level
      (heard level ((observe (e.beforeStart delay s).trace).events ++ [.start]) done)) :
    ∃ o, o.Aligned ∧
      o.events = heard level ((observe (e.beforeStart delay s).trace).events ++ [.start])
        (address :: buffer) ∧
      e.Settled o true
        (e.sendLoop delay buffer (e.i2cSendByte address delay (e.i2cStart delay s)).2) := by
  have hstart := i2cStart_low he hslave.obeys delay s hfree
  have haddress := i2cSendByte_settled he hslave address delay hstart (.inl rfl)
    (hlisten [] List.nil_prefix)
  exact sendLoop_settled he hslave delay buffer haddress (.inr rfl) fun done hdone =>
    hlisten (address :: done) (List.prefix_cons_inj address |>.mpr hdone)

/-- Repeated start condition and address byte. -/
theorem restart_settled (he : e.Wired) (hslave : Presents e.slave level) (address : UInt8)
    (delay : UInt32) (hs : e.Settled o true s) (ho : o.Aligned) (hlisten : Listens level o.events)
    (hlisten' : Listens level (o.events ++ [.start])) :
    ∃ o', o'.Aligned ∧ o'.events = heard level (o.events ++ [.start]) [address] ∧
      e.Settled o' true (e.i2cSendByte address delay (e.i2cStart delay s)).2 := by
  have hhigh := hs.low.beforeStart he hslave delay (hlisten.aligned ho)
  have hstart := i2cStart_low he hslave.obeys delay s hhigh.head
  rw [hhigh.observed, Observation.clock_of_aligned ho] at hstart
  have haddress := i2cSendByte_settled he hslave address delay hstart (.inl rfl) hlisten'
  exact ⟨_, .inr rfl, rfl, haddress⟩

/-- A slave that answers every byte, or none, and does nothing else. -/
def acknowledges (ack : Bool) (o : Observation) : Bool := !(ack && o.bits.length == 8)

/-- A byte and whether it is acknowledged. -/
def byteEvent (ack : Bool) (byte : UInt8) : BusEvent := .byte (msbFirst byte) (!ack)

variable {ack : Bool}

theorem acknowledges_listens (events : List BusEvent) : Listens (acknowledges ack) events := by
  intro bits hlen
  rw [acknowledges, beq_false_of_ne hlen, Bool.and_false, Bool.not_false]

theorem acknowledges_answered (events : List BusEvent) (byte : UInt8) :
    answered (acknowledges ack) events byte = byteEvent ack byte := by
  cases ack <;> rfl

theorem acknowledges_heard (events : List BusEvent) (buffer : List UInt8) :
    heard (acknowledges ack) events buffer = events ++ buffer.map (byteEvent ack) := by
  induction buffer generalizing events with
  | nil => exact (List.append_nil events).symm
  | cons byte rest ih =>
    rw [heard, ih, acknowledges_answered, List.append_assoc]
    rfl

/-- From the start condition on an observer sees the bytes of a write and nothing else, and the
ninth bit of each byte is left to the slave. -/
theorem i2cWrite_decoded (he : e.Wired) (ack : Bool) (hslave : Presents e.slave (acknowledges ack))
    (address : UInt8) (buffer : List UInt8) (delay : UInt32) (s : I2cState)
    (hfree : (e.beforeStart delay s).trace.head? = some ⟨true, true⟩) :
    (∀ stop : Int32, (observe (e.i2cSendBytes address buffer stop delay s).trace).events =
        (observe (e.beforeStart delay s).trace).events ++ [.start] ++
          (address :: buffer).map (byteEvent ack)) ∧
      (observe (e.untilReadPhase address buffer delay s).trace).events =
        (observe (e.beforeStart delay s).trace).events ++ [.start] ++
          (address :: buffer).map (byteEvent ack) ++ [.start, byteEvent ack (address ||| 1)] ∧
      ∀ (inLen : ℕ) (stop : Int32), e.i2cSendRecvBytes address buffer inLen stop delay s =
        e.readPhase inLen stop delay (e.untilReadPhase address buffer delay s) := by
  obtain ⟨o, ho, hevents, hs⟩ := write_settled he hslave address buffer delay s hfree
    fun _ _ => acknowledges_listens _
  rw [acknowledges_heard] at hevents
  refine ⟨fun stop => ?_, ?_,
    fun inLen stop => i2cSendRecvBytes_eq e address buffer inLen stop delay s⟩
  · dsimp only [i2cSendBytes]
    by_cases hstop : stop ≠ 0
    · rw [if_pos hstop, i2cStop_events he hslave delay hs ho, hevents]
    · rw [if_neg hstop, hs.observed, hevents]
  · obtain ⟨o', -, hevents', hread⟩ := restart_settled he hslave (address ||| 1) delay hs ho
      (acknowledges_listens _) (acknowledges_listens _)
    rw [acknowledges_heard, hevents, List.append_assoc] at hevents'
    rw [untilReadPhase, hread.observed, hevents']
    rfl

def listeningBus : I2cBus where
  sda := 6
  scl := 7
  slave := follow (acknowledges true)

theorem i2cWrite_decoded_listening :
    (∀ stop : Int32, (observe (listeningBus.i2cSendBytes 0xA0 [0x81] stop 1 ⟨0, []⟩).trace).events =
        [.start, byteEvent true 0xA0, byteEvent true 0x81]) ∧
      (observe (listeningBus.untilReadPhase 0xA0 [0x81] 1 ⟨0, []⟩).trace).events =
        [.start, byteEvent true 0xA0, byteEvent true 0x81, .start, byteEvent true 0xA1] ∧
      ∀ (inLen : ℕ) (stop : Int32),
        listeningBus.i2cSendRecvBytes 0xA0 [0x81] inLen stop 1 ⟨0, []⟩ =
          listeningBus.readPhase inLen stop 1
            (listeningBus.untilReadPhase 0xA0 [0x81] 1 ⟨0, []⟩) := by
  have hwired : listeningBus.Wired := ⟨by decide, by decide, by decide⟩
  have hfree : (listeningBus.beforeStart 1 ⟨0, []⟩).trace.head? = some ⟨true, true⟩ := by
    decide +kernel
  have hbefore : (observe (listeningBus.beforeStart 1 ⟨0, []⟩).trace).events = [] := by
    decide +kernel
  have hdecoded := i2cWrite_decoded hwired true (presents_follow _) 0xA0 [0x81] 1 ⟨0, []⟩ hfree
  rw [hbefore] at hdecoded
  exact hdecoded

end I2cBus

end Not232
