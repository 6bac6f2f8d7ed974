import Not232.Gpio
import Not232.TwoWire

/-!
# The bit-banged I2C master

The master toggles two pins of port A. Every write to the port and every turn of a delay loop takes
one sample of the wires.
-/

namespace Not232

open TwoWire

/-- The pins of a transaction and the slave on its bus. -/
structure I2cBus where
  sda : UInt8
  scl : UInt8
  slave : Slave

/-- The output latch of port A and the levels of the wires so far. -/
structure I2cState where
  outdr : UInt32
  trace : List Wires

namespace I2cBus

variable (e : I2cBus)

def wires (s : I2cState) : Wires :=
  ⟨pinLevel s.outdr e.sda && e.slave s.trace, pinLevel s.outdr e.scl⟩

def tick (s : I2cState) : I2cState := { s with trace := e.wires s :: s.trace }

def writeBshr (value : UInt32) (s : I2cState) : I2cState :=
  e.tick { s with outdr := bshr value s.outdr }

def writeBcr (value : UInt32) (s : I2cState) : I2cState :=
  e.tick { s with outdr := bcr value s.outdr }

def i2cDelay (n : UInt32) (s : I2cState) : I2cState := e.tick^[n.toNat] s

def i2cStart (delay : UInt32) (s : I2cState) : I2cState :=
  let s := e.i2cDelay delay (e.writeBshr (pinMask e.sda) s)
  let s := e.i2cDelay delay (e.writeBshr (pinMask e.scl) s)
  let s := e.i2cDelay delay (e.writeBcr (pinMask e.sda) s)
  e.i2cDelay delay (e.writeBcr (pinMask e.scl) s)

def i2cSendBit (bit : Bool) (delay : UInt32) (s : I2cState) : I2cState :=
  let s := if bit then e.writeBshr (pinMask e.sda) s else e.writeBcr (pinMask e.sda) s
  let s := e.i2cDelay delay s
  let s := e.i2cDelay delay (e.writeBshr (pinMask e.scl) s)
  e.i2cDelay delay (e.writeBcr (pinMask e.scl) s)

/-- Sends a byte, most significant bit first, and returns whether it was acknowledged. -/
def i2cSendByte (byte : UInt8) (delay : UInt32) (s : I2cState) : Bool × I2cState :=
  let s := ([7, 6, 5, 4, 3, 2, 1, 0] : List UInt8).foldl
    (fun s i => e.i2cSendBit ((byte &&& (1 : UInt8) <<< i) != 0) delay s) s
  let s := e.i2cDelay delay (e.writeBshr (pinMask e.sda) s)
  let s := e.i2cDelay delay (e.writeBshr (pinMask e.scl) s)
  let ack := !(e.wires s).sda
  let s := e.i2cDelay delay (e.writeBcr (pinMask e.scl) s)
  (ack, e.writeBshr (pinMask e.sda) s)

def i2cRecvBit (delay : UInt32) (s : I2cState) : Bool × I2cState :=
  let s := e.i2cDelay delay (e.writeBshr (pinMask e.sda) s)
  let s := e.i2cDelay delay (e.writeBshr (pinMask e.scl) s)
  let bit := (e.wires s).sda
  (bit, e.i2cDelay delay (e.writeBcr (pinMask e.scl) s))

/-- Receives a byte, most significant bit first, and acknowledges it if `ack` is set. -/
def i2cRecvByte (ack : Bool) (delay : UInt32) (s : I2cState) : UInt8 × I2cState :=
  let (buffer, s) := ([7, 6, 5, 4, 3, 2, 1, 0] : List UInt8).foldl
    (fun (r : UInt8 × I2cState) i =>
      let (bit, s) := e.i2cRecvBit delay r.2
      (r.1 ||| (if bit then (1 : UInt8) else 0) <<< i, s)) (0, s)
  let ackMask : UInt32 := if ack then pinMask e.sda else 0
  let s := e.i2cDelay delay (e.writeBshr (pinMask e.sda) s)
  let s := e.i2cDelay delay (e.writeBcr ackMask s)
  let s := e.i2cDelay delay (e.writeBshr (pinMask e.scl) s)
  let s := e.i2cDelay delay (e.writeBcr (pinMask e.scl) s)
  (buffer, e.writeBshr ackMask s)

def i2cStop (delay : UInt32) (s : I2cState) : I2cState :=
  let s := e.i2cDelay delay (e.writeBshr (pinMask e.scl) s)
  e.i2cDelay delay (e.writeBshr (pinMask e.sda) s)

/-- The loop that sends a buffer. -/
def sendLoop (delay : UInt32) : (buffer : List UInt8) → I2cState → I2cState
  | [], s => s
  | byte :: rest, s => sendLoop delay rest (e.i2cSendByte byte delay s).2

/-- The loop that receives the `n` bytes that are left; it acknowledges all but the last. -/
def recvLoop (delay : UInt32) : (n : ℕ) → I2cState → List UInt8 × I2cState
  | 0, s => ([], s)
  | n + 1, s =>
    let (byte, s) := e.i2cRecvByte (decide (0 < n)) delay s
    let (rest, s) := recvLoop delay n s
    (byte :: rest, s)

def i2cScanAddress (address : UInt8) (delay : UInt32) (s : I2cState) : Bool × I2cState :=
  let s := e.i2cStart delay s
  let (ack, s) := e.i2cSendByte (address <<< 1) delay s
  (ack, e.i2cStop delay s)

def i2cSendBytes (address : UInt8) (buffer : List UInt8) (stop : Int32) (delay : UInt32)
    (s : I2cState) : I2cState :=
  let s := e.i2cStart delay s
  let (_, s) := e.i2cSendByte address delay s
  let s := e.sendLoop delay buffer s
  if stop ≠ 0 then e.i2cStop delay s else s

def i2cRecvBytes (address : UInt8) (len : ℕ) (stop : Int32) (delay : UInt32) (s : I2cState) :
    List UInt8 × I2cState :=
  let s := e.i2cStart delay s
  let (_, s) := e.i2cSendByte (address ||| 1) delay s
  let (buffer, s) := e.recvLoop delay len s
  (buffer, if stop ≠ 0 then e.i2cStop delay s else s)

def i2cSendRecvBytes (address : UInt8) (outBuffer : List UInt8) (inLen : ℕ) (stop : Int32)
    (delay : UInt32) (s : I2cState) : List UInt8 × I2cState :=
  let s := e.i2cStart delay s
  let (_, s) := e.i2cSendByte address delay s
  let s := e.sendLoop delay outBuffer s
  let s := e.i2cStart delay s
  let (_, s) := e.i2cSendByte (address ||| 1) delay s
  let (inBuffer, s) := e.recvLoop delay inLen s
  (inBuffer, if stop ≠ 0 then e.i2cStop delay s else s)

/-! ### The levels a transaction leaves behind -/

/-- A delay keeps what a sample keeps. -/
theorem i2cDelay_of_tick {e : I2cBus} {P : I2cState → Prop} (h : ∀ s, P s → P (e.tick s))
    (n : UInt32) {s : I2cState} (hs : P s) : P (e.i2cDelay n s) := by
  unfold i2cDelay
  induction n.toNat generalizing s with
  | zero => exact hs
  | succ n ih => exact ih (h s hs)

@[simp] theorem outdr_i2cDelay (n : UInt32) (s : I2cState) :
    (e.i2cDelay n s).outdr = s.outdr :=
  i2cDelay_of_tick (P := fun t => t.outdr = s.outdr) (fun _ ht => ht) n rfl

@[simp] theorem outdr_writeBshr (value : UInt32) (s : I2cState) :
    (e.writeBshr value s).outdr = bshr value s.outdr := rfl

@[simp] theorem outdr_writeBcr (value : UInt32) (s : I2cState) :
    (e.writeBcr value s).outdr = bcr value s.outdr := rfl

/-- Two different pins of port A. -/
structure Wired : Prop where
  sda : e.sda < 16
  scl : e.scl < 16
  ne : e.sda ≠ e.scl

/-- The clock is low and has been sampled so, and the master has released the data line. -/
structure Parked (s : I2cState) : Prop where
  sda : pinLevel s.outdr e.sda = true
  scl : pinLevel s.outdr e.scl = false
  last : ∃ x rest, s.trace = x :: rest ∧ x.scl = false

variable {e}

theorem parked_of_writeBshr {value : UInt32} {s : I2cState}
    (hsda : pinLevel (bshr value s.outdr) e.sda = true)
    (hscl : pinLevel (bshr value s.outdr) e.scl = false) : e.Parked (e.writeBshr value s) :=
  ⟨hsda, hscl, _, s.trace, rfl, hscl⟩

theorem i2cSendByte_parked (he : e.Wired) (byte : UInt8) (delay : UInt32) (s : I2cState) :
    e.Parked (e.i2cSendByte byte delay s).2 := by
  apply parked_of_writeBshr
  · exact pinLevel_bshr_self he.sda _
  · rw [pinLevel_bshr_of_ne he.sda he.scl he.ne, outdr_i2cDelay, outdr_writeBcr,
      pinLevel_bcr_self he.scl]

theorem i2cRecvByte_parked (he : e.Wired) (ack : Bool) (delay : UInt32) (s : I2cState) :
    e.Parked (e.i2cRecvByte ack delay s).2 := by
  apply parked_of_writeBshr
  · cases ack with
    | true => exact pinLevel_bshr_self he.sda _
    | false =>
      simp [pinLevel_bcr_of_ne he.scl he.sda he.ne.symm,
        pinLevel_bshr_of_ne he.scl he.sda he.ne.symm, pinLevel_bshr_self he.sda]
  · cases ack with
    | true => simp [pinLevel_bshr_of_ne he.sda he.scl he.ne, pinLevel_bcr_self he.scl]
    | false => simp [pinLevel_bcr_self he.scl]

theorem sendLoop_parked (he : e.Wired) (delay : UInt32) (buffer : List UInt8) {s : I2cState}
    (hs : e.Parked s) : e.Parked (e.sendLoop delay buffer s) := by
  induction buffer generalizing s with
  | nil => exact hs
  | cons byte rest ih => exact ih (i2cSendByte_parked he byte delay s)

theorem recvLoop_parked (he : e.Wired) (delay : UInt32) (n : ℕ) {s : I2cState}
    (hs : e.Parked s) : e.Parked (e.recvLoop delay n s).2 := by
  induction n generalizing s with
  | zero => exact hs
  | succ n ih => exact ih (i2cRecvByte_parked he _ delay s)

/-- Both lines are driven high by the master, and the data line has kept the level `d` since `s`. -/
structure Raised (e : I2cBus) (d : Bool) (s s' : I2cState) : Prop where
  sda : pinLevel s'.outdr e.sda = true
  scl : pinLevel s'.outdr e.scl = true
  trace : ∃ n, s'.trace = List.replicate n ⟨d, true⟩ ++ s.trace

theorem Raised.tick (hobeys : Obeys e.slave) {s s' : I2cState}
    (h : e.Raised (e.slave s.trace) s s') : e.Raised (e.slave s.trace) s (e.tick s') := by
  obtain ⟨n, hn⟩ := h.trace
  refine ⟨h.sda, h.scl, n + 1, ?_⟩
  have hslave : e.slave s'.trace = e.slave s.trace := by rw [hn, slave_replicate hobeys]
  rw [List.replicate_succ, List.cons_append, ← hn]
  change e.wires s' :: s'.trace = _
  rw [wires, h.sda, h.scl, hslave, Bool.true_and]

theorem Raised.i2cDelay (hobeys : Obeys e.slave) (n : UInt32) {s s' : I2cState}
    (h : e.Raised (e.slave s.trace) s s') :
    e.Raised (e.slave s.trace) s (e.i2cDelay n s') :=
  i2cDelay_of_tick (fun _ h => h.tick hobeys) n h

theorem Raised.writeBshr (he : e.Wired) (hobeys : Obeys e.slave) {s s' : I2cState}
    (h : e.Raised (e.slave s.trace) s s') :
    e.Raised (e.slave s.trace) s (e.writeBshr (pinMask e.sda) s') := by
  have hset : e.Raised (e.slave s.trace) s { s' with outdr := bshr (pinMask e.sda) s'.outdr } := by
    refine ⟨?_, ?_, h.trace⟩
    · exact pinLevel_bshr_self he.sda _
    · rw [pinLevel_bshr_of_ne he.sda he.scl he.ne, h.scl]
  exact hset.tick hobeys

/-- Stopping with the data line released raises the clock and changes nothing else. -/
theorem i2cStop_raised (he : e.Wired) (hobeys : Obeys e.slave) (delay : UInt32) {s : I2cState}
    (hs : e.Parked s) : e.Raised (e.slave s.trace) s (e.i2cStop delay s) := by
  have hset : e.Raised (e.slave s.trace) s { s with outdr := bshr (pinMask e.scl) s.outdr } := by
    refine ⟨?_, ?_, 0, rfl⟩
    · rw [pinLevel_bshr_of_ne he.scl he.sda he.ne.symm, hs.sda]
    · exact pinLevel_bshr_self he.scl _
  exact (((hset.tick hobeys).i2cDelay hobeys delay).writeBshr he hobeys).i2cDelay hobeys delay

theorem i2cStop_makes_no_stop (he : e.Wired) (hobeys : Obeys e.slave) (delay : UInt32)
    {s : I2cState} (hs : e.Parked s) : endsWithStop (e.i2cStop delay s).trace = false := by
  obtain ⟨n, hn⟩ := (i2cStop_raised he hobeys delay hs).trace
  obtain ⟨x, rest, hlast, hx⟩ := hs.last
  rw [hn, hlast]
  exact not_endsWithStop_replicate n _ hx

/-- No transaction that is asked for a stop condition ends with one. -/
theorem no_transaction_ends_with_stop (he : e.Wired) (hobeys : Obeys e.slave) (address : UInt8)
    (buffer : List UInt8) (len : ℕ) (stop : Int32) (hstop : stop ≠ 0) (delay : UInt32)
    (s : I2cState) :
    endsWithStop (e.i2cScanAddress address delay s).2.trace = false ∧
      endsWithStop (e.i2cSendBytes address buffer stop delay s).trace = false ∧
      endsWithStop (e.i2cRecvBytes address len stop delay s).2.trace = false ∧
      endsWithStop (e.i2cSendRecvBytes address buffer len stop delay s).2.trace = false := by
  refine ⟨?_, ?_, ?_, ?_⟩
  · exact i2cStop_makes_no_stop he hobeys delay (i2cSendByte_parked he (address <<< 1) delay _)
  · dsimp only [i2cSendBytes]
    rw [if_pos hstop]
    exact i2cStop_makes_no_stop he hobeys delay
      (sendLoop_parked he delay buffer (i2cSendByte_parked he address delay _))
  · dsimp only [i2cRecvBytes]
    rw [if_pos hstop]
    exact i2cStop_makes_no_stop he hobeys delay
      (recvLoop_parked he delay len (i2cSendByte_parked he _ delay _))
  · dsimp only [i2cSendRecvBytes]
    rw [if_pos hstop]
    exact i2cStop_makes_no_stop he hobeys delay
      (recvLoop_parked he delay len (i2cSendByte_parked he _ delay _))

/-- A slave that acknowledges the address byte: it pulls the data line low from the ninth falling
edge of the clock to the tenth. -/
def falls : List Wires → ℕ
  | x :: y :: rest => falls (y :: rest) + if y.scl && !x.scl then 1 else 0
  | _ => 0

def ackingBus : I2cBus where
  sda := 6
  scl := 7
  slave trace := falls trace != 9

theorem ackingBus_wired : ackingBus.Wired := ⟨by decide, by decide, by decide⟩

theorem ackingBus_obeys : Obeys ackingBus.slave := by
  intro x trace hx
  cases trace with
  | nil => rfl
  | cons y rest =>
    change (falls (x :: y :: rest) != 9) = (falls (y :: rest) != 9)
    rw [falls, hx, Bool.not_true, Bool.and_false]
    rfl

theorem no_transaction_ends_with_stop_acking :
    endsWithStop (ackingBus.i2cScanAddress 0xA0 1 ⟨0, []⟩).2.trace = false ∧
      endsWithStop (ackingBus.i2cSendBytes 0xA0 [1] 1 1 ⟨0, []⟩).trace = false ∧
      endsWithStop (ackingBus.i2cRecvBytes 0xA0 1 1 1 ⟨0, []⟩).2.trace = false ∧
      endsWithStop (ackingBus.i2cSendRecvBytes 0xA0 [1] 1 1 1 ⟨0, []⟩).2.trace = false :=
  no_transaction_ends_with_stop ackingBus_wired ackingBus_obeys 0xA0 [1] 1 1 (by decide) 1 ⟨0, []⟩

/-- A slave answers the scan, and the scan ends without a stop condition. -/
theorem i2cScanAddress_no_stop :
    Obeys ackingBus.slave ∧ (ackingBus.i2cScanAddress 0x50 1 ⟨0, []⟩).1 = true ∧
      endsWithStop (ackingBus.i2cScanAddress 0x50 1 ⟨0, []⟩).2.trace = false := by
  have hack : (ackingBus.i2cScanAddress 0x50 1 ⟨0, []⟩).1 = true := by decide +kernel
  have hstop : endsWithStop (ackingBus.i2cScanAddress 0x50 1 ⟨0, []⟩).2.trace = false := by
    decide +kernel
  exact ⟨ackingBus_obeys, hack, hstop⟩

end I2cBus
end Not232
