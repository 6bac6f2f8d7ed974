import Not232.I2cWrite

/-!
# Scanning an I2C bus

The devices on a bus pull the data line independently of each other, and each acknowledges its own
address. The scan addresses one after the other, and since the stop condition of the master is the
first clock of a byte, every address byte but the first follows a start condition that discards one
bit. Still the scan finds the devices and nothing else.
-/

namespace Not232

open TwoWire

namespace I2cBus

/-- The bits of the byte that addresses a device for writing. -/
def addressBits (address : UInt8) : List Bool := msbFirst (address <<< 1)

/-- Behind a start condition the level acknowledges exactly the addresses for writing that `present`
names, and the data line is not pulled low otherwise until a device has been written to. -/
structure Answers (present : UInt8 → Bool) (level : Observation → Bool) : Prop where
  selected : ∀ events, Listens level (events ++ [.start])
  address : ∀ events a, a < 0x80 → level ⟨addressBits a, events ++ [.start]⟩ = !present a
  addressed : ∀ events a nack, a < 0x80 →
    Listens level (events ++ [.start] ++ [.byte (addressBits a) nack])

/-- A slave and its seven-bit address. -/
structure ScannedSlave where
  address : UInt8
  slave : Slave
  level : Observation → Bool
  presents : Presents slave level
  answers : Answers (· == address) level

/-- The bus that several slaves can pull low. -/
def withSlaves (sda scl : UInt8) (slaves : List ScannedSlave) : I2cBus where
  sda := sda
  scl := scl
  slave trace := slaves.all fun d => d.slave trace

/-- A device of the bus has the address. -/
def responds (slaves : List ScannedSlave) (address : UInt8) : Bool :=
  slaves.any fun d => d.address == address

/-- The loop of `RECV_I2C_SCAN` over the addresses that are left, with the bytes that it sends. -/
def scanLoop (e : I2cBus) (delay : UInt32) : (addresses : List UInt8) → I2cState →
    List UInt8 × I2cState
  | [], s => ([], s)
  | address :: rest, s =>
    let (ack, s) := e.i2cScanAddress address delay s
    let (sent, s) := scanLoop e delay rest s
    (if ack then address :: sent else sent, s)

def scanAddresses : List UInt8 := (List.range' 1 0x7F).map UInt8.ofNat

/-- The bytes that `RECV_I2C_SCAN` sends. -/
def i2cScan (e : I2cBus) (delay : UInt32) (s : I2cState) : List UInt8 × I2cState :=
  let (sent, s) := e.scanLoop delay scanAddresses s
  (sent ++ [0], s)

section Slaves

variable {slaves : List ScannedSlave}

/-- The level of all slaves together. -/
def busLevel (slaves : List ScannedSlave) (o : Observation) : Bool := slaves.all fun d => d.level o

theorem presents_busLevel (sda scl : UInt8) (slaves : List ScannedSlave) :
    Presents (withSlaves sda scl slaves).slave (busLevel slaves) where
  obeys x trace hx := by
    apply List.all_congr rfl
    intro d
    exact d.presents.obeys x trace hx
  settles x y trace hx hy := by
    apply List.all_congr rfl
    intro d
    exact d.presents.settles x y trace hx hy

theorem listens_busLevel {events : List BusEvent} (h : ∀ d ∈ slaves, Listens d.level events) :
    Listens (busLevel slaves) events := by
  intro bits hlen
  apply List.all_eq_true.mpr
  intro d hd
  exact h d hd bits hlen

theorem answers_busLevel (slaves : List ScannedSlave) :
    Answers (responds slaves) (busLevel slaves) where
  selected events := listens_busLevel fun d _ => d.answers.selected events
  addressed events a nack ha := listens_busLevel fun d _ => d.answers.addressed events a nack ha
  address events a ha := by
    induction slaves with
    | nil => rfl
    | cons d rest ih =>
      have hd := d.answers.address events a ha
      rw [busLevel, List.all_cons, hd, responds, List.any_cons, Bool.not_or, Bool.beq_comm]
      exact congrArg (_ && ·) ih

end Slaves

section Scan

variable {e : I2cBus} {o : Observation} {s : I2cState} {level : Observation → Bool}
  {present : UInt8 → Bool}

/-- The acknowledge bit that the master reads. -/
theorem i2cSendByte_ack (he : e.Wired) (hslave : Presents e.slave level) (byte : UInt8)
    (delay : UInt32) (hs : e.Low o s) (ho : o.Aligned) (hlisten : Listens level o.events) :
    (e.i2cSendByte byte delay s).1 = !level ⟨msbFirst byte, o.events⟩ := by
  have hlen : (msbFirst byte).length = 8 := length_msbFirst byte
  have hne : msbFirst byte ≠ [] := List.ne_nil_of_length_eq_add_one hlen
  have height : e.Low (o.clocks (msbFirst byte))
      ((msbFirst byte).foldl (fun s bit => e.i2cSendBit bit delay s) s) := by
    apply sendBits_low he hslave delay _ hs
    intro done hdone hdne
    by_cases hnil : done = []
    · subst hnil
      exact hlisten.aligned ho
    · have hlt : done.length < 8 := by
        apply lt_of_le_of_ne (hlen ▸ hdone.length_le)
        intro h
        exact hdne (hdone.eq_of_length (h.trans hlen.symm))
      rw [Observation.clocks_of_aligned ho hlt.le hnil]
      exact hlisten done hlt.ne
  have hninth := (((height.write_sda he true).i2cDelay delay).pulse he hslave delay).1
  rw [Observation.clocks_of_aligned ho hlen.le hne] at hninth
  have hwires : ∀ {t : I2cState} {o : Observation} {v : Bool}, e.High o true v t →
      (e.wires t).sda = v := by
    intro t o v ht
    change (_ && _) = v
    rw [ht.sda, ht.slave, Bool.true_and]
  exact congrArg (!·) (hwires hninth)

/-- Both lines are high already. -/
theorem High.beforeStart (he : e.Wired) (hobeys : Obeys e.slave) (delay : UInt32)
    (hs : e.High o true true s) : e.High o true true (e.beforeStart delay s) := by
  have hsda := (hs.release he hobeys).i2cDelay hobeys delay
  have hset : e.High o true true
      { e.i2cDelay delay (e.writeBshr (pinMask e.sda) s) with
        outdr := bshr (pinMask e.scl) (e.i2cDelay delay (e.writeBshr (pinMask e.sda) s)).outdr } := by
    refine ⟨hsda.observed, ?_, ?_, hsda.slave, hsda.sampled⟩
    · rw [pinLevel_bshr_of_ne he.scl he.sda he.ne.symm, hsda.sda]
    · exact pinLevel_bshr_self he.scl _
  exact (hset.tick hobeys).i2cDelay hobeys delay

/-- Behind `i2cStop` both lines are high, and an observer has one bit of a byte. -/
theorem i2cStop_high (he : e.Wired) (hslave : Presents e.slave level) (delay : UInt32)
    (hs : e.Settled o true s) (ho : o.Aligned) (hlisten : Listens level o.events) :
    e.High ⟨[true], o.events⟩ true true (e.i2cStop delay s) := by
  have hpulse := (hs.pulse he hslave delay).1
  rw [hlisten.aligned ho, Bool.true_and, Observation.clock_of_aligned ho] at hpulse
  exact (hpulse.release he hslave.obeys).i2cDelay hslave.obeys delay

/-- One address of the scan. -/
theorem i2cScanAddress_high (he : e.Wired) (hslave : Presents e.slave level)
    (hanswers : Answers present level) {address : UInt8} (hlow : address < 0x80) (delay : UInt32)
    (hfree : (e.beforeStart delay s).trace.head? = some ⟨true, true⟩) :
    (e.i2cScanAddress address delay s).1 = present address ∧
      e.High ⟨[true], (observe (e.beforeStart delay s).trace).events ++
        [.start, byteEvent (present address) (address <<< 1)]⟩ true true
        (e.i2cScanAddress address delay s).2 := by
  have hstart := i2cStart_low he hslave.obeys delay s hfree
  set events := (observe (e.beforeStart delay s).trace).events with hevents
  have hlisten := hanswers.selected events
  have haligned : Observation.Aligned ⟨[], events ++ [.start]⟩ := .inl rfl
  have hlevel := hanswers.address events address hlow
  have hanswered : answered level (events ++ [.start]) (address <<< 1) =
      byteEvent (present address) (address <<< 1) :=
    congrArg (BusEvent.byte (addressBits address)) hlevel
  constructor
  · have hack := i2cSendByte_ack he hslave (address <<< 1) delay hstart haligned hlisten
    exact hack.trans ((congrArg (!·) hlevel).trans (Bool.not_not _))
  · have hbyte := i2cSendByte_settled he hslave (address <<< 1) delay hstart haligned hlisten
    have hreleased := hanswers.addressed events address
      (level ⟨addressBits address, events ++ [.start]⟩) hlow
    have hstop : e.High ⟨[true], events ++ [.start] ++
        [answered level (events ++ [.start]) (address <<< 1)]⟩ true true
        (e.i2cScanAddress address delay s).2 :=
      i2cStop_high he hslave delay hbyte (.inr rfl) hreleased
    rw [hanswered, List.append_assoc] at hstop
    exact hstop

/-- The events of the addresses of a scan. -/
def scanEvents (present : UInt8 → Bool) (addresses : List UInt8) : List BusEvent :=
  addresses.flatMap fun a => [.start, byteEvent (present a) (a <<< 1)]

/-- The addresses behind the first one. -/
theorem scanLoop_high (he : e.Wired) (hslave : Presents e.slave level)
    (hanswers : Answers present level) (delay : UInt32) (addresses : List UInt8)
    (hlow : ∀ a ∈ addresses, a < 0x80) (hs : e.High o true true s) :
    (e.scanLoop delay addresses s).1 = addresses.filter present ∧
      ∃ o', e.High o' true true (e.scanLoop delay addresses s).2 ∧
        o'.events = o.events ++ scanEvents present addresses := by
  induction addresses generalizing o s with
  | nil => exact ⟨rfl, o, hs, (List.append_nil _).symm⟩
  | cons address rest ih =>
    have hbefore := hs.beforeStart he hslave.obeys delay
    obtain ⟨hack, hhigh⟩ := i2cScanAddress_high he hslave hanswers
      (hlow address List.mem_cons_self) delay hbefore.head
    rw [hbefore.observed] at hhigh
    obtain ⟨hsent, o', hend, hevents⟩ := ih (fun a ha => hlow a (List.mem_cons_of_mem _ ha)) hhigh
    rw [List.append_assoc] at hevents
    refine ⟨?_, o', hend, hevents⟩
    rw [List.filter_cons, ← hack, ← hsent]
    rfl

/-- The addresses of a scan that begins on a free bus. -/
theorem scanLoop_free (he : e.Wired) (hslave : Presents e.slave level)
    (hanswers : Answers present level) (delay : UInt32) (address : UInt8) (rest : List UInt8)
    (hlow : ∀ a ∈ address :: rest, a < 0x80)
    (hfree : (e.beforeStart delay s).trace.head? = some ⟨true, true⟩) :
    (e.scanLoop delay (address :: rest) s).1 = (address :: rest).filter present ∧
      (observe (e.scanLoop delay (address :: rest) s).2.trace).events =
        (observe (e.beforeStart delay s).trace).events ++ scanEvents present (address :: rest) := by
  obtain ⟨hack, hhigh⟩ := i2cScanAddress_high he hslave hanswers
    (hlow address List.mem_cons_self) delay hfree
  obtain ⟨hsent, o', hend, hevents⟩ := scanLoop_high he hslave hanswers delay rest
    (fun a ha => hlow a (List.mem_cons_of_mem _ ha)) hhigh
  rw [List.append_assoc] at hevents
  constructor
  · rw [List.filter_cons, ← hack, ← hsent]
    rfl
  · exact (congrArg Observation.events hend.observed).trans hevents

end Scan

theorem scanAddresses_low : ∀ a ∈ scanAddresses, a < 0x80 := by
  intro a ha
  obtain ⟨i, hi, rfl⟩ := List.mem_map.mp ha
  have hrange := List.mem_range'_1.mp hi
  have hsize : UInt8.size = 256 := rfl
  have hnat : (UInt8.ofNat i).toNat = i := UInt8.toNat_ofNat_of_lt (by omega)
  apply UInt8.lt_iff_toNat_lt.mpr
  rw [hnat]
  exact hrange.2

/-- On a free bus with any slaves, the scan sends the addresses from 1 to 127 that have a slave, in
order, and then a zero, and the bus has carried one start condition and one address byte for each of
the 127 addresses. -/
theorem i2cScan_finds (sda scl : UInt8) (slaves : List ScannedSlave)
    (he : (withSlaves sda scl slaves).Wired) (delay : UInt32) (s : I2cState)
    (hfree : ((withSlaves sda scl slaves).beforeStart delay s).trace.head? = some ⟨true, true⟩) :
    ((withSlaves sda scl slaves).i2cScan delay s).1 =
        scanAddresses.filter (responds slaves) ++ [0] ∧
      (observe ((withSlaves sda scl slaves).i2cScan delay s).2.trace).events =
        (observe ((withSlaves sda scl slaves).beforeStart delay s).trace).events ++
          scanEvents (responds slaves) scanAddresses := by
  have hcons : scanAddresses = 1 :: (List.range' 2 0x7E).map UInt8.ofNat := rfl
  have hlow := scanAddresses_low
  rw [i2cScan, hcons] at *
  obtain ⟨hsent, hevents⟩ := scanLoop_free he (presents_busLevel sda scl slaves)
    (answers_busLevel slaves) delay 1 _ hlow hfree
  exact ⟨congrArg (· ++ [0]) hsent, hevents⟩

/-- The slave that acknowledges its address for writing and does nothing else. -/
def addressLevel (address : UInt8) (o : Observation) : Bool :=
  !(o.bits == addressBits address && o.events.getLast? == some .start)

theorem addressBits_injective {a b : UInt8} (ha : a < 0x80) (hb : b < 0x80)
    (h : addressBits a = addressBits b) : a = b := by
  have hshift := congrArg UInt8.toNat (msbFirst_injective h)
  have hone : (1 : UInt8).toNat % 8 = 1 := rfl
  have hend : (0x80 : UInt8).toNat = 0x80 := rfl
  rw [UInt8.lt_iff_toNat_lt, hend] at ha hb
  rw [UInt8.toNat_shiftLeft, UInt8.toNat_shiftLeft, hone, Nat.shiftLeft_eq, Nat.shiftLeft_eq]
    at hshift
  apply UInt8.toNat_inj.mp
  omega

theorem answers_addressLevel {address : UInt8} (hlow : address < 0x80) :
    Answers (· == address) (addressLevel address) where
  selected events bits hlen := by
    have hne : bits ≠ addressBits address := by
      rintro rfl
      exact hlen (length_msbFirst _)
    rw [addressLevel, beq_false_of_ne hne]
    rfl
  addressed events a nack ha bits hlen := by
    have hne : bits ≠ addressBits address := by
      rintro rfl
      exact hlen (length_msbFirst _)
    rw [addressLevel, beq_false_of_ne hne]
    rfl
  address events a ha := by
    rw [addressLevel, List.getLast?_concat, beq_self_eq_true, Bool.and_true]
    by_cases heq : a = address
    · rw [heq, beq_self_eq_true, beq_self_eq_true]
    · rw [beq_false_of_ne heq, beq_false_of_ne fun h => heq (addressBits_injective ha hlow h)]

def addressSlave (address : UInt8) (hlow : address < 0x80) : ScannedSlave where
  address := address
  slave := follow (addressLevel address)
  level := addressLevel address
  presents := presents_follow _
  answers := answers_addressLevel hlow

/-- Two devices on the bus. -/
def scannedSlaves : List ScannedSlave :=
  [addressSlave 0x68 (by decide), addressSlave 0x50 (by decide)]

theorem i2cScan_finds_two :
    ((withSlaves 6 7 scannedSlaves).i2cScan 0 ⟨0, []⟩).1 = [0x50, 0x68, 0] := by
  have hwired : (withSlaves 6 7 scannedSlaves).Wired := ⟨by decide, by decide, by decide⟩
  have hfree : ((withSlaves 6 7 scannedSlaves).beforeStart 0 ⟨0, []⟩).trace.head? =
      some ⟨true, true⟩ := by decide +kernel
  have hfound : scanAddresses.filter (responds scannedSlaves) ++ [0] = [0x50, 0x68, 0] := by
    decide +kernel
  rw [(i2cScan_finds 6 7 scannedSlaves hwired 0 ⟨0, []⟩ hfree).1, hfound]

end I2cBus

end Not232
