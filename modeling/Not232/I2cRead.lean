import Not232.I2cWrite
import Not232.Words

/-!
# What an I2C read takes from the bus

A slave that is addressed for reading presents a stream of bytes, one bit for each clock, until the
master does not acknowledge a byte. Its part in a transaction follows from the events so far.
-/

namespace Not232

open TwoWire

namespace I2cBus

/-- The part of a slave: it waits, it expects the address byte, it sends the byte `k` of its stream,
or the master has read all it wants. -/
inductive Role
  | idle
  | selected
  | sending (k : ℕ)
  | released
  deriving DecidableEq

namespace Role

variable {address : UInt8}

def next (address : UInt8) : Role → BusEvent → Role
  | _, .start => selected
  | _, .stop => idle
  | selected, .byte bits nack =>
    if bits = msbFirst (address ||| 1) ∧ nack = false then sending 0 else idle
  | sending k, .byte _ nack => if nack then released else sending (k + 1)
  | idle, .byte _ _ => idle
  | released, .byte _ _ => released

def after (address : UInt8) (events : List BusEvent) : Role := events.foldl (next address) idle

theorem after_concat (events : List BusEvent) (event : BusEvent) :
    after address (events ++ [event]) = next address (after address events) event :=
  List.foldl_concat ..

theorem after_start (events : List BusEvent) : after address (events ++ [.start]) = selected := by
  rw [after_concat]
  cases after address events <;> rfl

end Role

/-- A slave that sends the bytes of `stream` when it is read, and is otherwise receiving. -/
structure Sends (address : UInt8) (stream : ℕ → UInt8) (level : Observation → Bool) : Prop where
  listens : ∀ events, Role.after address events = .idle ∨ Role.after address events = .selected →
    Listens level events
  acknowledges : ∀ events, Role.after address events = .selected →
    level ⟨msbFirst (address ||| 1), events⟩ = false
  presents : ∀ events k, Role.after address events = .sending k → ∀ bits, bits.length ≠ 8 →
    level ⟨bits, events⟩ = (msbFirst (stream k)).getD (bits.length % 9) true
  ninth : ∀ events k, Role.after address events = .sending k → ∀ bits, bits.length = 8 →
    level ⟨bits, events⟩ = true
  releases : ∀ events, Role.after address events = .released → ∀ bits, level ⟨bits, events⟩ = true

/-- The slave that acknowledges all it receives. -/
def sendLevel (address : UInt8) (stream : ℕ → UInt8) (o : Observation) : Bool :=
  match Role.after address o.events with
  | .idle => acknowledges true o
  | .selected => acknowledges true o
  | .sending k => o.bits.length == 8 || (msbFirst (stream k)).getD (o.bits.length % 9) true
  | .released => true

theorem sends_sendLevel (address : UInt8) (stream : ℕ → UInt8) :
    Sends address stream (sendLevel address stream) where
  listens events hrole bits hlen := by
    rcases hrole with hidle | hselected
    · simp only [sendLevel, hidle]
      exact acknowledges_listens events bits hlen
    · simp only [sendLevel, hselected]
      exact acknowledges_listens events bits hlen
  acknowledges events hrole := by
    simp only [sendLevel, hrole]
    rfl
  presents events k hrole bits hlen := by
    simp only [sendLevel, hrole]
    rw [beq_false_of_ne hlen, Bool.false_or]
  ninth events k hrole bits hlen := by
    simp only [sendLevel, hrole, hlen]
    rfl
  releases events hrole bits := by simp only [sendLevel, hrole]

/-! ### Bits and bytes -/

variable {e : I2cBus} {o : Observation} {s : I2cState} {level : Observation → Bool}

theorem i2cRecvBit_low (he : e.Wired) (hslave : Presents e.slave level) (delay : UInt32)
    (hs : e.Low o s) :
    (e.i2cRecvBit delay s).1 = level o ∧ e.Low (o.clock (level o)) (e.i2cRecvBit delay s).2 := by
  obtain ⟨hhigh, hlow⟩ := ((hs.write_sda he true).i2cDelay delay).pulse he hslave delay
  rw [Bool.true_and] at hhigh hlow
  refine ⟨?_, hlow⟩
  have hwire := congrArg₂ and hhigh.sda hhigh.slave
  rw [Bool.true_and] at hwire
  exact hwire

/-- One turn of the loop that receives a byte. -/
def recvTurn (e : I2cBus) (delay : UInt32) (r : UInt8 × I2cState) (i : UInt8) :
    UInt8 × I2cState :=
  (r.1 ||| (if (e.i2cRecvBit delay r.2).1 then (1 : UInt8) else 0) <<< i,
    (e.i2cRecvBit delay r.2).2)

/-- The slave presents the bits `f i` for the turns `i`. -/
theorem recvBits_low (he : e.Wired) (hslave : Presents e.slave level) (delay : UInt32)
    (f : UInt8 → Bool) (turns : List UInt8) {o : Observation} {s : I2cState} (byte : UInt8)
    (hs : e.Low o s)
    (hlevel : ∀ done i, done ++ [i] <+: turns → level (o.clocks (done.map f)) = f i) :
    (turns.foldl (e.recvTurn delay) (byte, s)).1 =
        turns.foldl (fun byte i => byte ||| (if f i then (1 : UInt8) else 0) <<< i) byte ∧
      e.Low (o.clocks (turns.map f)) (turns.foldl (e.recvTurn delay) (byte, s)).2 := by
  induction turns generalizing o s byte with
  | nil => exact ⟨rfl, hs⟩
  | cons i turns ih =>
    have hbit : level o = f i := hlevel [] i (List.prefix_append [i] turns)
    obtain ⟨hrecv, hlow⟩ := i2cRecvBit_low he hslave delay hs
    rw [hbit] at hrecv hlow
    have hturn : e.recvTurn delay (byte, s) i =
        (byte ||| (if f i then (1 : UInt8) else 0) <<< i, (e.i2cRecvBit delay s).2) := by
      rw [recvTurn, hrecv]
    rw [List.foldl_cons, hturn]
    exact ih _ hlow fun done j hdone =>
      hlevel (i :: done) j (List.prefix_cons_inj i |>.mpr hdone)

/-- The master drives the ninth bit low to acknowledge. -/
theorem Settled.write_ack (he : e.Wired) (hs : e.Settled o true s) (ack : Bool) :
    e.Settled o (!ack) (e.writeBcr (if ack then pinMask e.sda else 0) s) := by
  cases ack with
  | true => exact hs.low.write_sda he false
  | false =>
    refine hs.low.settle ?_ ?_
    · rw [if_neg Bool.false_ne_true, bcr_zero, hs.sda, Bool.not_false]
    · rw [if_neg Bool.false_ne_true, bcr_zero, hs.scl]

/-- The slave presents bit `i` of its byte behind the bits `done`. -/
theorem Sends.level_eq {address : UInt8} {stream : ℕ → UInt8} (hsends : Sends address stream level)
    {k : ℕ} (ho : o.Aligned) (hrole : Role.after address o.events = .sending k) {done : List UInt8}
    {i : UInt8} (hdone : done ++ [i] <+: [7, 6, 5, 4, 3, 2, 1, 0]) :
    level (o.clocks (done.map fun i => (stream k &&& (1 : UInt8) <<< i) != 0)) =
      ((stream k &&& (1 : UInt8) <<< i) != 0) := by
  have hlen : done.length < 8 := by simpa using hdone.length_le
  have hturn : ([7, 6, 5, 4, 3, 2, 1, 0] : List UInt8)[done.length]? = some i := by
    obtain ⟨rest, hrest⟩ := hdone
    rw [← hrest]
    simp
  have hbit : (msbFirst (stream k)).getD done.length true =
      ((stream k &&& (1 : UInt8) <<< i) != 0) := by
    rw [List.getD_eq_getElem?_getD, msbFirst, List.getElem?_map, hturn]
    rfl
  rw [← hbit]
  by_cases hnil : done = []
  · subst hnil
    have hmod : o.bits.length % 9 = 0 := by obtain h | h := ho <;> omega
    have hfirst := hsends.presents o.events k hrole o.bits (by obtain h | h := ho <;> omega)
    rwa [hmod] at hfirst
  · rw [Observation.clocks_of_aligned ho (by simpa using hlen.le) (by simpa using hnil),
      hsends.presents o.events k hrole _ (by simpa using hlen.ne), List.length_map,
      Nat.mod_eq_of_lt (by omega)]

/-- The master receives the byte the slave sends. -/
theorem i2cRecvByte_settled (he : e.Wired) (hslave : Presents e.slave level) {address : UInt8}
    {stream : ℕ → UInt8} (hsends : Sends address stream level) (ack : Bool) (delay : UInt32) {k : ℕ}
    (hs : e.Low o s) (ho : o.Aligned) (hrole : Role.after address o.events = .sending k) :
    (e.i2cRecvByte ack delay s).1 = stream k ∧
      e.Settled ⟨msbFirst (stream k) ++ [!ack], o.events ++ [.byte (msbFirst (stream k)) (!ack)]⟩
        true (e.i2cRecvByte ack delay s).2 := by
  set bits := msbFirst (stream k) with hbits
  have hlen : bits.length = 8 := length_msbFirst (stream k)
  have hne : bits ≠ [] := List.ne_nil_of_length_eq_add_one hlen
  -- the eight bits of the slave
  obtain ⟨hbyte, height⟩ := recvBits_low he hslave delay
    (fun i => (stream k &&& (1 : UInt8) <<< i) != 0) [7, 6, 5, 4, 3, 2, 1, 0] 0 hs
    fun done i hdone => hsends.level_eq ho hrole hdone
  rw [foldl_setBit] at hbyte
  -- the slave has released the data line for the ninth clock
  have hninth := (((((height.write_sda he true).i2cDelay delay).write_ack he ack).i2cDelay
    delay).pulse he hslave delay).2
  have hreleased : level (o.clocks bits) = true := by
    rw [Observation.clocks_of_aligned ho hlen.le hne]
    exact hsends.ninth o.events k hrole bits hlen
  have hbits : ([7, 6, 5, 4, 3, 2, 1, 0] : List UInt8).map
      (fun i => (stream k &&& (1 : UInt8) <<< i) != 0) = bits := rfl
  rw [hbits, hreleased, Bool.and_true, Observation.clocks_byte ho hlen] at hninth
  have hparked := i2cRecvByte_parked he ack delay s
  exact ⟨hbyte, hninth.settle hparked.sda hparked.scl⟩

/-- The bytes `k`, `k + 1`, ... of the stream; the last of `n` bytes is not acknowledged. -/
def dataEvents (stream : ℕ → UInt8) (k n : ℕ) : List BusEvent :=
  (List.range n).map fun j => .byte (msbFirst (stream (k + j))) (decide (j + 1 = n))

theorem dataEvents_succ (stream : ℕ → UInt8) (k n : ℕ) :
    dataEvents stream k (n + 1) =
      .byte (msbFirst (stream k)) (!decide (0 < n)) :: dataEvents stream (k + 1) n := by
  rw [dataEvents, List.range_succ_eq_map, List.map_cons, List.map_map, dataEvents]
  congr 1
  · congr 1
    cases n <;> simp
  · apply List.map_congr_left
    intro j _
    simp [Nat.add_assoc, Nat.add_comm 1 j]

theorem recvLoop_succ (e : I2cBus) (delay : UInt32) (n : ℕ) (s : I2cState) :
    e.recvLoop delay (n + 1) s =
      ((e.i2cRecvByte (decide (0 < n)) delay s).1 ::
          (e.recvLoop delay n (e.i2cRecvByte (decide (0 < n)) delay s).2).1,
        (e.recvLoop delay n (e.i2cRecvByte (decide (0 < n)) delay s).2).2) := rfl

theorem recvLoop_settled (he : e.Wired) (hslave : Presents e.slave level) {address : UInt8}
    {stream : ℕ → UInt8} (hsends : Sends address stream level) (delay : UInt32) (n : ℕ) {k : ℕ}
    {o : Observation} {s : I2cState} (hs : e.Settled o true s) (ho : o.Aligned)
    (hrole : 0 < n → Role.after address o.events = .sending k) :
    (e.recvLoop delay n s).1 = (List.range n).map (fun j => stream (k + j)) ∧
      ∃ o', o'.Aligned ∧ o'.events = o.events ++ dataEvents stream k n ∧
        e.Settled o' true (e.recvLoop delay n s).2 := by
  induction n generalizing k o s with
  | zero => exact ⟨rfl, o, ho, (List.append_nil _).symm, hs⟩
  | succ n ih =>
    have hsending := hrole n.succ_pos
    obtain ⟨hbyte, hsettled⟩ :=
      i2cRecvByte_settled he hslave hsends (decide (0 < n)) delay hs.low ho hsending
    have hnext : 0 < n → Role.after address
        (o.events ++ [.byte (msbFirst (stream k)) (!decide (0 < n))]) = .sending (k + 1) := by
      intro hn
      rw [Role.after_concat, hsending, decide_eq_true hn]
      rfl
    obtain ⟨hrest, o', ho', hevents, hs'⟩ := ih hsettled (.inr rfl) hnext
    rw [recvLoop_succ]
    refine ⟨?_, o', ho', ?_, hs'⟩
    · dsimp only
      rw [hbyte, hrest, List.range_succ_eq_map, List.map_cons, List.map_map]
      congr 1
      apply List.map_congr_left
      intro j _
      rw [Function.comp_apply, Nat.succ_eq_add_one, Nat.add_right_comm, Nat.add_assoc]
    · rw [hevents, dataEvents_succ, List.append_assoc, List.singleton_append]

theorem toNat_counter_succ {i : Int32} (h : i.toUInt32.toNat + 1 < 2 ^ 32) :
    (i + 1).toUInt32.toNat = i.toUInt32.toNat + 1 := by
  rw [Int32.toUInt32_add]
  exact toNat_add_one (Nat.lt_sub_of_add_lt h)

/-- The loop under its own tests: the counter is signed and the length is not. -/
def recvFrom (e : I2cBus) (len delay : UInt32) (i : Int32) (s : I2cState) :
    List UInt8 × I2cState :=
  if i.toUInt32 < len then
    let byte := e.i2cRecvByte (decide (i.toUInt32 < len - 1)) delay s
    let rest := recvFrom e len delay (i + 1) byte.2
    (byte.1 :: rest.1, rest.2)
  else ([], s)
termination_by len.toNat - i.toUInt32.toNat
decreasing_by
  rename_i h
  have hlt : i.toUInt32.toNat < len.toNat := UInt32.lt_iff_toNat_lt.mp h
  have hlen := len.toNat_lt
  have hstep : (i + 1).toUInt32.toNat = i.toUInt32.toNat + 1 := toNat_counter_succ (by omega)
  omega

theorem recvFrom_eq_recvLoop (e : I2cBus) (len delay : UInt32) (n : ℕ) {i : Int32} {s : I2cState}
    (hn : i.toUInt32.toNat + n = len.toNat) :
    e.recvFrom len delay i s = e.recvLoop delay n s := by
  have hlen := len.toNat_lt
  induction n generalizing i s with
  | zero =>
    have hend : ¬ i.toUInt32 < len := by rw [UInt32.lt_iff_toNat_lt]; omega
    rw [recvFrom, if_neg hend]
    rfl
  | succ n ih =>
    have hturn : i.toUInt32 < len := by rw [UInt32.lt_iff_toNat_lt]; omega
    have hone : (1 : UInt32) ≤ len := UInt32.le_iff_toNat_le.mpr (by change 1 ≤ len.toNat; omega)
    have hmore : i.toUInt32 < len - 1 ↔ 0 < n := by
      rw [UInt32.lt_iff_toNat_lt, UInt32.toNat_sub_of_le _ _ hone]
      change _ < len.toNat - 1 ↔ _
      omega
    have hstep : (i + 1).toUInt32.toNat = i.toUInt32.toNat + 1 := toNat_counter_succ (by omega)
    have hrest : (i + 1).toUInt32.toNat + n = len.toNat := by omega
    rw [recvFrom, if_pos hturn, decide_eq_decide.mpr hmore, recvLoop_succ]
    dsimp only
    rw [ih hrest]

/-! ### Transactions -/

variable {address : UInt8} {stream : ℕ → UInt8}

theorem after_dataEvents (n : ℕ) {k : ℕ} {events : List BusEvent}
    (hrole : Role.after address events = .sending k) (hn : 0 < n) :
    Role.after address (events ++ dataEvents stream k n) = .released := by
  induction n generalizing k events with
  | zero => exact absurd hn (lt_irrefl 0)
  | succ n ih =>
    rw [dataEvents_succ, ← List.singleton_append, ← List.append_assoc]
    by_cases hmore : 0 < n
    · refine ih ?_ hmore
      rw [Role.after_concat, hrole, decide_eq_true hmore]
      rfl
    · obtain rfl : n = 0 := Nat.eq_zero_of_not_pos hmore
      rw [dataEvents, List.range_zero, List.map_nil, List.append_nil, Role.after_concat, hrole]
      rfl

/-- The address byte of a read leaves the slave sending. -/
theorem after_address (hsends : Sends address stream level) (events : List BusEvent) :
    heard level (events ++ [.start]) [address ||| 1] =
        events ++ [.start, byteEvent true (address ||| 1)] ∧
      Role.after address (events ++ [.start, byteEvent true (address ||| 1)]) = .sending 0 := by
  have hselected : Role.after address (events ++ [.start]) = .selected := Role.after_start events
  constructor
  · rw [heard, heard, answered, hsends.acknowledges _ hselected, List.append_assoc]
    rfl
  · rw [← List.singleton_append, ← List.append_assoc, Role.after_concat, hselected]
    exact if_pos ⟨rfl, rfl⟩

/-- A slave that has not been selected stays idle. -/
theorem after_heard_idle (events : List BusEvent) (buffer : List UInt8)
    (hidle : Role.after address events = .idle) :
    Role.after address (heard level events buffer) = .idle := by
  induction buffer generalizing events with
  | nil => exact hidle
  | cons byte rest ih =>
    apply ih
    rw [Role.after_concat, hidle]
    rfl

/-- The address byte of a write is not that of a read. -/
theorem msbFirst_ne (heven : address &&& 1 = 0) : msbFirst address ≠ msbFirst (address ||| 1) := by
  intro heq
  have hsame : address = address ||| 1 := msbFirst_injective heq
  have hdistrib : (address ||| 1) &&& 1 = (address &&& 1) ||| (1 &&& 1) :=
    UInt8.toBitVec_inj.mp BitVec.and_or_distrib_right
  rw [← hsame, heven, UInt8.and_self, UInt8.zero_or] at hdistrib
  cases hdistrib

/-- The slave listens to a write. -/
theorem Sends.listens_write (hsends : Sends address stream level) (heven : address &&& 1 = 0)
    (events : List BusEvent) (buffer : List UInt8) :
    Role.after address (heard level (events ++ [.start]) (address :: buffer)) = .idle ∧
      ∀ done, done <+: address :: buffer →
        Listens level (heard level (events ++ [.start]) done) := by
  have hwrite : ∀ rest,
      Role.after address (heard level (events ++ [.start]) (address :: rest)) = .idle := by
    intro rest
    refine after_heard_idle (events ++ [.start] ++ [answered level _ address]) rest ?_
    rw [Role.after_concat, Role.after_start]
    exact if_neg fun h => msbFirst_ne heven h.1
  refine ⟨hwrite buffer, fun done hdone => ?_⟩
  cases done with
  | nil => exact hsends.listens _ (.inr (Role.after_start events))
  | cons byte rest =>
    obtain ⟨rfl, -⟩ := List.cons_prefix_cons.mp hdone
    exact hsends.listens _ (.inl (hwrite rest))

/-- The bits of a byte, without its ninth. -/
def bitCount : BusEvent → ℕ
  | .byte bits _ => bits.length
  | _ => 0

/-- A read of `len` bytes behind the events `before`. -/
structure Reads (address : UInt8) (stream : ℕ → UInt8) (len : ℕ) (before : List BusEvent)
    (r : List UInt8 × I2cState) : Prop where
  buffer : r.1 = (List.range len).map stream
  events : (observe r.2.trace).events = before ++ [.start, byteEvent true (address ||| 1)] ++
    (List.range len).map fun k => .byte (msbFirst (stream k)) (decide (k + 1 = len))
  shifted : (((observe r.2.trace).events.drop (before.length + 2)).map bitCount).sum = 8 * len
  released : Role.after address (observe r.2.trace).events = .released

theorem readPhase_reads (he : e.Wired) (hslave : Presents e.slave level)
    (hsends : Sends address stream level) {len : ℕ} (hlen : 0 < len) (stop : Int32)
    (delay : UInt32) {before : List BusEvent} (hs : e.Settled o true s) (ho : o.Aligned)
    (hevents : o.events = heard level (before ++ [.start]) [address ||| 1]) :
    Reads address stream len before (e.readPhase len stop delay s) := by
  obtain ⟨hheard, hsending⟩ := after_address hsends before
  rw [hheard] at hevents
  rw [← hevents] at hsending
  obtain ⟨hbuffer, o', ho', hdata, hs'⟩ :=
    recvLoop_settled he hslave hsends delay len hs ho fun _ => hsending
  have htrace : (observe (e.readPhase len stop delay s).2.trace).events = o'.events := by
    dsimp only [readPhase]
    by_cases hstop : stop ≠ 0
    · rw [if_pos hstop, i2cStop_events he hslave delay hs' ho']
    · rw [if_neg hstop, hs'.observed]
  have hzero : (List.range len).map (fun j => stream (0 + j)) = (List.range len).map stream := by
    simp only [Nat.zero_add]
  have hall : o'.events = before ++ [.start, byteEvent true (address ||| 1)] ++
      (List.range len).map fun k => .byte (msbFirst (stream k)) (decide (k + 1 = len)) := by
    rw [hdata, hevents, dataEvents]
    simp only [Nat.zero_add]
  refine ⟨hbuffer.trans hzero, htrace.trans hall, ?_, ?_⟩
  · have hcount : bitCount ∘ (fun k => .byte (msbFirst (stream k)) (decide (k + 1 = len))) =
        fun _ => 8 := rfl
    rw [htrace, hall, List.drop_left' (by simp), List.map_map, hcount]
    simp [Nat.mul_comm]
  · rw [htrace, hdata]
    exact after_dataEvents len hsending hlen

/-- A read stores the bytes of the slave and stops it behind the last one. -/
theorem i2cRead_decoded (he : e.Wired) (hslave : Presents e.slave level)
    (hsends : Sends address stream level) (len : UInt32) (hlen : 0 < len) (stop : Int32)
    (delay : UInt32) (s : I2cState)
    (hfree : (e.beforeStart delay s).trace.head? = some ⟨true, true⟩) :
    Reads address stream len.toNat (observe (e.beforeStart delay s).trace).events
        (e.i2cRecvBytes address len.toNat stop delay s) ∧
      (∀ outBuffer, address &&& 1 = 0 →
        Reads address stream len.toNat
          (heard level ((observe (e.beforeStart delay s).trace).events ++ [.start])
            (address :: outBuffer))
          (e.i2cSendRecvBytes address outBuffer len.toNat stop delay s)) ∧
      ∀ s', e.recvFrom len delay 0 s' = e.recvLoop delay len.toNat s' := by
  have hpos : 0 < len.toNat := UInt32.lt_iff_toNat_lt.mp hlen
  refine ⟨?_, fun outBuffer heven => ?_, fun s' => ?_⟩
  · have hstart := i2cStart_low he hslave.obeys delay s hfree
    have hselected : Role.after address
        ((observe (e.beforeStart delay s).trace).events ++ [.start]) = .selected :=
      Role.after_start _
    have haddress := i2cSendByte_settled he hslave (address ||| 1) delay hstart (.inl rfl)
      (hsends.listens _ (.inr hselected))
    exact readPhase_reads he hslave hsends hpos stop delay haddress (.inr rfl) rfl
  · obtain ⟨hidle, hlisten⟩ := hsends.listens_write heven
      (observe (e.beforeStart delay s).trace).events outBuffer
    obtain ⟨o, ho, hevents, hs⟩ := write_settled he hslave address outBuffer delay s hfree hlisten
    rw [← hevents] at hidle
    obtain ⟨o', ho', hevents', hs'⟩ := restart_settled he hslave (address ||| 1) delay hs ho
      (hsends.listens _ (.inl hidle)) (hsends.listens _ (.inr (Role.after_start o.events)))
    rw [hevents] at hevents'
    rw [i2cSendRecvBytes_eq]
    exact readPhase_reads he hslave hsends hpos stop delay hs' ho' hevents'
  · exact recvFrom_eq_recvLoop e len delay len.toNat (Nat.zero_add _)

/-- A slave that counts. -/
def countingBus : I2cBus where
  sda := 6
  scl := 7
  slave := follow (sendLevel 0xA0 UInt8.ofNat)

theorem i2cRead_decoded_counting :
    Reads 0xA0 UInt8.ofNat 3 [] (countingBus.i2cRecvBytes 0xA0 3 1 1 ⟨0, []⟩) ∧
      Reads 0xA0 UInt8.ofNat 3 [.start, byteEvent true 0xA0, byteEvent true 0x81]
        (countingBus.i2cSendRecvBytes 0xA0 [0x81] 3 1 1 ⟨0, []⟩) := by
  have hwired : countingBus.Wired := ⟨by decide, by decide, by decide⟩
  have hfree : (countingBus.beforeStart 1 ⟨0, []⟩).trace.head? = some ⟨true, true⟩ := by
    decide +kernel
  have hbefore : (observe (countingBus.beforeStart 1 ⟨0, []⟩).trace).events = [] := by
    decide +kernel
  obtain ⟨hrecv, hsendRecv, -⟩ := i2cRead_decoded hwired (presents_follow _)
    (sends_sendLevel 0xA0 UInt8.ofNat) 3 (by decide) 1 1 ⟨0, []⟩ hfree
  rw [hbefore] at hrecv hsendRecv
  exact ⟨hrecv, hsendRecv [0x81] (by decide)⟩

end I2cBus

end Not232
