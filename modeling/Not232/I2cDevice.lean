import Not232.I2cWave

/-!
# The bit-banged I2C device

The device polls the wires, and every read of a wire takes one sample. The other drivers of the bus
are a list of the levels that they drive from now on; the device can pull the data line low.
-/

namespace Not232

open TwoWire

/-- The levels to come and the output latch of the device for the data line. -/
structure DeviceBus where
  samples : List Wires
  sda : Bool

/-- A program of the device, which fails when the samples end. -/
abbrev Polls := StateT DeviceBus Option

namespace Polls

def stop : UInt16 := 0xFFFF

def ofBit (bit : Bool) : UInt16 := if bit then 1 else 0

def readScl : Polls Bool := fun s =>
  match s.samples with
  | [] => none
  | w :: rest => some (w.scl, { s with samples := rest })

def readSda : Polls Bool := fun s =>
  match s.samples with
  | [] => none
  | w :: rest => some (w.sda && s.sda, { s with samples := rest })

def setSda (level : Bool) : Polls Unit := fun s => some ((), { s with sda := level })

/-- The samples behind the first one with the level. -/
def skipUntil (line : Wires → Bool) (level : Bool) : List Wires → Option (List Wires)
  | [] => none
  | w :: rest => if line w = level then some rest else skipUntil line level rest

/-- The loop that polls the clock until it has the level. -/
def waitScl (level : Bool) : Polls Unit := fun s =>
  (skipUntil Wires.scl level s.samples).map fun rest => ((), { s with samples := rest })

/-- The loop that polls the data line until it is low. -/
def waitSdaLow : Polls Unit := fun s =>
  (skipUntil (fun w => w.sda && s.sda) false s.samples).map fun rest =>
    ((), { s with samples := rest })

def i2cDeviceStartCondition : Polls Unit := do
  let scl ← readScl
  let idle ← if scl then readSda else pure false
  if idle then waitSdaLow
  waitScl false

/-- The loop of `i2c_device_read_bit` while the clock is high. -/
def watchBit (bit latch : Bool) : List Wires → Option (UInt16 × List Wires)
  | [] => none
  | [w] => if w.scl then none else some (ofBit bit, [])
  | w :: v :: rest =>
    if w.scl then
      if (v.sda && latch) ≠ bit then some (stop, rest) else watchBit bit latch rest
    else some (ofBit bit, v :: rest)

def i2cDeviceReadBit : Polls UInt16 := do
  waitScl true
  let bit ← readSda
  fun s => (watchBit bit s.sda s.samples).map fun r => (r.1, { s with samples := r.2 })

def i2cDeviceAck (ack sda : Bool) : Polls Unit := do
  setSda (!ack)
  waitScl true
  waitScl false
  setSda sda

/-- The loop of `i2c_device_read_byte` with `n` bits to go. -/
def readBits : (n : ℕ) → (byte : UInt8) → Polls UInt8
  | 0, byte => pure byte
  | n + 1, byte => do
    let bit ← i2cDeviceReadBit
    readBits n (byte <<< 1 ||| bit.toUInt8)

def i2cDeviceReadByte : Polls UInt16 := do
  let firstBit ← i2cDeviceReadBit
  if firstBit = stop then pure stop
  else do
    let byte ← readBits 7 0
    i2cDeviceAck true true
    pure byte.toUInt16

/-- The loop that reads bytes until a stop condition. Every byte takes a sample. -/
def readUntilStop : (fuel : ℕ) → Polls Unit
  | 0 => fun _ => none
  | fuel + 1 => do
    let byte ← i2cDeviceReadByte
    if byte = stop then pure () else readUntilStop fuel

def drain : Polls Unit := fun s => readUntilStop (s.samples.length + 1) s

/-- The loop of `i2c_device_read2` with `left` bytes to go behind those in `buffer`. -/
def readBuffer (size : UInt32) : (left : ℕ) → (buffer : List UInt8) →
    Polls (UInt32 × List UInt8)
  | 0, buffer => do
    drain
    pure (size, buffer)
  | left + 1, buffer => do
    let byte ← i2cDeviceReadByte
    if byte = stop then pure (.ofNat buffer.length, buffer)
    else readBuffer size left (buffer ++ [byte.toUInt8])

/-- The return value and the bytes stored in the buffer. -/
def i2cDeviceRead2 (address : UInt8) (size : UInt32) : Polls (UInt32 × List UInt8) := do
  i2cDeviceStartCondition
  let busAddress ← i2cDeviceReadByte
  if busAddress = stop then pure (-1, [])
  else if busAddress.toUInt32 = address.toUInt32 <<< 1 then readBuffer size size.toNat []
  else do
    drain
    pure (-2, [])

/-- Calls of `i2c_device_read_byte` in a row. -/
def readBytes : (n : ℕ) → Polls (List UInt16)
  | 0 => pure []
  | n + 1 => do
    let byte ← i2cDeviceReadByte
    let rest ← readBytes n
    pure (byte :: rest)

/-! ### Reading a waveform -/

/-- On the waveform, with the clock low before it, the program returns `v` and leaves the samples
behind it, again with the clock low. -/
def Reads {α : Type} (p : Polls α) (wave : List Wires) (v : α) : Prop :=
  ∀ before, ClockLow before → ∀ rest, ∃ after, ClockLow after ∧
    p ⟨before ++ (wave ++ rest), true⟩ = some (v, ⟨after ++ rest, true⟩)

/-- The last waveform of a transaction, behind which the samples do not matter. -/
def Ends {α : Type} (p : Polls α) (wave : List Wires) (v : α) : Prop :=
  ∀ before, ClockLow before → ∃ s, p ⟨before ++ wave, true⟩ = some (v, s)

variable {α β : Type} {p : Polls α} {f : α → Polls β} {wave more : List Wires} {v : α} {w : β}
  {bit : Bool} {byte : UInt8} {bytes : List UInt8}

theorem bind_eq {s s' : DeviceBus} (h : p s = some (v, s')) : (p >>= f) s = f v s' := by
  change (p s).bind (fun r => f r.1 r.2) = _
  rw [h]
  rfl

theorem reads_pure (v : α) : Reads (pure v) [] v :=
  fun before hbefore _ => ⟨before, hbefore, rfl⟩

theorem Reads.bind (h : Reads p wave v) (hf : Reads (f v) more w) :
    Reads (p >>= f) (wave ++ more) w := by
  intro before hbefore rest
  obtain ⟨middle, hmiddle, hfirst⟩ := h before hbefore (more ++ rest)
  obtain ⟨after, hafter, hsecond⟩ := hf middle hmiddle rest
  refine ⟨after, hafter, ?_⟩
  rw [List.append_assoc, bind_eq hfirst, hsecond]

theorem Reads.ends (h : Reads p wave v) (hf : Ends (f v) more w) :
    Ends (p >>= f) (wave ++ more) w := by
  intro before hbefore
  obtain ⟨middle, hmiddle, hfirst⟩ := h before hbefore more
  obtain ⟨s, hsecond⟩ := hf middle hmiddle
  exact ⟨s, by rw [bind_eq hfirst, hsecond]⟩

theorem Ends.bind_pure (h : Ends p wave v) (hf : f v = pure w) : Ends (p >>= f) wave w := by
  intro before hbefore
  obtain ⟨s, hfirst⟩ := h before hbefore
  exact ⟨s, by rw [bind_eq hfirst, hf]; rfl⟩

/-! ### Bits -/

theorem skipUntil_eq {line : Wires → Bool} {level : Bool} {skipped : List Wires} {x : Wires}
    (hskipped : ∀ y ∈ skipped, line y = !level) (hx : line x = level) (rest : List Wires) :
    skipUntil line level (skipped ++ x :: rest) = some rest := by
  induction skipped with
  | nil => rw [List.nil_append, skipUntil, if_pos hx]
  | cons y skipped ih =>
    have hy : line y ≠ level := by
      rw [hskipped y List.mem_cons_self]
      exact Bool.not_ne_self level
    rw [List.cons_append, skipUntil, if_neg hy]
    exact ih fun z hz => hskipped z (List.mem_cons_of_mem y hz)

theorem waitScl_eq (level latch : Bool) {skipped : List Wires} {x : Wires}
    (hskipped : ∀ y ∈ skipped, y.scl = !level) (hx : x.scl = level) (rest : List Wires) :
    waitScl level ⟨skipped ++ x :: rest, latch⟩ = some ((), ⟨rest, latch⟩) := by
  rw [waitScl, skipUntil_eq hskipped hx]
  rfl

/-- The loop takes the samples in pairs, so it ends with the first or the second low one. -/
theorem watchBit_eq (bit : Bool) (n : ℕ) {next : Wires} {after : List Wires}
    (hafter : ClockLow (next :: after)) (rest : List Wires) :
    ∃ low, ClockLow low ∧
      watchBit bit true (List.replicate n ⟨bit, true⟩ ++ ⟨bit, false⟩ :: next :: (after ++ rest)) =
        some (ofBit bit, low ++ rest) := by
  induction n using Nat.twoStepInduction with
  | zero => exact ⟨next :: after, hafter, rfl⟩
  | one =>
    obtain ⟨hnext, hrest⟩ := List.forall_mem_cons.mp hafter
    refine ⟨after, hrest, ?_⟩
    cases hlevels : after ++ rest with
    | nil => simp [watchBit, hnext]
    | cons x levels => simp [watchBit, hnext]
  | more n ih _ =>
    rcases ih with ⟨low, hlow, hwatch⟩
    refine ⟨low, hlow, ?_⟩
    rw [← hwatch, List.replicate_succ, List.replicate_succ, List.cons_append, List.cons_append]
    simp [watchBit]

theorem watchBit_stop (n : ℕ) (after : List Wires) :
    ∃ rest, watchBit false true
      (List.replicate n ⟨false, true⟩ ++ ⟨true, true⟩ :: ⟨true, true⟩ :: after) =
        some (stop, rest) := by
  induction n using Nat.twoStepInduction with
  | zero => exact ⟨after, rfl⟩
  | one => exact ⟨⟨true, true⟩ :: after, rfl⟩
  | more n ih _ =>
    rcases ih with ⟨rest, hwatch⟩
    refine ⟨rest, ?_⟩
    rw [← hwatch, List.replicate_succ, List.replicate_succ, List.cons_append, List.cons_append]
    simp [watchBit]

/-- The rising clock and the sample behind it. -/
theorem readBit_eq (bit : Bool) {before : List Wires} (hbefore : ClockLow before) (n : ℕ)
    (rest : List Wires) :
    i2cDeviceReadBit ⟨before ++ (List.replicate (n + 2) ⟨bit, true⟩ ++ rest), true⟩ =
      (watchBit bit true (List.replicate n ⟨bit, true⟩ ++ rest)).map fun r =>
        (r.1, ⟨r.2, true⟩) := by
  have hwait : waitScl true
      ⟨before ++ ⟨bit, true⟩ :: ⟨bit, true⟩ :: (List.replicate n ⟨bit, true⟩ ++ rest), true⟩ =
        some ((), ⟨⟨bit, true⟩ :: (List.replicate n ⟨bit, true⟩ ++ rest), true⟩) :=
    waitScl_eq true true hbefore rfl _
  have hread : readSda ⟨⟨bit, true⟩ :: (List.replicate n ⟨bit, true⟩ ++ rest), true⟩ =
      some (bit, ⟨List.replicate n ⟨bit, true⟩ ++ rest, true⟩) := by
    rw [readSda]
    dsimp only
    rw [Bool.and_true]
  rw [i2cDeviceReadBit, List.replicate_succ, List.replicate_succ, List.cons_append,
    List.cons_append, bind_eq hwait, bind_eq hread]

theorem readBit_reads (h : BitWave bit wave) : Reads i2cDeviceReadBit wave (ofBit bit) := by
  obtain ⟨low, n, next, after, hlow, hafter, rfl⟩ := h
  intro before hbefore rest
  obtain ⟨left, hleft, hwatch⟩ := watchBit_eq bit n hafter rest
  refine ⟨left, hleft, ?_⟩
  have hread := readBit_eq bit (hbefore.append hlow) n (⟨bit, false⟩ :: next :: (after ++ rest))
  rw [hwatch] at hread
  simpa only [List.append_assoc, List.cons_append, Option.map_some] using hread

theorem readBit_stop (h : StopWave wave) : Ends i2cDeviceReadBit wave stop := by
  obtain ⟨low, n, after, hlow, rfl⟩ := h
  intro before hbefore
  obtain ⟨rest, hwatch⟩ := watchBit_stop n after
  refine ⟨⟨rest, true⟩, ?_⟩
  have hread := readBit_eq false (hbefore.append hlow) n (⟨true, true⟩ :: ⟨true, true⟩ :: after)
  rw [hwatch, List.append_assoc] at hread
  exact hread

theorem ack_reads (h : AckWave wave) : Reads (i2cDeviceAck true true) wave () := by
  obtain ⟨low, first, high, last, after, hlow, hfirst, hhigh, hafter, rfl⟩ := h
  intro before hbefore rest
  obtain ⟨hlast, hleft⟩ := List.forall_mem_cons.mp hafter
  refine ⟨after, hleft, ?_⟩
  have hrise := waitScl_eq true false (hbefore.append hlow) hfirst
    (high ++ last :: (after ++ rest))
  have hfall := waitScl_eq false false hhigh hlast (after ++ rest)
  have hpull : setSda (!true) ⟨before ++ (low ++ first :: (high ++ last :: after) ++ rest), true⟩ =
      some ((), ⟨before ++ low ++ first :: (high ++ last :: (after ++ rest)), false⟩) := by
    simp only [setSda, Bool.not_true, List.append_assoc, List.cons_append]
  rw [i2cDeviceAck, bind_eq hpull, bind_eq hrise, bind_eq hfall]
  rfl

/-! ### Bytes -/

theorem readBits_reads {bits : List Bool} {waves : List (List Wires)}
    (h : List.Forall₂ BitWave bits waves) (byte : UInt8) :
    Reads (readBits bits.length byte) waves.flatten (bits.foldl pushBit byte) := by
  induction h generalizing byte with
  | nil => exact reads_pure byte
  | @cons bit wave bits waves hwave _ ih =>
    have hpush : byte <<< 1 ||| (ofBit bit).toUInt8 = pushBit byte bit := by
      cases bit <;> rfl
    rw [List.foldl_cons, ← hpush]
    exact (readBit_reads hwave).bind (ih _)

theorem ofBit_ne_stop (bit : Bool) : ofBit bit ≠ stop := by
  cases bit <;> decide

/-- The bits behind the first one. -/
theorem foldl_tail (byte : UInt8) : (msbFirst byte).tail.foldl pushBit 0 = byte &&& 0x7F := by
  revert byte
  exact forall_byte (by decide +kernel)

/-- The first bit of a byte does not get into the result. -/
theorem readByte_reads (h : ByteWave byte wave) :
    Reads i2cDeviceReadByte wave (byte &&& 0x7F).toUInt16 := by
  obtain ⟨waves, ack, hbits, hack, rfl⟩ := h
  obtain ⟨first, tail, hmsb⟩ : ∃ first tail, msbFirst byte = first :: tail := ⟨_, _, rfl⟩
  have hlength : tail.length = 7 := by
    have hcons := length_msbFirst byte
    rwa [hmsb, List.length_cons, Nat.succ_inj] at hcons
  have hvalue : tail.foldl pushBit 0 = byte &&& 0x7F := by rw [← foldl_tail, hmsb, List.tail_cons]
  rw [hmsb] at hbits
  cases hbits with
  | @cons _ wave _ waves hfirst htail =>
    have hread := readBits_reads htail 0
    rw [hlength, hvalue] at hread
    have hend : Reads (do
        i2cDeviceAck true true
        pure (byte &&& 0x7F).toUInt16) (ack ++ []) (byte &&& 0x7F).toUInt16 :=
      (ack_reads hack).bind (reads_pure _)
    rw [List.append_nil] at hend
    rw [List.flatten_cons, List.append_assoc]
    apply (readBit_reads hfirst).bind
    rw [if_neg (ofBit_ne_stop first)]
    exact hread.bind hend

theorem readByte_stop (h : StopWave wave) : Ends i2cDeviceReadByte wave stop :=
  (readBit_stop h).bind_pure (if_pos rfl)

theorem byte_ne_stop (byte : UInt8) : byte.toUInt16 ≠ stop := by
  revert byte
  exact forall_byte (by decide +kernel)

/-! ### Transactions -/

section Transaction

variable {waves : List (List Wires)} {tail : List Wires}

theorem readBytes_ends (hwaves : List.Forall₂ ByteWave bytes waves) (htail : StopWave tail) :
    Ends (readBytes (bytes.length + 1)) (waves.flatten ++ tail)
      (bytes.map (fun byte => (byte &&& 0x7F).toUInt16) ++ [stop]) := by
  induction hwaves with
  | nil => exact (readByte_stop htail).bind_pure rfl
  | @cons byte wave bytes waves hwave _ ih =>
    rw [List.flatten_cons, List.append_assoc]
    exact (readByte_reads hwave).ends (ih.bind_pure rfl)

theorem readUntilStop_ends (hwaves : List.Forall₂ ByteWave bytes waves) (htail : StopWave tail)
    {fuel : ℕ} (hfuel : bytes.length < fuel) :
    Ends (readUntilStop fuel) (waves.flatten ++ tail) () := by
  induction hwaves generalizing fuel with
  | nil =>
    cases fuel with
    | zero => exact absurd hfuel (Nat.not_lt_zero _)
    | succ fuel => exact (readByte_stop htail).bind_pure rfl
  | @cons byte wave bytes waves hwave _ ih =>
    cases fuel with
    | zero => exact absurd hfuel (Nat.not_lt_zero _)
    | succ fuel =>
      rw [List.flatten_cons, List.append_assoc]
      apply (readByte_reads hwave).ends
      rw [if_neg (byte_ne_stop _)]
      exact ih (Nat.lt_of_succ_lt_succ hfuel)

theorem drain_ends (hwaves : List.Forall₂ ByteWave bytes waves) (htail : StopWave tail) :
    Ends drain (waves.flatten ++ tail) () := by
  intro before hbefore
  have hlength := length_le_of_byteWaves hwaves
  refine readUntilStop_ends hwaves htail ?_ before hbefore
  simp only [List.length_append]
  omega

/-- The bytes that fit the buffer, less their first bits, and their number. -/
theorem readBuffer_ends (hwaves : List.Forall₂ ByteWave bytes waves) (htail : StopWave tail)
    (size : UInt32) {left : ℕ} {buffer : List UInt8} (hleft : buffer.length + left = size.toNat) :
    Ends (readBuffer size left buffer) (waves.flatten ++ tail)
      (.ofNat (min size.toNat (buffer.length + bytes.length)),
        buffer ++ (bytes.take left).map (· &&& 0x7F)) := by
  induction hwaves generalizing left buffer with
  | nil =>
    cases left with
    | zero =>
      have hall : min size.toNat (buffer.length + 0) = size.toNat := by omega
      rw [List.length_nil, hall, UInt32.ofNat_toNat, List.take_nil, List.map_nil, List.append_nil]
      exact (drain_ends .nil htail).bind_pure rfl
    | succ left =>
      have hall : min size.toNat (buffer.length + 0) = buffer.length := by omega
      rw [List.length_nil, hall, List.take_nil, List.map_nil, List.append_nil]
      exact (readByte_stop htail).bind_pure rfl
  | @cons byte wave bytes waves hwave hrest ih =>
    cases left with
    | zero =>
      have hall : min size.toNat (buffer.length + (byte :: bytes).length) = size.toNat := by omega
      rw [hall, UInt32.ofNat_toNat, List.take_zero, List.map_nil, List.append_nil]
      exact (drain_ends (.cons hwave hrest) htail).bind_pure rfl
    | succ left =>
      have hlength : (buffer ++ [byte &&& 0x7F]).length = buffer.length + 1 := by simp
      have hnext : Ends (readBuffer size left (buffer ++ [byte &&& 0x7F])) (waves.flatten ++ tail)
          (.ofNat (min size.toNat ((buffer ++ [byte &&& 0x7F]).length + bytes.length)),
            buffer ++ [byte &&& 0x7F] ++ (bytes.take left).map (· &&& 0x7F)) :=
        ih (by rw [hlength]; omega)
      rw [hlength, Nat.add_assoc, Nat.add_comm 1, List.append_assoc] at hnext
      rw [List.flatten_cons, List.append_assoc, List.take_succ_cons, List.map_cons]
      apply (readByte_reads hwave).ends
      rw [if_neg (byte_ne_stop _), UInt8.toUInt8_toUInt16]
      exact hnext

/-- The two polls of an idle bus. -/
theorem startCondition_idle (x : Wires) (rest : List Wires) :
    i2cDeviceStartCondition ⟨⟨true, true⟩ :: x :: rest, true⟩ =
      if x.sda then (waitSdaLow >>= fun _ => waitScl false) ⟨rest, true⟩
      else waitScl false ⟨rest, true⟩ := by
  rcases x with ⟨sda, scl⟩
  cases sda <;> rfl

theorem startCondition_eq {start : List Wires} (h : StartWave start) (rest : List Wires) :
    ∃ after, ClockLow after ∧
      i2cDeviceStartCondition ⟨start ++ rest, true⟩ = some ((), ⟨after ++ rest, true⟩) := by
  obtain ⟨n, k, first, after, hafter, rfl⟩ := h
  obtain ⟨hfirst, hlow⟩ := List.forall_mem_cons.mp hafter
  refine ⟨after, hlow, ?_⟩
  have hhigh : ∀ y ∈ List.replicate k (⟨false, true⟩ : Wires), y.scl = !false := fun y hy =>
    congrArg Wires.scl (List.eq_of_mem_replicate hy)
  have hfall := waitScl_eq false true hhigh hfirst (after ++ rest)
  simp only [List.append_assoc, List.cons_append, List.replicate_succ]
  cases n with
  | zero =>
    rw [List.replicate_zero, List.nil_append, startCondition_idle, if_neg Bool.false_ne_true]
    exact hfall
  | succ n =>
    have hidle : ∀ y ∈ List.replicate n (⟨true, true⟩ : Wires), (y.sda && true) = !false :=
      fun y hy => by rw [List.eq_of_mem_replicate hy]; rfl
    have hdata : waitSdaLow ⟨List.replicate n ⟨true, true⟩ ++
        ⟨false, true⟩ :: (List.replicate k ⟨false, true⟩ ++ first :: (after ++ rest)), true⟩ =
          some ((), ⟨List.replicate k ⟨false, true⟩ ++ first :: (after ++ rest), true⟩) := by
      rw [waitSdaLow, skipUntil_eq hidle rfl]
      rfl
    rw [List.replicate_succ, List.cons_append, startCondition_idle, if_pos rfl, bind_eq hdata]
    exact hfall

/-- What a program returns. -/
def returns {α : Type} (p : Polls α) (wave : List Wires) : Option α := (p ⟨wave, true⟩).map Prod.fst

theorem returns_of_ends {start : List Wires} (hstart : StartWave start) (h : Ends p more v) :
    returns (i2cDeviceStartCondition >>= fun _ => p) (start ++ more) = some v := by
  obtain ⟨after, hafter, hcondition⟩ := startCondition_eq hstart more
  obtain ⟨s, hend⟩ := h after hafter
  rw [returns, bind_eq hcondition, hend]
  rfl

/-- The results of as many calls of `i2c_device_read_byte` as there are bytes and one more. -/
theorem readBytes_returns (h : TransactionWave bytes wave) :
    returns (i2cDeviceStartCondition >>= fun _ => readBytes (bytes.length + 1)) wave =
      some (bytes.map (fun byte => (byte &&& 0x7F).toUInt16) ++ [stop]) := by
  obtain ⟨start, waves, tail, hstart, hwaves, htail, rfl⟩ := h
  exact returns_of_ends hstart (readBytes_ends hwaves htail)

theorem address_eq_iff {address : UInt8} (haddress : address < 0x80) :
    ((address <<< 1 &&& 0x7F).toUInt16.toUInt32 = address.toUInt32 <<< 1 ↔ address < 0x40) := by
  have hall : ∀ address : UInt8, address < 0x80 →
      ((address <<< 1 &&& 0x7F).toUInt16.toUInt32 = address.toUInt32 <<< 1 ↔ address < 0x40) :=
    forall_byte (by decide +kernel)
  exact hall address haddress

theorem read2_returns {address : UInt8} (haddress : address < 0x80) {data : List UInt8}
    (h : TransactionWave (address <<< 1 :: data) wave) (size : UInt32) :
    returns (i2cDeviceRead2 address size) wave =
      some (if address < 0x40 then
        (.ofNat (min size.toNat data.length), (data.take size.toNat).map (· &&& 0x7F))
      else (-2, [])) := by
  obtain ⟨start, waves, tail, hstart, hwaves, htail, rfl⟩ := h
  apply returns_of_ends hstart
  cases hwaves with
  | @cons _ wave _ waves hbyte hdata =>
    rw [List.flatten_cons, List.append_assoc]
    apply (readByte_reads hbyte).ends
    rw [if_neg (byte_ne_stop _)]
    by_cases hlow : address < 0x40
    · rw [if_pos ((address_eq_iff haddress).mpr hlow), if_pos hlow]
      have hempty : ([] : List UInt8).length + size.toNat = size.toNat := Nat.zero_add _
      have hbuffer := readBuffer_ends hdata htail size hempty
      rwa [List.length_nil, Nat.zero_add, List.nil_append] at hbuffer
    · rw [if_neg (mt (address_eq_iff haddress).mp hlow), if_neg hlow]
      exact (drain_ends hdata htail).bind_pure rfl

end Transaction

/-! ### The bytes that arrive unchanged -/

theorem low_bits_iff (byte : UInt8) : byte &&& 0x7F = byte ↔ byte < 0x80 := by
  revert byte
  exact forall_byte (by decide +kernel)

theorem map_low_bits_iff (bytes : List UInt8) :
    bytes.map (· &&& 0x7F) = bytes ↔ ∀ byte ∈ bytes, byte < 0x80 := by
  induction bytes with
  | nil => simp
  | cons byte bytes ih =>
    rw [List.map_cons, List.cons.injEq, ih, low_bits_iff, List.forall_mem_cons]

theorem map_words_iff (bytes : List UInt8) :
    bytes.map (fun byte => (byte &&& 0x7F).toUInt16) ++ [stop] =
        bytes.map UInt8.toUInt16 ++ [stop] ↔ ∀ byte ∈ bytes, byte < 0x80 := by
  rw [List.append_left_inj, List.map_inj_left]
  apply forall₂_congr
  intro byte _
  rw [UInt8.toUInt16_inj, low_bits_iff]

/-- The calls of `i2c_device_read_byte` return the bytes and then `STOP` if and only if no byte has
its first bit set, and `i2c_device_read2` with the address of the transaction returns its data and
their number if and only if neither the address byte nor a byte of the data in the buffer has. -/
theorem i2cDevice_decodes_iff (h : TransactionWave bytes wave) :
    (returns (i2cDeviceStartCondition >>= fun _ => readBytes (bytes.length + 1)) wave =
        some (bytes.map UInt8.toUInt16 ++ [stop]) ↔ ∀ byte ∈ bytes, byte < 0x80) ∧
      ∀ (address : UInt8) (data : List UInt8), address < 0x80 → bytes = address <<< 1 :: data →
        ∀ size : UInt32, (returns (i2cDeviceRead2 address size) wave =
            some (.ofNat (min size.toNat data.length), data.take size.toNat) ↔
          address < 0x40 ∧ ∀ byte ∈ data.take size.toNat, byte < 0x80) := by
  constructor
  · rw [readBytes_returns h, Option.some_inj, map_words_iff]
  · rintro address data haddress rfl size
    rw [read2_returns haddress h, Option.some_inj]
    by_cases hlow : address < 0x40
    · rw [if_pos hlow, Prod.mk.injEq, map_low_bits_iff]
      exact ⟨fun hdata => ⟨hlow, hdata.2⟩, fun hdata => ⟨rfl, hdata.2⟩⟩
    · rw [if_neg hlow, Prod.mk.injEq]
      refine ⟨?_, fun hdata => absurd hdata.1 hlow⟩
      rintro ⟨hcount, hdata⟩
      -- nothing is stored, so the number of bytes is zero
      have hnone : min size.toNat data.length = 0 := by
        rw [← List.length_take, ← hdata, List.length_nil]
      rw [hnone] at hcount
      exact absurd hcount (by decide)

/-- A write of the master and a stop condition. -/
def sentWave (address : UInt8) (buffer : List UInt8) : List Wires :=
  ((I2cBus.masterBus 6 7).i2cSendBytes address buffer 0 1 ⟨0xC0, []⟩).trace.reverse ++
    [⟨false, false⟩, ⟨false, true⟩, ⟨false, true⟩, ⟨true, true⟩, ⟨true, true⟩]

theorem sentWave_transaction (address : UInt8) (buffer : List UInt8) :
    TransactionWave (address :: buffer) (sentWave address buffer) := by
  have hwired : (I2cBus.masterBus 6 7).Wired := ⟨by decide, by decide, by decide⟩
  have hstop : StopWave
      [⟨false, false⟩, ⟨false, true⟩, ⟨false, true⟩, ⟨true, true⟩, ⟨true, true⟩] :=
    ⟨[⟨false, false⟩], 0, [], by simp [ClockLow], rfl⟩
  exact I2cBus.i2cSendBytes_transaction hwired (by decide) (by decide) address buffer hstop

theorem i2cDevice_decodes_sent :
    returns (i2cDeviceStartCondition >>= fun _ => readBytes 3) (sentWave 0x20 [0x11]) =
        some [0x20, 0x11, stop] ∧
      returns (i2cDeviceRead2 0x10 4) (sentWave 0x20 [0x11]) = some (1, [0x11]) := by
  have h := i2cDevice_decodes_iff (sentWave_transaction 0x20 [0x11])
  exact ⟨h.1.mpr (by simp), (h.2 0x10 [0x11] (by decide) rfl 4).mpr (by simp)⟩

/-- The first bit of a byte is lost, and an address byte with that bit set is not recognised. -/
theorem i2cDevice_loses_first_bits :
    TransactionWave [0x40, 0x80] (sentWave 0x40 [0x80]) ∧
      returns (i2cDeviceStartCondition >>= fun _ => readBytes 3) (sentWave 0x40 [0x80]) =
        some [0x40, 0, stop] ∧
      returns (i2cDeviceRead2 0x20 1) (sentWave 0x40 [0x80]) = some (1, [0]) ∧
      TransactionWave [0xA0, 0x01] (sentWave 0xA0 [0x01]) ∧
      returns (i2cDeviceRead2 0x50 1) (sentWave 0xA0 [0x01]) = some (-2, []) := by
  refine ⟨sentWave_transaction 0x40 [0x80], ?_, ?_, sentWave_transaction 0xA0 [0x01], ?_⟩
  · decide +kernel
  · decide +kernel
  · decide +kernel

end Polls

end Not232
