import Not232.BlockingSend
import Not232.ReceiveStream

/-!
# The codec of command fields

The fields that `comms_send_u8`, `comms_send_u32`, `comms_send_buffer` and `comms_send_string` send
are received unchanged by their counterparts, which leave the bytes behind them. The readers that
only exist for USB assemble a word from shifted bytes; they are the same programs as the generic
readers in USB mode.
-/

namespace Not232

open Preemption Thread

/-- `str` is the memory from a `char*` on. -/
def strlen (str : List UInt8) : ℕ := str.findIdx (· == 0)

def commsSendU8 (byte : UInt8) : Thread TxState Unit := commsSendBuffer [byte]

def commsSendU32 (word : UInt32) : Thread TxState Unit := commsSendBuffer (leBytes word).toList

/-- `array` is the memory from the array's address on. -/
def commsSendArray (array : List UInt8) (size : UInt32) : Thread TxState Unit := do
  commsSendU32 size
  commsSendBuffer (array.take size.toNat)

def commsSendString (str : List UInt8) : Thread TxState Unit :=
  commsSendArray str (.ofNat (strlen str))

/-- A field as it is in memory: a string includes its terminator. -/
inductive Field
  | u8 (byte : UInt8)
  | u32 (word : UInt32)
  | buffer (bytes : List UInt8)
  | string (str : List UInt8)

/-- What a receiver has to know of a field. -/
inductive FieldKind
  | u8
  | u32
  | buffer (size : ℕ)
  | string

namespace Field

def kind : Field → FieldKind
  | u8 _ => .u8
  | u32 _ => .u32
  | buffer bytes => .buffer bytes.length
  | string _ => .string

/-- Buffers have at most 2047 bytes, and so have strings, which are terminated by their only NUL. -/
def Sendable : Field → Prop
  | u8 _ | u32 _ => True
  | buffer bytes => bytes.length ≤ 2047
  | string str => ∃ chars, str = chars ++ [0] ∧ 0 ∉ chars ∧ chars.length ≤ 2047

def send : Field → Thread TxState Unit
  | u8 byte => commsSendU8 byte
  | u32 word => commsSendU32 word
  | buffer bytes => commsSendBuffer bytes
  | string str => commsSendString str

/-- The bytes of a field on the wire. -/
def encode : Field → List UInt8
  | u8 byte => [byte]
  | u32 word => (leBytes word).toList
  | buffer bytes => bytes
  | string str => (leBytes (.ofNat (strlen str))).toList ++ str.take (strlen str)

end Field

def FieldKind.recv : FieldKind → Recv Field
  | u8 => do
    let byte ← commsRecvU8
    pure (.u8 byte)
  | u32 => do
    let word ← commsRecvU32
    pure (.u32 word)
  | buffer size => do
    let bytes ← commsRecvBuffer size
    pure (.buffer bytes.toList)
  | string => do
    let str ← commsRecvString
    pure (.string str)

def sendFields : List Field → Thread TxState Unit
  | [] => pure ()
  | field :: rest => do
    field.send
    sendFields rest

def recvFields : List FieldKind → Recv (List Field)
  | [] => pure []
  | kind :: rest => do
    let field ← kind.recv
    let fields ← recvFields rest
    pure (field :: fields)

/-! ### Receiving what was sent -/

theorem strlen_append_zero {chars : List UInt8} (h : 0 ∉ chars) :
    strlen (chars ++ [0]) = chars.length := by
  induction chars with
  | nil => rfl
  | cons c rest ih =>
    have hc : c ≠ 0 := fun hc => h (hc ▸ List.mem_cons_self)
    have hrest : 0 ∉ rest := fun hmem => h (List.mem_cons_of_mem _ hmem)
    simp only [strlen, List.cons_append, List.findIdx_cons, beq_eq_false_iff_ne.mpr hc, cond_false,
      List.length_cons]
    exact congrArg (· + 1) (ih hrest)

theorem exists_onStream_commsRecvBuffer {bytes : List UInt8} {size : ℕ}
    (h : bytes.length = size) (rest : List UInt8) : ∃ v : Vector UInt8 size,
      v.toList = bytes ∧ (commsRecvBuffer size).onStream (bytes ++ rest) = some (v, rest) := by
  let v : Vector UInt8 size := ⟨bytes.toArray, h⟩
  have hv : v.toList = bytes := by simp [v, Vector.toList]
  refine ⟨v, hv, ?_⟩
  rw [← hv]
  exact onStream_commsRecvBuffer v rest

theorem onStream_commsRecvString {chars : List UInt8} (h : chars.length ≤ 2047)
    (rest : List UInt8) :
    commsRecvString.onStream ((leBytes (.ofNat chars.length)).toList ++ (chars ++ rest)) =
      some (chars ++ [0], rest) := by
  have hsize : (UInt32.ofNat chars.length).toNat = chars.length :=
    UInt32.toNat_ofNat_of_lt' (h.trans_lt (by decide))
  obtain ⟨v, hv, hrecv⟩ := exists_onStream_commsRecvBuffer hsize.symm rest
  simp only [commsRecvString, commsRecvArray, Recv.onStream_bind, onStream_commsRecvU32,
    Option.bind_some, hrecv, Recv.onStream_pure, hv]

theorem onStream_recv_encode {field : Field} (h : field.Sendable) (rest : List UInt8) :
    field.kind.recv.onStream (field.encode ++ rest) = some (field, rest) := by
  cases field with
  | u8 byte =>
    have hbyte : (commsRecvBuffer 1).onStream (#v[byte].toList ++ rest) = some (#v[byte], rest) :=
      onStream_commsRecvBuffer #v[byte] rest
    simp only [Field.kind, FieldKind.recv, Field.encode, commsRecvU8, Recv.onStream_bind]
    change (((commsRecvBuffer 1).onStream (#v[byte].toList ++ rest)).bind _).bind _ = _
    rw [hbyte]
    rfl
  | u32 word =>
    simp only [Field.kind, FieldKind.recv, Field.encode, Recv.onStream_bind,
      onStream_commsRecvU32, Option.bind_some, Recv.onStream_pure]
  | buffer bytes =>
    have hsize : bytes.length = bytes.length := rfl
    obtain ⟨v, hv, hrecv⟩ := exists_onStream_commsRecvBuffer hsize rest
    simp only [Field.kind, FieldKind.recv, Field.encode, Recv.onStream_bind, hrecv,
      Option.bind_some, Recv.onStream_pure, hv]
  | string str =>
    obtain ⟨chars, rfl, hnul, hlen⟩ := h
    have hencode : (Field.string (chars ++ [0])).encode ++ rest =
        (leBytes (.ofNat chars.length)).toList ++ (chars ++ rest) := by
      rw [Field.encode, strlen_append_zero hnul, List.take_left' rfl, List.append_assoc]
    rw [hencode]
    simp only [Field.kind, FieldKind.recv, Recv.onStream_bind, onStream_commsRecvString hlen,
      Option.bind_some, Recv.onStream_pure]

theorem onStream_recvFields (fields : List Field) (h : ∀ field ∈ fields, field.Sendable)
    (rest : List UInt8) :
    (recvFields (fields.map Field.kind)).onStream (fields.flatMap Field.encode ++ rest) =
      some (fields, rest) := by
  induction fields with
  | nil => rfl
  | cons field fields ih =>
    have hfield := onStream_recv_encode (h field List.mem_cons_self)
      (fields.flatMap Field.encode ++ rest)
    have hrest := ih fun f hf => h f (List.mem_cons_of_mem _ hf)
    rw [List.map_cons, List.flatMap_cons, List.append_assoc, recvFields, Recv.onStream_bind, hfield]
    simp only [Option.bind_some, Recv.onStream_bind, hrest, Recv.onStream_pure]

/-! ### What the sends hand over -/

namespace TransmitStream

variable {acc : List UInt8}

theorem commsSendBuffer_outline {buffer : List UInt8} (h : buffer.length ≤ txRingSize - 1) :
    Outline InCompletion TxInv (outside true acc 0) (commsSendBuffer buffer) fun _ =>
      outside true (acc ++ buffer) 0 := by
  have houtline : Outline InCompletion TxInv (outside true acc 0) (commsSendBuffer buffer) fun _ =>
      outside true (acc ++ (buffer.take (uint16 buffer.length)).take (txRingSize - 1)) 0 :=
    usbSerialBlockingWriteP_outline (buffer.take (uint16 buffer.length))
  rwa [(take_take_eq_self_iff buffer).mpr h] at houtline

theorem send_outline {field : Field} (h : field.Sendable) :
    Outline InCompletion TxInv (outside true acc 0) field.send fun _ =>
      outside true (acc ++ field.encode) 0 := by
  have hword : ∀ w : UInt32, (leBytes w).toList.length ≤ txRingSize - 1 := by
    intro w
    rw [Vector.length_toList]
    decide
  cases field with
  | u8 byte => exact commsSendBuffer_outline (show 1 ≤ 2047 by decide)
  | u32 word => exact commsSendBuffer_outline (hword word)
  | buffer bytes => exact commsSendBuffer_outline h
  | string str =>
    obtain ⟨chars, rfl, hnul, hlen⟩ := h
    have hsize : (UInt32.ofNat (strlen (chars ++ [0]))).toNat = strlen (chars ++ [0]) := by
      rw [strlen_append_zero hnul]
      exact UInt32.toNat_ofNat_of_lt' (hlen.trans_lt (by decide))
    apply (commsSendBuffer_outline (hword _)).bind
    intro _
    rw [Field.encode, ← List.append_assoc, hsize]
    apply commsSendBuffer_outline
    rw [List.length_take, strlen_append_zero hnul]
    exact (Nat.min_le_left _ _).trans hlen

theorem sendFields_outline {fields : List Field} (h : ∀ field ∈ fields, field.Sendable) :
    Outline InCompletion TxInv (outside true acc 0) (sendFields fields) fun _ =>
      outside true (acc ++ fields.flatMap Field.encode) 0 := by
  induction fields generalizing acc with
  | nil =>
    rw [List.flatMap_nil, List.append_nil]
    exact .ret fun s hs => hs
  | cons field rest ih =>
    apply (send_outline (h field List.mem_cons_self)).bind
    intro _
    rw [List.flatMap_cons, ← List.append_assoc]
    exact ih fun f hf => h f (List.mem_cons_of_mem _ hf)

theorem sendFields_finishes (fields : List Field) {s : TxState} (hs : Rested s) :
    Finishes OutsideCompletion (sendFields fields) s fun _ => Rested := by
  induction fields generalizing s with
  | nil => exact .ret hs
  | cons field rest ih =>
    have hsend : Finishes OutsideCompletion field.send s fun _ => Rested := by
      cases field with
      | u8 byte => exact usbSerialBlockingWriteP_finishes _ hs
      | u32 word => exact usbSerialBlockingWriteP_finishes _ hs
      | buffer bytes => exact usbSerialBlockingWriteP_finishes _ hs
      | string str =>
        exact (usbSerialBlockingWriteP_finishes _ hs).bind fun _ _ h =>
          usbSerialBlockingWriteP_finishes _ h
    exact hsend.bind fun _ _ h => ih h

end TransmitStream

/-! ### The readers that only exist for USB -/

/-- A `uint8_t` promoted to `int`. -/
def promote (b : UInt8) : Int32 := b.toUInt32.toInt32

def usbSerialBlockingReadU8 : Thread RxState UInt8 := do
  waitAvailable
  usbSerialRead

def usbSerialBlockingReadU32 : Thread RxState UInt32 := do
  let b1 ← usbSerialBlockingReadU8
  let b2 ← usbSerialBlockingReadU8
  let b3 ← usbSerialBlockingReadU8
  let b4 ← usbSerialBlockingReadU8
  pure (promote b1 ||| promote b2 <<< 8 ||| promote b3 <<< 16 ||| promote b4 <<< 24).toUInt32

/-- The bytes from `buffer` on: the string and the terminator behind it. -/
def usbSerialBlockingReadString : Thread RxState (List UInt8) := do
  let len ← usbSerialBlockingReadU32
  let buffer ← usbSerialBlockingReadBytes len.toNat
  pure (buffer.toList ++ [0])

theorem toNat_or_shiftLeft {w : UInt32} {i : ℕ} (hi : i ≤ 24) (hw : w.toNat < 2 ^ i) (b : UInt8) :
    (w ||| b.toUInt32 <<< UInt32.ofNat i).toNat = w.toNat + b.toNat * 2 ^ i := by
  have hb := b.toNat_lt
  have hsmall : b.toNat * 2 ^ i < 2 ^ 32 := by
    calc b.toNat * 2 ^ i < 2 ^ 8 * 2 ^ i := by gcongr
      _ ≤ 2 ^ 8 * 2 ^ 24 := by gcongr; decide
      _ = 2 ^ 32 := by decide
  have hamount : (UInt32.ofNat i).toNat % 32 = i := by
    rw [UInt32.toNat_ofNat']
    omega
  rw [UInt32.toNat_or, UInt32.toNat_shiftLeft, UInt8.toNat_toUInt32, hamount, Nat.shiftLeft_eq,
    Nat.mod_eq_of_lt hsmall, Nat.or_comm, ← Nat.shiftLeft_eq, ← Nat.shiftLeft_add_eq_or_of_lt hw,
    Nat.shiftLeft_eq, Nat.add_comm]

theorem toUInt32_shifted (b1 b2 b3 b4 : UInt8) :
    (promote b1 ||| promote b2 <<< 8 ||| promote b3 <<< 16 ||| promote b4 <<< 24).toUInt32 =
      leWord #v[b1, b2, b3, b4] := by
  have h1 := b1.toNat_lt
  have h2 := b2.toNat_lt
  have h3 := b3.toNat_lt
  have h4 := b4.toNat_lt
  have hwords :
      (promote b1 ||| promote b2 <<< 8 ||| promote b3 <<< 16 ||| promote b4 <<< 24).toUInt32 =
        b1.toUInt32 ||| b2.toUInt32 <<< 8 ||| b3.toUInt32 <<< 16 ||| b4.toUInt32 <<< 24 := rfl
  have hone : b1.toUInt32.toNat < 2 ^ 8 := h1
  have htwo : (b1.toUInt32 ||| b2.toUInt32 <<< 8).toNat = b1.toNat + b2.toNat * 2 ^ 8 :=
    toNat_or_shiftLeft (by decide) hone b2
  have hthree : (b1.toUInt32 ||| b2.toUInt32 <<< 8 ||| b3.toUInt32 <<< 16).toNat =
      (b1.toUInt32 ||| b2.toUInt32 <<< 8).toNat + b3.toNat * 2 ^ 16 :=
    have hlt : (b1.toUInt32 ||| b2.toUInt32 <<< 8).toNat < 2 ^ 16 := by omega
    toNat_or_shiftLeft (by decide) hlt b3
  have hfour :
      (b1.toUInt32 ||| b2.toUInt32 <<< 8 ||| b3.toUInt32 <<< 16 ||| b4.toUInt32 <<< 24).toNat =
        (b1.toUInt32 ||| b2.toUInt32 <<< 8 ||| b3.toUInt32 <<< 16).toNat + b4.toNat * 2 ^ 24 :=
    have hlt : (b1.toUInt32 ||| b2.toUInt32 <<< 8 ||| b3.toUInt32 <<< 16).toNat < 2 ^ 24 := by
      omega
    toNat_or_shiftLeft (by decide) hlt b4
  apply UInt32.toNat_inj.mp
  rw [hwords, leWord, UInt32.toNat_ofNat_of_lt' (by simp [UInt32.size]; omega)]
  simp only [Vector.getElem_mk, List.getElem_toArray, List.getElem_cons_zero,
    List.getElem_cons_succ]
  omega

theorem readBytes_succ_bind {α : Type} {len : ℕ} (k : Vector UInt8 (len + 1) → Thread RxState α) :
    (usbSerialBlockingReadBytes (len + 1)).bind k =
      (usbSerialBlockingReadBytes len).bind fun buffer =>
        usbSerialBlockingReadU8.bind fun b => k (buffer.push b) := by
  have hread : usbSerialBlockingReadBytes (len + 1) =
      (usbSerialBlockingReadBytes len).bind fun buffer =>
        waitAvailable.bind fun _ => usbSerialRead.bind fun b => .ret (buffer.push b) := rfl
  have hbyte : usbSerialBlockingReadU8 = waitAvailable.bind fun _ => usbSerialRead := rfl
  simp only [hread, hbyte, bind_assoc]
  rfl

theorem overUsb_bind {α β : Type} (p : Recv α) (g : α → Recv β) :
    (p >>= g).overUsb = p.overUsb.bind fun a => (g a).overUsb := by
  change (p.bind g).overUsb = p.overUsb.bind fun a => (g a).overUsb
  induction p with
  | done a => rfl
  | buffer size k ih =>
    have hnext : (Recv.buffer size k).overUsb =
        (usbSerialBlockingReadBytes size).bind fun bytes => (k bytes).overUsb := rfl
    rw [hnext, bind_assoc]
    simp only [← ih]
    rfl

theorem usbSerialBlockingReadU32_eq : usbSerialBlockingReadU32 = commsRecvU32.overUsb := by
  have hrecv : commsRecvU32.overUsb =
      (usbSerialBlockingReadBytes 4).bind fun word => .ret (leWord word) := rfl
  have hread : usbSerialBlockingReadU32 =
      usbSerialBlockingReadU8.bind fun b1 => usbSerialBlockingReadU8.bind fun b2 =>
        usbSerialBlockingReadU8.bind fun b3 => usbSerialBlockingReadU8.bind fun b4 =>
          .ret (promote b1 ||| promote b2 <<< 8 ||| promote b3 <<< 16 |||
            promote b4 <<< 24).toUInt32 := rfl
  rw [hrecv, hread, readBytes_succ_bind, readBytes_succ_bind, readBytes_succ_bind,
    readBytes_succ_bind]
  simp only [toUInt32_shifted]
  rfl

theorem usbSerialBlockingReadString_eq :
    usbSerialBlockingReadString = commsRecvString.overUsb := by
  have hrecv : commsRecvString = commsRecvU32 >>= fun size =>
      commsRecvBuffer size.toNat >>= fun array => pure (array.toList ++ [0]) := rfl
  have hread : usbSerialBlockingReadString =
      usbSerialBlockingReadU32.bind fun len =>
        (usbSerialBlockingReadBytes len.toNat).bind fun buffer => .ret (buffer.toList ++ [0]) := rfl
  rw [hrecv, hread, overUsb_bind, usbSerialBlockingReadU32_eq]
  rfl

/-- The sends can return, and whenever they return they have handed over bytes from which the same
fields are received, with the bytes behind them left. The readers for USB are the generic readers
in USB mode, action by action. -/
theorem fields_round_trip (fields : List Field) (h : ∀ field ∈ fields, field.Sendable)
    (s : TxState) (hs : TxRest s) :
    (∃ s', Reaches OutsideCompletion (sendFields fields, s) (.ret (), s')) ∧
      (∀ s', Reaches InCompletion (sendFields fields, s) (.ret (), s') →
        ∃ sent, s'.handed.flatten = s.handed.flatten ++ sent ∧
          ∀ rest, (recvFields (fields.map Field.kind)).onStream (sent ++ rest) =
            some (fields, rest)) ∧
      usbSerialBlockingReadU32 = commsRecvU32.overUsb ∧
      usbSerialBlockingReadString = commsRecvString.overUsb := by
  refine ⟨?_, fun s' hrun => ?_, usbSerialBlockingReadU32_eq, usbSerialBlockingReadString_eq⟩
  · obtain ⟨_, s', hrun, _⟩ := TransmitStream.sendFields_finishes fields hs.rested
    exact ⟨s', hrun⟩
  · have hq := (TransmitStream.sendFields_outline h).returned hs.outside hrun
    have hnil : s'.queued = [] := List.eq_nil_of_length_eq_zero hq.1.length
    refine ⟨fields.flatMap Field.encode, ?_, onStream_recvFields fields h⟩
    rw [← hq.1.stream, hnil, List.append_nil, List.append_nil]

theorem fields_round_trip_example :
    let fields : List Field := [.u8 7, .u32 0xFFFFFF80, .buffer [1, 2], .string [65, 66, 0]]
    (∃ s', Reaches OutsideCompletion (sendFields fields, TxState.start) (.ret (), s')) ∧
      (∀ s', Reaches InCompletion (sendFields fields, TxState.start) (.ret (), s') →
        ∃ sent, s'.handed.flatten = TxState.start.handed.flatten ++ sent ∧
          ∀ rest, (recvFields (fields.map Field.kind)).onStream (sent ++ rest) =
            some (fields, rest)) ∧
      usbSerialBlockingReadU32 = commsRecvU32.overUsb ∧
      usbSerialBlockingReadString = commsRecvString.overUsb := by
  refine fields_round_trip _ (fun field hfield => ?_) TxState.start start_txRest
  simp only [List.mem_cons, List.not_mem_nil, or_false] at hfield
  rcases hfield with rfl | rfl | rfl | rfl
  · exact trivial
  · exact trivial
  · change 2 ≤ 2047
    decide
  · exact ⟨[65, 66], rfl, by decide, by decide⟩

end Not232
