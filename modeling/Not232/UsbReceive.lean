import Not232.Preemption
import Not232.Protocol
import Not232.UsbSerial

/-!
# The receive half of the USB serial driver

Bulk OUT packets on endpoint 2 are copied into a ring by the interrupt handler and read back by
the main thread. The main thread's functions are cut at their loads and stores of the shared
variables. The stream acknowledged to the host and the bytes returned to the main thread are
auxiliary variables; a byte counts as returned from the store of `rxTail` on.
-/

namespace Not232

def rxRingSize : ℕ := 2048

/-- The response field of an endpoint control register, and the values the driver writes there. -/
def uepRResMask : UInt8 := 0x03
def uepRResAck : UInt8 := 0x00
def uepRTog : UInt8 := 0x04

structure RxState where
  rxHead : ℕ
  rxTail : ℕ
  rxRing : ℕ → UInt8
  uep2RxCtrl : UInt8
  acked : List UInt8
  returned : List UInt8

namespace RxState

def unread (s : RxState) : List UInt8 :=
  RingBuffer.contents s.rxRing rxRingSize s.rxHead s.rxTail

/-- Endpoint 2 answers the next OUT packet with ACK. -/
def Ep2Acks (s : RxState) : Prop := s.uep2RxCtrl &&& uepRResMask = uepRResAck

/-- The state that `usbSerial_begin` leaves, with endpoint 2 initialised. -/
def begin (ring : ℕ → UInt8) : RxState :=
  { rxHead := 0, rxTail := 0, rxRing := ring, uep2RxCtrl := uepRResAck, acked := [],
    returned := [] }

end RxState

open RxState

/-- Copies a packet into the ring until the ring is full. -/
def usbSerialOnEp2Out : List UInt8 → RxState → RxState
  | [], s => s
  | b :: rest, s =>
    if ringFree s.rxHead s.rxTail rxRingSize = 0 then s
    else usbSerialOnEp2Out rest
      { s with
        rxRing := Function.update s.rxRing s.rxHead b
        rxHead := uint16 ((s.rxHead + 1) % rxRingSize : ℕ) }

/-- The interrupt handler's case for OUT tokens on endpoint 2. -/
def irqEp2Out (packet : List UInt8) (s : RxState) : RxState :=
  let s := { s with uep2RxCtrl := s.uep2RxCtrl ^^^ uepRTog }
  let s := usbSerialOnEp2Out packet s
  { s with uep2RxCtrl := (s.uep2RxCtrl &&& ~~~uepRResMask) ||| uepRResAck }

/-- The host's packet is acknowledged and the interrupt is served. -/
def acknowledge (packet : List UInt8) (s : RxState) : RxState :=
  irqEp2Out packet { s with acked := s.acked ++ packet }

open Preemption Thread

def usbSerialAvailable : Thread RxState ℕ := do
  let head ← load rxHead
  let tail ← load rxTail
  pure (ringCount head tail rxRingSize)

def usbSerialRead : Thread RxState UInt8 := do
  let head ← load rxHead
  let tail ← load rxTail
  if head = tail then pure 0
  else
    let tail ← load rxTail
    let b ← load fun s => s.rxRing tail
    let tail ← load rxTail
    store fun s =>
      { s with
        rxTail := uint16 ((tail + 1) % rxRingSize : ℕ)
        returned := s.returned ++ [b] }
    pure b

/-- `while (!usbSerial_available());` -/
def waitAvailable : Thread RxState Unit :=
  whileTrue do
    let count ← usbSerialAvailable
    pure (count == 0)

def usbSerialBlockingReadBytes : (len : ℕ) → Thread RxState (Vector UInt8 len)
  | 0 => pure #v[]
  | len + 1 => do
    let buffer ← usbSerialBlockingReadBytes len
    waitAvailable
    let b ← usbSerialRead
    pure (buffer.push b)

/-- A receiving handler in USB mode, where `comms_recv_buffer` is
`usbSerial_blocking_read_bytes`. -/
def Recv.overUsb {α : Type} : Recv α → Thread RxState α
  | .done a => pure a
  | .buffer size k => do
    let bytes ← usbSerialBlockingReadBytes size
    (k bytes).overUsb

/-! ### The interrupt's effect -/

structure RxInv (s : RxState) : Prop where
  rxHead_lt : s.rxHead < rxRingSize
  rxTail_lt : s.rxTail < rxRingSize

/-- What an interrupt changes: `kept` is appended to the ring, the reader's side is untouched. -/
structure Appends (kept : List UInt8) (s s' : RxState) : Prop where
  rxHead_lt : s'.rxHead < rxRingSize
  rxTail : s'.rxTail = s.rxTail
  returned : s'.returned = s.returned
  unread : s'.unread = s.unread ++ kept

theorem usbSerialOnEp2Out_appends (packet : List UInt8) (s : RxState) (hs : RxInv s) :
    Appends (packet.take (ringFree s.rxHead s.rxTail rxRingSize)) s
      (usbSerialOnEp2Out packet s) := by
  induction packet generalizing s with
  | nil => exact ⟨hs.rxHead_lt, rfl, rfl, by simp [usbSerialOnEp2Out]⟩
  | cons b rest ih =>
    have hsize : rxRingSize ≤ 65536 := by decide
    have hfree := ringFree_eq hs.rxHead_lt hs.rxTail_lt hsize
    rw [usbSerialOnEp2Out]
    split_ifs with hfull
    · exact ⟨hs.rxHead_lt, rfl, rfl, by simp [hfull]⟩
    · rw [uint16_next hs.rxHead_lt hsize]
      set s₁ : RxState :=
        { s with
          rxRing := Function.update s.rxRing s.rxHead b
          rxHead := RingBuffer.next rxRingSize s.rxHead }
      have hroom : RingBuffer.occupied rxRingSize s.rxHead s.rxTail + 1 < rxRingSize := by omega
      have hlt : s₁.rxHead < rxRingSize := RingBuffer.next_lt hs.rxHead_lt
      have hunread : s₁.unread = s.unread ++ [b] :=
        RingBuffer.contents_fill b hs.rxHead_lt hs.rxTail_lt hroom
      have hfree₁ : ringFree s₁.rxHead s₁.rxTail rxRingSize + 1 =
          ringFree s.rxHead s.rxTail rxRingSize := by
        rw [ringFree_eq hlt hs.rxTail_lt hsize, hfree,
          RingBuffer.occupied_fill hs.rxHead_lt hs.rxTail_lt hroom]
        omega
      obtain ⟨hh, ht, hr, hu⟩ := ih s₁ ⟨hlt, hs.rxTail_lt⟩
      refine ⟨hh, ht, hr, ?_⟩
      rw [hu, hunread, ← hfree₁, List.take_succ_cons, List.append_assoc, List.singleton_append]

theorem usbSerialOnEp2Out_acked (packet : List UInt8) (s : RxState) :
    (usbSerialOnEp2Out packet s).acked = s.acked := by
  induction packet generalizing s with
  | nil => rfl
  | cons b rest ih =>
    rw [usbSerialOnEp2Out]
    split_ifs
    · rfl
    · exact ih _

theorem acknowledge_acked (packet : List UInt8) (s : RxState) :
    (acknowledge packet s).acked = s.acked ++ packet :=
  usbSerialOnEp2Out_acked packet _

theorem acknowledge_appends (packet : List UInt8) (s : RxState) (hs : RxInv s) :
    Appends (packet.take (ringFree s.rxHead s.rxTail rxRingSize)) s (acknowledge packet s) := by
  obtain ⟨hh, ht, hr, hu⟩ := usbSerialOnEp2Out_appends packet
    { s with acked := s.acked ++ packet, uep2RxCtrl := s.uep2RxCtrl ^^^ uepRTog }
    ⟨hs.rxHead_lt, hs.rxTail_lt⟩
  exact ⟨hh, ht, hr, hu⟩

theorem acknowledge_ep2Acks (packet : List UInt8) (s : RxState) :
    (acknowledge packet s).Ep2Acks :=
  and_not_or_and _ uepRResMask uepRResAck

theorem length_unread {s : RxState} :
    s.unread.length = RingBuffer.occupied rxRingSize s.rxHead s.rxTail :=
  RingBuffer.length_contents

end Not232
