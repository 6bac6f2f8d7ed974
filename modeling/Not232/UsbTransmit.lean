import Not232.Preemption
import Not232.UsbSerial

/-!
# The transmit half of the USB serial driver

The main thread fills a ring and moves its bytes to endpoint 3 in packets; the interrupt handler
serves completed IN transfers, bus resets and endpoint halt requests. The main thread's functions
are cut at their loads and stores. The packets handed to the endpoint and those the host has taken
are auxiliary variables, and so are `inDataUp`, which is set while the main thread is inside
`usbfsEndpDataUp`, and `refused`, which records that it returned nonzero to `txKick`.
-/

namespace Not232

def txRingSize : ℕ := 2048
def defUsbdFsPackSize : ℕ := 64

/-- The response field of `UEP3_TX_CTRL`, the values the driver writes there, and the toggle. -/
def uepTResMask : UInt8 := 0x03
def uepTResAck : UInt8 := 0x00
def uepTResNak : UInt8 := 0x02
def uepTResStall : UInt8 := 0x03
def uepTTog : UInt8 := 0x04

/-- The enable bits of an endpoint in its half of a mode register. -/
def usbfsdUepRxEn : UInt8 := 0x08
def usbfsdUepTxEn : UInt8 := 0x04
def uep2RxEn : UInt8 := 0x08
def uep3TxEn : UInt8 := 0x40

structure TxState where
  devEnumStatus : UInt8
  devConfig : UInt8
  txHead : ℕ
  txTail : ℕ
  txRing : ℕ → UInt8
  txPendingKick : UInt8
  endpBusy : UInt8
  uep23Mod : UInt8
  uep3TxLen : ℕ
  uep3TxCtrl : UInt8
  ep3Buf : ℕ → UInt8
  inDataUp : Bool
  refused : Bool
  handed : List (List UInt8)
  taken : List (List UInt8)

namespace TxState

def queued (s : TxState) : List UInt8 :=
  RingBuffer.contents s.txRing txRingSize s.txHead s.txTail

/-- Endpoint 3 answers the next IN token with its packet. -/
def Armed (s : TxState) : Prop := s.uep3TxCtrl &&& uepTResMask = uepTResAck

instance (s : TxState) : Decidable s.Armed := by unfold Armed; infer_instance

/-- The packet that endpoint 3 sends when it is armed. -/
def packet (s : TxState) : List UInt8 := (List.range s.uep3TxLen).map s.ep3Buf

def armedPackets (s : TxState) : List (List UInt8) := if s.Armed then [s.packet] else []

end TxState

open TxState

/-! ### The interrupt handler -/

/-- The case for IN tokens on endpoint 3. -/
def irqEp3In (s : TxState) : TxState :=
  let s := { s with uep3TxCtrl := s.uep3TxCtrl ^^^ uepTTog }
  let s := { s with uep3TxCtrl := (s.uep3TxCtrl &&& ~~~uepTResMask) ||| uepTResNak }
  let s := { s with endpBusy := 0 }
  { s with txPendingKick := 1 }

def usbfsDeviceEndpInit (s : TxState) : TxState :=
  { s with uep23Mod := uep2RxEn ||| uep3TxEn, uep3TxLen := 0, uep3TxCtrl := uepTResNak,
           endpBusy := 0 }

/-- `SET_FEATURE(ENDPOINT_HALT)` for endpoint 3. -/
def setFeatureHaltEp3 (s : TxState) : TxState :=
  { s with uep3TxCtrl := (s.uep3TxCtrl &&& ~~~uepTResMask) ||| uepTResStall }

/-- `CLEAR_FEATURE(ENDPOINT_HALT)` for endpoint 3. -/
def clearFeatureHaltEp3 (s : TxState) : TxState :=
  { s with uep3TxCtrl := uepTResNak }

/-- The host takes the armed packet and the interrupt is served. -/
def complete (s : TxState) : TxState := irqEp3In { s with taken := s.taken ++ [s.packet] }

def InCompletion (s s' : TxState) : Prop := s.Armed ∧ s' = complete s

def BusReset (s s' : TxState) : Prop := s' = usbfsDeviceEndpInit s

def HaltRequest (s s' : TxState) : Prop := s' = setFeatureHaltEp3 s ∨ s' = clearFeatureHaltEp3 s

/-- A configured device with its endpoints initialised and nothing queued. -/
def TxState.start : TxState :=
  usbfsDeviceEndpInit
    { devEnumStatus := 1, devConfig := 1, txHead := 0, txTail := 0, txRing := fun _ => 0,
      txPendingKick := 0, endpBusy := 0, uep23Mod := 0, uep3TxLen := 0, uep3TxCtrl := 0,
      ep3Buf := fun _ => 0, inDataUp := false, refused := false, handed := [], taken := [] }

/-! ### The main thread -/

open Preemption Thread

def usbSerialConnected : Thread TxState Bool := do
  let status ← load devEnumStatus
  if status = 0x01 then
    let config ← load devConfig
    pure (config != 0)
  else pure false

/-- `memcpy` into the endpoint buffer, from `offset` on. -/
def memcpyEp3 : (offset : ℕ) → List UInt8 → Thread TxState Unit
  | _, [] => pure ()
  | offset, b :: rest => do
    store fun s => { s with ep3Buf := Function.update s.ep3Buf offset b }
    memcpyEp3 (offset + 1) rest

/-- The body of `usbfsEndpDataUp` on an endpoint that is not busy. -/
def loadAndArm (pbuf : List UInt8) : Thread TxState UInt8 := do
  let mode ← load uep23Mod
  let endpMode := mode >>> 4
  if endpMode &&& usbfsdUepTxEn = 0 then pure 0
  else
    memcpyEp3 (if endpMode &&& usbfsdUepRxEn = 0 then 0 else 64) pbuf
    store fun s => { s with uep3TxLen := pbuf.length }
    let ctrl ← load uep3TxCtrl
    store fun s =>
      { s with
        uep3TxCtrl := (ctrl &&& ~~~uepTResMask) ||| uepTResAck
        handed := s.handed ++ [s.packet] }
    store fun s => { s with endpBusy := 0x01 }
    pure 0

/-- `USBFS_Endp_DataUp` on endpoint 3 in copy mode, which is how the driver calls it. -/
def usbfsEndpDataUp (pbuf : List UInt8) : Thread TxState UInt8 := do
  store fun s => { s with inDataUp := true }
  let busy ← load endpBusy
  let result ← (if busy = 0 then loadAndArm pbuf else pure 1 : Thread TxState UInt8)
  store fun s => { s with inDataUp := false }
  pure result

/-- Pops `n` bytes from the ring into `pkt`. -/
def popPacket : (n : ℕ) → Thread TxState (List UInt8)
  | 0 => pure []
  | n + 1 => do
    let pkt ← popPacket n
    let tail ← load txTail
    let b ← load fun s => s.txRing tail
    let tail ← load txTail
    store fun s => { s with txTail := uint16 ((tail + 1) % txRingSize : ℕ) }
    pure (pkt ++ [b])

/-- The part of `txKick` that runs when the device is connected and endpoint 3 is not busy. -/
def sendPacket : Thread TxState Unit := do
  let head ← load txHead
  let tail ← load txTail
  let cnt := ringCount head tail txRingSize
  if cnt = 0 then pure ()
  else
    let pkt ← popPacket (if cnt > defUsbdFsPackSize then defUsbdFsPackSize else cnt)
    let result ← usbfsEndpDataUp pkt
    store fun s => { s with refused := s.refused || result != 0 }

def txKick : Thread TxState Unit := do
  let connected ← usbSerialConnected
  if connected then
    let busy ← load endpBusy
    if busy = 0 then sendPacket else pure ()
  else pure ()

/-- The enqueuing loop of `usbSerialWriteP`: how many bytes it has written. -/
def enqueue : List UInt8 → Thread TxState ℕ
  | [] => pure 0
  | b :: rest => do
    let head ← load txHead
    let tail ← load txTail
    if ringFree head tail txRingSize = 0 then pure 0
    else
      let head ← load txHead
      store fun s => { s with txRing := Function.update s.txRing head b }
      let head ← load txHead
      store fun s => { s with txHead := uint16 ((head + 1) % txRingSize : ℕ) }
      let written ← enqueue rest
      pure (written + 1)

def usbSerialWriteP (data : List UInt8) : Thread TxState ℕ := do
  let written ← enqueue data
  txKick
  pure written

def usbSerialFlush : Thread TxState Unit := txKick

def usbSerialTxPending : Thread TxState ℕ := do
  let head ← load txHead
  let tail ← load txTail
  pure (ringCount head tail txRingSize)

/-- The waiting loop of `usbSerialSendZlp`, with the turns it has left. -/
def waitIdle : (turns : ℕ) → Thread TxState Unit
  | 0 => do
    let _ ← load endpBusy
    pure ()
  | turns + 1 => do
    let busy ← load endpBusy
    if busy = 0 then pure () else waitIdle turns

def usbSerialSendZlp : Thread TxState Unit := do
  waitIdle 50000
  let busy ← load endpBusy
  if busy = 0 then
    let _ ← usbfsEndpDataUp []
    pure ()
  else pure ()

/-- A turn of `while (usbSerial_tx_pending() > 0)`. -/
def drainTurn : Thread TxState Bool := do
  let pending ← usbSerialTxPending
  if pending > 0 then
    usbSerialFlush
    pure true
  else pure false

def drain : Thread TxState Unit := whileTrue drainTurn

def usbSerialBlockingWriteP (data : List UInt8) : Thread TxState Unit := do
  let _ ← usbSerialWriteP data
  drain
  if data.length > 0 ∧ data.length % 64 = 0 then usbSerialSendZlp else pure ()

/-- `comms_send_buffer` in USB mode, which converts the size to `uint16_t`. -/
def commsSendBuffer (buffer : List UInt8) : Thread TxState Unit :=
  usbSerialBlockingWriteP (buffer.take (uint16 buffer.length))

/-! ### What the interrupts change -/

theorem not_armed_complete (s : TxState) : ¬ (complete s).Armed := by
  have h : (complete s).uep3TxCtrl &&& uepTResMask = uepTResNak &&& uepTResMask :=
    and_not_or_and _ _ _
  rw [Armed, h]
  decide

theorem not_armed_usbfsDeviceEndpInit (s : TxState) : ¬ (usbfsDeviceEndpInit s).Armed := by
  change ¬ uepTResNak &&& uepTResMask = uepTResAck
  decide

theorem not_armed_haltRequest {s s' : TxState} (h : HaltRequest s s') : ¬ s'.Armed := by
  rcases h with rfl | rfl
  · have hc : (setFeatureHaltEp3 s).uep3TxCtrl &&& uepTResMask = uepTResStall &&& uepTResMask :=
      and_not_or_and _ _ _
    rw [Armed, hc]
    decide
  · change ¬ uepTResNak &&& uepTResMask = uepTResAck
    decide

theorem armedPackets_of_not_armed {s : TxState} (h : ¬ s.Armed) : s.armedPackets = [] := if_neg h

theorem armedPackets_of_armed {s : TxState} (h : s.Armed) : s.armedPackets = [s.packet] := if_pos h

end Not232
