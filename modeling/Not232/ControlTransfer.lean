import Not232.ControlEndpoint

/-!
# Control transfers

The host's side of endpoint 0: it sends a SETUP token, moves the data in packets with alternating
toggles, and ends with a packet without data in the other direction. To the host the device is a
store of an address, a configuration, a line coding and halted endpoints.
-/

namespace Not232

/-! ### Tokens -/

/-- How the device answers an IN token. -/
inductive InAnswer
  | data (toggle : Bool) (bytes : List UInt8)
  | nak
  | stall
  | silent
  deriving DecidableEq

/-- How the device answers the data of an OUT token. -/
inductive OutAnswer
  | ack
  | nak
  | stall
  | silent
  deriving DecidableEq

/-! ### What the device keeps -/

inductive DataEndpoint
  | ep1In
  | ep2Out
  | ep3In
  deriving DecidableEq

/-- The purpose of the endpoint: a store that a host reads and writes. -/
structure UsbDevice where
  address : UInt8
  configuration : UInt8
  lineCoding : Vector UInt8 7
  remoteWakeup : Bool
  halted : DataEndpoint → Bool

namespace ControlEndpoint

def ctrl (s : ControlEndpoint) : DataEndpoint → UInt8
  | .ep1In => s.uep1TxCtrl
  | .ep2Out => s.uep2RxCtrl
  | .ep3In => s.uep3TxCtrl

def device (s : ControlEndpoint) : UsbDevice where
  address := s.devAddrReg &&& ~~~usbfsUdaGpBit
  configuration := s.devConfig
  lineCoding := s.gLineCoding
  remoteWakeup := s.devSleepStatus &&& 0x01 ≠ 0
  halted e := s.ctrl e &&& uepResMask = uepResStall

variable (beyond : DescrArray → ℕ → UInt8)

def hasAddress (address : UInt8) (s : ControlEndpoint) : Bool := s.device.address = address

def toggle (ctrl : UInt8) : Bool := ctrl &&& uepTog ≠ 0

/-- The packet in the buffer. -/
def packet (s : ControlEndpoint) : List UInt8 := (List.range s.uep0TxLen.toNat).map s.ep0Buf

/-- A SETUP token is always accepted. -/
def setupToken (address : UInt8) (req : UsbSetupReq) (s : ControlEndpoint) : ControlEndpoint :=
  if s.hasAddress address then s.irqSetup beyond req else s

/-- The host acknowledges a packet, and the interrupt is served. -/
def inToken (address : UInt8) (s : ControlEndpoint) : InAnswer × ControlEndpoint :=
  if s.hasAddress address then
    if s.uep0TxCtrl &&& uepResMask = uepResAck then
      (.data (toggle s.uep0TxCtrl) s.packet, s.irqEp0In beyond)
    else if s.uep0TxCtrl &&& uepResMask = uepResNak then (.nak, s)
    else if s.uep0TxCtrl &&& uepResMask = uepResStall then (.stall, s)
    else (.silent, s)
  else (.silent, s)

def outToken (address : UInt8) (tog : Bool) (bytes : List UInt8) (s : ControlEndpoint) :
    OutAnswer × ControlEndpoint :=
  if s.hasAddress address then
    if s.uep0RxCtrl &&& uepResMask = uepResAck then
      (.ack, (s.writeEp0 bytes).irqEp0Out (tog == toggle s.uep0RxCtrl))
    else if s.uep0RxCtrl &&& uepResMask = uepResNak then (.nak, s)
    else if s.uep0RxCtrl &&& uepResMask = uepResStall then (.stall, s)
    else (.silent, s)
  else (.silent, s)

/-! ### Sending a descriptor -/

@[simp] theorem devAddrReg_writeEp0 (bytes : List UInt8) (s : ControlEndpoint) :
    (s.writeEp0 bytes).devAddrReg = s.devAddrReg := rfl

theorem toNat_packetLen (len : UInt16) : (packetLen len).toNat = min len.toNat 64 := by
  simp only [packetLen, defUsbdUep0Size, ge_iff_le, UInt16.le_iff_toNat_le]
  split
  · rename_i h
    exact (min_eq_right h).symm
  · rename_i h
    exact (min_eq_left (not_le.mp h).le).symm

theorem toNat_sub_packetLen (len : UInt16) : (len - packetLen len).toNat = len.toNat - 64 := by
  have hlen : packetLen len ≤ len := by
    rw [UInt16.le_iff_toNat_le, toNat_packetLen]
    exact min_le_left _ _
  rw [UInt16.toNat_sub_of_le _ _ hlen, toNat_packetLen]
  omega

theorem map_ep0Buf_writeEp0 (bytes : List UInt8) (s : ControlEndpoint) :
    (List.range bytes.length).map (s.writeEp0 bytes).ep0Buf = bytes := by
  apply List.ext_getElem
  · simp
  · intro i _ hi
    simp [writeEp0, hi]

/-- The bytes that the next `n` copies take from `pUSBFS_Descr`. -/
def descrBytes (s : ControlEndpoint) (n : ℕ) : List UInt8 :=
  (List.range n).map (s.descrByte beyond)

@[simp] theorem length_descrBytes (s : ControlEndpoint) (n : ℕ) :
    (s.descrBytes beyond n).length = n := by simp [descrBytes]

theorem map_ep0Buf_copyDescr (s : ControlEndpoint) (len : UInt16) :
    (List.range len.toNat).map (s.copyDescr beyond len).ep0Buf = s.descrBytes beyond len.toNat := by
  have hbytes := map_ep0Buf_writeEp0 (s.descrBytes beyond len.toNat) s
  rw [length_descrBytes] at hbytes
  exact hbytes

theorem descrBytes_eq_take {s : ControlEndpoint} {a : DescrArray} {n : ℕ}
    (hstart : s.pDescr = (a, 0)) (hn : n ≤ (s.array a).length) :
    s.descrBytes beyond n = (s.array a).take n := by
  apply List.ext_getElem
  · rw [length_descrBytes, List.length_take, min_eq_left hn]
  · intro i hi _
    rw [length_descrBytes] at hi
    have hget : i < (s.array a).length := hi.trans_le hn
    simp [descrBytes, descrByte, hstart, hget]

theorem take_descrBytes (s : ControlEndpoint) (m n : ℕ) :
    (s.descrBytes beyond n).take m = s.descrBytes beyond (min m n) := by
  rw [descrBytes, ← List.map_take, List.take_range, descrBytes]

theorem drop_descrBytes (s : ControlEndpoint) (len : UInt16) (n : ℕ) :
    (s.descrBytes beyond n).drop len.toNat =
      (s.copyDescr beyond len).descrBytes beyond (n - len.toNat) := by
  apply List.ext_getElem
  · simp
  · intro i _ _
    simp [descrBytes, descrByte, copyDescr, array, writeEp0, Nat.add_assoc]

theorem descrBytes_packetLen (s : ControlEndpoint) (len : UInt16) :
    (s.copyDescr beyond (packetLen len)).descrBytes beyond (len - packetLen len).toNat =
      (s.descrBytes beyond len.toNat).drop 64 := by
  rw [toNat_sub_packetLen]
  by_cases hlen : len.toNat < 64
  · rw [List.drop_of_length_le (by simp; omega)]
    simp [descrBytes, Nat.sub_eq_zero_of_le hlen.le]
  · have h64 : (packetLen len).toNat = 64 := by
      rw [toNat_packetLen]
      exact min_eq_right (not_lt.mp hlen)
    have hdrop := drop_descrBytes beyond s (packetLen len) len.toNat
    rw [h64] at hdrop
    exact hdrop.symm

/-- The endpoint holds the first packet of what is left of a descriptor. -/
structure Sending (rest : List UInt8) (tog : Bool) (s : ControlEndpoint) : Prop where
  standard : s.setupReqType &&& usbReqTypMask = usbReqTypStandard
  code : s.setupReqCode = usbGetDescriptor
  ctrl : s.uep0TxCtrl = if tog then uepTog else 0
  packet : s.packet = rest.take 64
  behind : s.descrBytes beyond s.setupReqLen.toNat = rest.drop 64

theorem irqEp0In_getDescriptor (s : ControlEndpoint)
    (hstd : s.setupReqType &&& usbReqTypMask = usbReqTypStandard)
    (hcode : s.setupReqCode = usbGetDescriptor) :
    s.irqEp0In beyond = { s.copyDescr beyond (packetLen s.setupReqLen) with
      setupReqLen := s.setupReqLen - packetLen s.setupReqLen
      uep0TxLen := packetLen s.setupReqLen
      uep0TxCtrl := s.uep0TxCtrl ^^^ uepTog
      uep0RxCtrl := if s.setupReqLen = 0 then uepTog ||| uepResAck else s.uep0RxCtrl } := by
  unfold irqEp0In
  by_cases hlen : s.setupReqLen = 0
  · simp only [if_pos hlen, if_neg (not_not.mpr hstd), if_pos hcode]
    rfl
  · simp only [if_neg hlen, if_neg (not_not.mpr hstd), if_pos hcode]
    rfl

theorem Sending.device {rest : List UInt8} {tog : Bool} {s : ControlEndpoint}
    (h : s.Sending beyond rest tog) : (s.irqEp0In beyond).device = s.device := by
  rw [irqEp0In_getDescriptor beyond s h.standard h.code]
  rfl

theorem Sending.next {rest : List UInt8} {tog : Bool} {s : ControlEndpoint}
    (h : s.Sending beyond rest tog) :
    (s.irqEp0In beyond).Sending beyond (rest.drop 64) (!tog) := by
  have hsent : (s.irqEp0In beyond).packet = (rest.drop 64).take 64 := by
    rw [irqEp0In_getDescriptor beyond s h.standard h.code, ← h.behind, take_descrBytes,
      min_comm, ← toNat_packetLen]
    exact map_ep0Buf_copyDescr beyond s _
  have hbehind : (s.irqEp0In beyond).descrBytes beyond (s.irqEp0In beyond).setupReqLen.toNat =
      (rest.drop 64).drop 64 := by
    rw [irqEp0In_getDescriptor beyond s h.standard h.code, ← h.behind]
    exact descrBytes_packetLen beyond s s.setupReqLen
  rw [irqEp0In_getDescriptor beyond s h.standard h.code] at hsent hbehind ⊢
  have hctrl : s.uep0TxCtrl ^^^ uepTog = if !tog then uepTog else 0 := by
    rw [h.ctrl]
    cases tog <;> rfl
  exact ⟨h.standard, h.code, hctrl, hsent, hbehind⟩

/-! ### The host -/

/-- What the host does, which fails when the device does not answer as it must. -/
abbrev Host := StateT ControlEndpoint Option

namespace Host

def setup (address : UInt8) (req : UsbSetupReq) : Host Unit := fun s =>
  some ((), s.setupToken beyond address req)

def dataIn (address : UInt8) (tog : Bool) : Host (List UInt8) := fun s =>
  match s.inToken beyond address with
  | (.data t bytes, s') => if t = tog then some (bytes, s') else none
  | _ => none

def dataOut (address : UInt8) (tog : Bool) (bytes : List UInt8) : Host Unit := fun s =>
  match s.outToken address tog bytes with
  | (.ack, s') => some ((), s')
  | _ => none

/-- The packet without data at the end of a transfer to the device. -/
def statusIn (address : UInt8) : Host Unit := do
  let bytes ← dataIn beyond address true
  if bytes = [] then pure () else failure

/-- IN tokens until a packet is short or the host has the `left` bytes that it asked for. -/
def readData (address : UInt8) : (fuel : ℕ) → (tog : Bool) → (left : ℕ) → Host (List UInt8)
  | 0, _, _ => failure
  | fuel + 1, tog, left => do
    let bytes ← dataIn beyond address tog
    if bytes.length < defUsbdUep0Size.toNat ∨ left ≤ bytes.length then pure bytes
    else do
      let rest ← readData address fuel (!tog) (left - bytes.length)
      pure (bytes ++ rest)

theorem dataIn_eq_some {address : UInt8} {tog : Bool} {s : ControlEndpoint}
    (haddr : s.device.address = address) (hctrl : s.uep0TxCtrl = if tog then uepTog else 0) :
    dataIn beyond address tog s = some (s.packet, s.irqEp0In beyond) := by
  have hack : s.uep0TxCtrl &&& uepResMask = uepResAck := by
    rw [hctrl]
    cases tog <;> rfl
  have htog : toggle s.uep0TxCtrl = tog := by
    rw [hctrl]
    cases tog <;> rfl
  have ht : s.inToken beyond address = (.data tog s.packet, s.irqEp0In beyond) := by
    simp [inToken, hasAddress, haddr, hack, htog]
  simp [dataIn, ht]

theorem readData_sending (address : UInt8) (fuel : ℕ) : ∀ (tog : Bool) (left : ℕ)
    (rest : List UInt8) (s : ControlEndpoint), s.Sending beyond rest tog →
    s.device.address = address → rest.length ≤ left → left < fuel →
    ∃ s', readData beyond address fuel tog left s = some (rest, s') ∧ s'.device = s.device ∧
      s'.setupReqCode = usbGetDescriptor ∧ s'.uep0RxCtrl = uepTog ||| uepResAck := by
  induction fuel with
  | zero => omega
  | succ fuel ih =>
    intro tog left rest s h haddr hleft hfuel
    have hin : dataIn beyond address tog s = some (rest.take 64, s.irqEp0In beyond) := by
      rw [dataIn_eq_some beyond haddr h.ctrl, h.packet]
    have hdev : (s.irqEp0In beyond).device = s.device := h.device
    have hlen : s.setupReqLen.toNat = rest.length - 64 := by
      have hbehind := congrArg List.length h.behind
      simpa using hbehind
    by_cases hlast : rest.length < 64 ∨ left ≤ 64
    · have hshort : rest.length ≤ 64 := by omega
      have hend : s.setupReqLen = 0 := by
        apply UInt16.toNat_inj.mp
        rw [hlen, UInt16.toNat_zero]
        omega
      refine ⟨s.irqEp0In beyond, ?_, hdev, h.next.code, ?_⟩
      · have hcond : (rest.take 64).length < defUsbdUep0Size.toNat ∨
            left ≤ (rest.take 64).length := by
          rw [List.length_take]
          show min 64 rest.length < 64 ∨ _
          omega
        simp only [readData, bind, StateT.bind, hin, Option.bind_some, if_pos hcond]
        rw [List.take_of_length_le hshort]
        rfl
      · rw [irqEp0In_getDescriptor beyond s h.standard h.code]
        exact if_pos hend
    · have hfull : (rest.take 64).length = 64 := by
        rw [List.length_take]
        omega
      have hcond : ¬ (64 < defUsbdUep0Size.toNat ∨ left ≤ 64) := by
        show ¬ (64 < 64 ∨ _)
        omega
      rcases ih (!tog) (left - 64) (rest.drop 64) _ h.next (hdev ▸ haddr)
        (by rw [List.length_drop]; omega) (by omega) with ⟨s', hread, hdev', hend⟩
      refine ⟨s', ?_, hdev'.trans hdev, hend⟩
      simp only [readData, bind, StateT.bind, hin, Option.bind_some, hfull, if_neg hcond, hread]
      show some (rest.take 64 ++ rest.drop 64, s') = _
      rw [List.take_append_drop]

/-- A transfer from the device; one of no bytes ends like one to the device. -/
def controlRead (address : UInt8) (req : UsbSetupReq) : Host (List UInt8) := do
  setup beyond address req
  if req.wLength = 0 then do
    statusIn beyond address
    pure []
  else do
    let bytes ← readData beyond address (req.wLength.toNat + 1) true req.wLength.toNat
    dataOut address true []
    pure bytes

/-- A transfer of at most one packet to the device. -/
def controlWrite (address : UInt8) (req : UsbSetupReq) (bytes : List UInt8) : Host Unit := do
  setup beyond address req
  if bytes ≠ [] then dataOut address true bytes
  statusIn beyond address

end Host

end ControlEndpoint

end Not232
