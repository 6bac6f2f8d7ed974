import Not232.ControlTransfer

/-!
# Sessions on the control endpoint

The requests of an enumeration and of a CDC driver, as transfers of the host. Whatever tokens came
before, each transfer ends, returns what the stored device says, and leaves the device that the
request describes.
-/

namespace Not232

inductive Descriptor
  | device
  | configuration
  | languages
  | manufacturer
  | product
  | serialNumber

namespace Descriptor

def value : Descriptor → UInt16
  | device => 0x0100
  | configuration => 0x0200
  | languages => 0x0300
  | manufacturer => 0x0301
  | product => 0x0302
  | serialNumber => 0x0303

def array : Descriptor → DescrArray
  | device => .dev
  | configuration => .cfg
  | languages => .lang
  | manufacturer => .manu
  | product => .prod
  | serialNumber => .serNum

def bytes : Descriptor → List UInt8
  | device => myDevDescr.toList
  | configuration => myCfgDescr.toList
  | languages => myLangDescr.toList
  | manufacturer => myManuInfo.toList
  | product => myProdInfo.toList
  | serialNumber => mySerNumInfo.toList

end Descriptor

def DataEndpoint.address : DataEndpoint → UInt16
  | ep1In => 0x81
  | ep2Out => 0x02
  | ep3In => 0x83

inductive ControlRequest
  | getDescriptor (descr : Descriptor) (langId length : UInt16)
  | setAddress (address : Fin 128)
  | getConfiguration (length : UInt16)
  | setConfiguration (configuration : UInt8)
  | getInterface (interface length : UInt16)
  | setInterface (setting interface : UInt16)
  | getDeviceStatus (length : UInt16)
  | getHalt (e : DataEndpoint) (length : UInt16)
  | clearRemoteWakeup
  | setHalt (e : DataEndpoint)
  | clearHalt (e : DataEndpoint)
  | getLineCoding (interface : UInt16) (length : Fin 8)
  | setLineCoding (interface : UInt16) (coding : Vector UInt8 7)
  | setControlLineState (lines interface : UInt16)
  | sendBreak (duration interface : UInt16)

namespace ControlRequest

def packet : ControlRequest → UsbSetupReq
  | getDescriptor descr langId length => ⟨0x80, usbGetDescriptor, descr.value, langId, length⟩
  | setAddress address => ⟨0x00, usbSetAddress, .ofNat address, 0, 0⟩
  | getConfiguration length => ⟨0x80, usbGetConfiguration, 0, 0, length⟩
  | setConfiguration configuration => ⟨0x00, usbSetConfiguration, configuration.toUInt16, 0, 0⟩
  | getInterface interface length => ⟨0x81, usbGetInterface, 0, interface, length⟩
  | setInterface setting interface => ⟨0x01, usbSetInterface, setting, interface, 0⟩
  | getDeviceStatus length => ⟨0x80, usbGetStatus, 0, 0, length⟩
  | getHalt e length => ⟨0x82, usbGetStatus, 0, e.address, length⟩
  | clearRemoteWakeup => ⟨0x00, usbClearFeature, 1, 0, 0⟩
  | setHalt e => ⟨0x02, usbSetFeature, 0, e.address, 0⟩
  | clearHalt e => ⟨0x02, usbClearFeature, 0, e.address, 0⟩
  | getLineCoding interface length => ⟨0xA1, cdcGetLineCoding, 0, interface, .ofNat length⟩
  | setLineCoding interface _ => ⟨0x21, cdcSetLineCoding, 0, interface, 7⟩
  | setControlLineState lines interface => ⟨0x21, cdcSetLineCtlste, lines, interface, 0⟩
  | sendBreak duration interface => ⟨0x21, cdcSendBreak, duration, interface, 0⟩

/-- What the host sends after the SETUP token. -/
def data : ControlRequest → List UInt8
  | setLineCoding _ coding => coding.toList
  | _ => []

def newAddress : ControlRequest → Option UInt8
  | setAddress address => some (.ofNat address)
  | _ => none

end ControlRequest

inductive ControlEvent
  | transfer (r : ControlRequest)
  | reset
  | suspend (suspended : Bool)

namespace UsbDevice

def reply (d : UsbDevice) : ControlRequest → List UInt8
  | .getDescriptor descr _ length => descr.bytes.take length.toNat
  | .getConfiguration length => [d.configuration].take length.toNat
  | .getInterface _ length => [0x00].take length.toNat
  | .getDeviceStatus length => [if d.remoteWakeup then 0x02 else 0x00, 0x00].take length.toNat
  | .getHalt e length => [if d.halted e then 0x01 else 0x00, 0x00].take length.toNat
  | .getLineCoding _ length => d.lineCoding.toList.take length
  | _ => []

def after (d : UsbDevice) : ControlRequest → UsbDevice
  | .setAddress address => { d with address := .ofNat address }
  | .setConfiguration configuration => { d with configuration }
  | .clearRemoteWakeup => { d with remoteWakeup := false }
  | .setHalt e => { d with halted := Function.update d.halted e true }
  | .clearHalt e => { d with halted := Function.update d.halted e false }
  | .setLineCoding _ coding => { d with lineCoding := coding }
  | _ => d

/-- A reset of the bus, which keeps the configuration. -/
def reset (d : UsbDevice) : UsbDevice := { d with address := 0, halted := fun _ => false }

def replies (d : UsbDevice) : List ControlEvent → List (List UInt8)
  | [] => []
  | .transfer r :: events => d.reply r :: (d.after r).replies events
  | .reset :: events => d.reset.replies events
  | .suspend _ :: events => d.replies events

def run (d : UsbDevice) : List ControlEvent → UsbDevice
  | [] => d
  | .transfer r :: events => (d.after r).run events
  | .reset :: events => d.reset.run events
  | .suspend _ :: events => d.run events

end UsbDevice

namespace ControlEndpoint

variable (beyond : DescrArray → ℕ → UInt8)

namespace Host

def perform (address : UInt8) (r : ControlRequest) : Host (List UInt8) :=
  if r.packet.bRequestType &&& defUepIn ≠ 0 then controlRead beyond address r.packet
  else do
    controlWrite beyond address r.packet r.data
    pure []

end Host

open Host

/-- The events of a session, with the address that the host has given. -/
def session : List ControlEvent → UInt8 → Host (List (List UInt8))
  | [], _ => pure []
  | .transfer r :: events, address => do
    let reply ← perform beyond address r
    let replies ← session events (r.newAddress.getD address)
    pure (reply :: replies)
  | .reset :: events, _ => do
    modify irqBusReset
    session events 0
  | .suspend suspended :: events, address => do
    modify (irqSuspend suspended)
    session events address

/-! ### Registers -/

theorem or_and_right (x y z : UInt8) : (x ||| y) &&& z = x &&& z ||| y &&& z :=
  UInt8.toBitVec_inj.mp BitVec.and_or_distrib_right

theorem stalled_and_mask (ctrl : UInt8) : stalled ctrl &&& uepResMask = uepResStall := by
  rw [stalled, or_and_right, UInt8.and_assoc]
  show ctrl &&& 0 ||| 3 = 3
  rw [UInt8.and_zero, UInt8.zero_or]

theorem gpBit_or_address (reg address : UInt8) (h : address < 128) :
    (reg &&& usbfsUdaGpBit ||| address) &&& ~~~usbfsUdaGpBit = address := by
  rw [or_and_right, UInt8.and_assoc]
  show reg &&& 0 ||| address &&& 127 = address
  rw [UInt8.and_zero, UInt8.zero_or]
  have hmod : address.toNat % 2 ^ 7 = address.toNat := Nat.mod_eq_of_lt h
  rw [← Nat.and_two_pow_sub_one_eq_mod] at hmod
  exact UInt8.toNat_inj.mp hmod

/-! ### Requests -/

theorem irqSetup_standard {req : UsbSetupReq} (s : ControlEndpoint)
    (h : req.bRequestType &&& usbReqTypMask = usbReqTypStandard) :
    s.irqSetup beyond req = setupDone ((s.storeSetup req).standardRequest beyond).2
      ((s.storeSetup req).standardRequest beyond).1 := by
  simp only [irqSetup]
  rw [if_neg (not_not.mpr (show (s.storeSetup req).setupReqType &&& _ = _ from h))]

theorem irqSetup_nonStandard {req : UsbSetupReq} (s : ControlEndpoint)
    (h : req.bRequestType &&& usbReqTypMask ≠ usbReqTypStandard) :
    s.irqSetup beyond req = setupDone ((s.storeSetup req).nonStandardRequest beyond).2
      ((s.storeSetup req).nonStandardRequest beyond).1 := by
  simp only [irqSetup]
  rw [if_pos (show (s.storeSetup req).setupReqType &&& _ ≠ _ from h)]

theorem device_setupDone (errflag : Bool) (s : ControlEndpoint) :
    (setupDone errflag s).device = s.device := by
  unfold setupDone
  split_ifs <;> rfl

theorem device_nonStandardRequest (s : ControlEndpoint) :
    (s.nonStandardRequest beyond).1.device = s.device := by
  unfold nonStandardRequest
  split_ifs <;> rfl

theorem device_getDescriptor (s : ControlEndpoint) :
    (s.getDescriptor beyond).1.device = s.device := by
  unfold getDescriptor
  split <;> rfl

theorem device_getStatus (s : ControlEndpoint) : s.getStatus.1.device = s.device := by
  unfold getStatus
  split_ifs <;> rfl

/-- Three requests can change what the device keeps when the SETUP token is served. -/
theorem device_standardRequest {s : ControlEndpoint} (hconf : s.setupReqCode ≠ usbSetConfiguration)
    (hclear : s.setupReqCode ≠ usbClearFeature) (hset : s.setupReqCode ≠ usbSetFeature) :
    (s.standardRequest beyond).1.device = s.device := by
  simp only [standardRequest, if_neg hconf, if_neg hclear, if_neg hset]
  split_ifs
  · exact device_getDescriptor beyond s
  · rfl
  · rfl
  · rfl
  · rfl
  · exact device_getStatus s
  · rfl

theorem standardRequest_getStatus {s : ControlEndpoint} (h : s.setupReqCode = usbGetStatus) :
    s.standardRequest beyond = s.getStatus := by
  simp +decide only [standardRequest, h, if_true, if_false]

theorem standardRequest_setFeature {s : ControlEndpoint} (h : s.setupReqCode = usbSetFeature) :
    s.standardRequest beyond = s.setFeature := by
  simp +decide only [standardRequest, h, if_true, if_false]

theorem standardRequest_clearFeature {s : ControlEndpoint} (h : s.setupReqCode = usbClearFeature) :
    s.standardRequest beyond = s.clearFeature := by
  simp +decide only [standardRequest, h, if_true, if_false]

theorem getStatus_device {s : ControlEndpoint}
    (hrecip : s.setupReqType &&& usbReqRecipMask = usbReqRecipDevice) :
    s.getStatus = (s.reply [if s.device.remoteWakeup then 0x02 else 0x00, 0x00] 2, false) := by
  simp only [getStatus, if_pos hrecip, device, decide_eq_true_eq]

theorem haltStatus_eq (s : ControlEndpoint) (e : DataEndpoint) :
    haltStatus (s.ctrl e) = if s.device.halted e then 0x01 else 0x00 := by
  simp [haltStatus, device]

theorem getStatus_endpoint {s : ControlEndpoint} {e : DataEndpoint}
    (hrecip : s.setupReqType &&& usbReqRecipMask = usbReqRecipEndp)
    (hindex : s.setupReqIndex = e.address) :
    s.getStatus = (s.reply [if s.device.halted e then 0x01 else 0x00, 0x00] 2, false) := by
  rw [← haltStatus_eq]
  cases e with
  | ep1In | ep2Out | ep3In =>
    simp +decide only [getStatus, hrecip, hindex, DataEndpoint.address, if_true, if_false, ctrl]

def setCtrl (e : DataEndpoint) (value : UInt8) (s : ControlEndpoint) : ControlEndpoint :=
  match e with
  | .ep1In => { s with uep1TxCtrl := value }
  | .ep2Out => { s with uep2RxCtrl := value }
  | .ep3In => { s with uep3TxCtrl := value }

/-- What an endpoint answers when it is no longer halted. -/
def released : DataEndpoint → UInt8
  | .ep1In | .ep3In => uepResNak
  | .ep2Out => uepResAck

theorem device_setCtrl (e : DataEndpoint) (value : UInt8) (s : ControlEndpoint) :
    (s.setCtrl e value).device = { s.device with
      halted := Function.update s.device.halted e (value &&& uepResMask = uepResStall) } := by
  have hhalted : (s.setCtrl e value).device.halted =
      Function.update s.device.halted e (value &&& uepResMask = uepResStall) := by
    funext e'
    cases e <;> cases e' <;> rfl
  rw [← hhalted]
  cases e <;> rfl

theorem setFeature_endpoint {s : ControlEndpoint} {e : DataEndpoint}
    (hrecip : s.setupReqType &&& usbReqRecipMask = usbReqRecipEndp) (hvalue : s.setupReqValue = 0)
    (hindex : s.setupReqIndex = e.address) :
    s.setFeature = (s.setCtrl e (stalled (s.ctrl e)), false) := by
  rcases s with ⟨⟩
  dsimp only at hrecip hvalue hindex
  subst hvalue hindex
  cases e with
  | ep1In | ep2Out | ep3In =>
    simp +decide only [setFeature, hrecip, DataEndpoint.address, if_true, if_false]
    rfl

theorem clearFeature_endpoint {s : ControlEndpoint} {e : DataEndpoint}
    (hrecip : s.setupReqType &&& usbReqRecipMask = usbReqRecipEndp) (hvalue : s.setupReqValue = 0)
    (hindex : s.setupReqIndex = e.address) :
    s.clearFeature = (s.setCtrl e (released e), false) := by
  rcases s with ⟨⟩
  dsimp only at hrecip hvalue hindex
  subst hvalue hindex
  cases e with
  | ep1In | ep2Out | ep3In =>
    simp +decide only [clearFeature, hrecip, DataEndpoint.address, if_true, if_false]
    rfl

theorem clearFeature_device {s : ControlEndpoint}
    (hrecip : s.setupReqType &&& usbReqRecipMask = usbReqRecipDevice)
    (hvalue : s.setupReqValue = 1) :
    s.clearFeature = ({ s with devSleepStatus := s.devSleepStatus &&& ~~~0x01 }, false) := by
  rcases s with ⟨⟩
  dsimp only at hrecip hvalue
  subst hvalue
  simp +decide only [clearFeature, hrecip, if_true]

theorem device_irqSetup {req : UsbSetupReq} (s : ControlEndpoint)
    (hconf : req.bRequest ≠ usbSetConfiguration) (hclear : req.bRequest ≠ usbClearFeature)
    (hset : req.bRequest ≠ usbSetFeature) : (s.irqSetup beyond req).device = s.device := by
  by_cases hstd : req.bRequestType &&& usbReqTypMask = usbReqTypStandard
  · rw [irqSetup_standard beyond s hstd, device_setupDone]
    exact device_standardRequest beyond hconf hclear hset
  · rw [irqSetup_nonStandard beyond s hstd, device_setupDone]
    exact device_nonStandardRequest beyond _

/-! ### Transfers from the device -/

theorem device_irqEp0Out (togOk : Bool) (s : ControlEndpoint)
    (h : s.setupReqCode ≠ cdcSetLineCoding) : (s.irqEp0Out togOk).device = s.device := by
  cases togOk with
  | false => rfl
  | true =>
    simp only [irqEp0Out, if_true]
    by_cases hstd : s.setupReqType &&& usbReqTypMask = usbReqTypStandard
    · simp only [if_neg (not_not.mpr hstd)]
      split <;> rfl
    · simp only [if_pos hstd, if_neg h, if_true]
      rfl

/-- The status of a transfer from the device: a packet without data. -/
theorem dataOut_status {address : UInt8} {s : ControlEndpoint} (haddr : s.device.address = address)
    (hrx : s.uep0RxCtrl = uepTog ||| uepResAck) (hcode : s.setupReqCode ≠ cdcSetLineCoding) :
    ∃ s', dataOut address true [] s = some ((), s') ∧ s'.device = s.device := by
  have hack : s.uep0RxCtrl &&& uepResMask = uepResAck := by
    rw [hrx]
    rfl
  refine ⟨(s.writeEp0 []).irqEp0Out (true == toggle s.uep0RxCtrl), ?_, ?_⟩
  · simp [dataOut, outToken, hasAddress, haddr, hack]
  · exact device_irqEp0Out _ _ hcode

/-- The endpoint holds a reply of a single packet. -/
structure Replies (bytes : List UInt8) (s : ControlEndpoint) : Prop where
  ctrl : s.uep0TxCtrl = uepTog
  packet : s.packet = bytes
  len : s.setupReqLen = 0
  short : bytes.length < 64
  getDescriptor : s.setupReqType &&& usbReqTypMask = usbReqTypStandard →
    s.setupReqCode ≠ usbGetDescriptor
  setAddress : s.setupReqType &&& usbReqTypMask = usbReqTypStandard →
    s.setupReqCode ≠ usbSetAddress
  setLineCoding : s.setupReqCode ≠ cdcSetLineCoding

theorem Replies.irqEp0In {bytes : List UInt8} {s : ControlEndpoint} (h : s.Replies bytes) :
    s.irqEp0In beyond = { s with uep0RxCtrl := uepTog ||| uepResAck } := by
  simp only [ControlEndpoint.irqEp0In, if_pos h.len]
  by_cases hstd : s.setupReqType &&& usbReqTypMask = usbReqTypStandard
  · rw [if_neg (not_not.mpr hstd), if_neg (h.getDescriptor hstd), if_neg (h.setAddress hstd)]
  · rw [if_pos hstd]

theorem setup_eq_some {address : UInt8} {req : UsbSetupReq} {s : ControlEndpoint}
    (haddr : s.device.address = address) :
    setup beyond address req s = some ((), s.irqSetup beyond req) := by
  simp [setup, setupToken, hasAddress, haddr]

theorem controlRead_replies {address : UInt8} {req : UsbSetupReq} {s : ControlEndpoint}
    {bytes : List UInt8} (haddr : s.device.address = address)
    (hdev : (s.irqSetup beyond req).device = s.device)
    (h : (s.irqSetup beyond req).Replies bytes) (hzero : req.wLength = 0 → bytes = []) :
    ∃ s', controlRead beyond address req s = some (bytes, s') ∧ s'.device = s.device := by
  have hsetup : setup beyond address req s = _ := setup_eq_some beyond haddr
  have hin : dataIn beyond address true (s.irqSetup beyond req) =
      some (bytes, { s.irqSetup beyond req with uep0RxCtrl := uepTog ||| uepResAck }) := by
    rw [dataIn_eq_some beyond (hdev ▸ haddr) h.ctrl, h.packet, h.irqEp0In]
  by_cases hlen : req.wLength = 0
  · refine ⟨{ s.irqSetup beyond req with uep0RxCtrl := uepTog ||| uepResAck }, ?_, hdev⟩
    simp only [controlRead, bind, StateT.bind, hsetup, Option.bind_some, if_pos hlen, statusIn, hin,
      hzero hlen, if_true]
    rfl
  · rcases dataOut_status (s := { s.irqSetup beyond req with uep0RxCtrl := uepTog ||| uepResAck })
      (show (s.irqSetup beyond req).device.address = address from hdev ▸ haddr) rfl
      h.setLineCoding with ⟨s', hout, hdev'⟩
    refine ⟨s', ?_, hdev'.trans hdev⟩
    have hread : readData beyond address (req.wLength.toNat + 1) true req.wLength.toNat
        (s.irqSetup beyond req) =
        some (bytes, { s.irqSetup beyond req with uep0RxCtrl := uepTog ||| uepResAck }) := by
      have hshort : bytes.length < defUsbdUep0Size.toNat ∨ req.wLength.toNat ≤ bytes.length :=
        Or.inl h.short
      simp only [readData, bind, StateT.bind, hin, Option.bind_some, if_pos hshort]
      rfl
    simp only [controlRead, bind, StateT.bind, hsetup, Option.bind_some, if_neg hlen, hread, hout]
    rfl

theorem controlRead_sending {address : UInt8} {req : UsbSetupReq} {s : ControlEndpoint}
    {rest : List UInt8} (haddr : s.device.address = address)
    (hdev : (s.irqSetup beyond req).device = s.device)
    (h : (s.irqSetup beyond req).Sending beyond rest true)
    (hlen : rest.length ≤ req.wLength.toNat) :
    ∃ s', controlRead beyond address req s = some (rest, s') ∧ s'.device = s.device := by
  by_cases hzero : req.wLength = 0
  · have hnil : rest = [] := by
      rw [hzero] at hlen
      exact List.length_eq_zero_iff.mp (Nat.le_zero.mp hlen)
    have hin : dataIn beyond address true (s.irqSetup beyond req) =
        some ([], (s.irqSetup beyond req).irqEp0In beyond) := by
      rw [dataIn_eq_some beyond (hdev ▸ haddr) h.ctrl, h.packet, hnil]
      rfl
    refine ⟨(s.irqSetup beyond req).irqEp0In beyond, ?_, ?_⟩
    · simp only [controlRead, bind, StateT.bind, setup_eq_some beyond haddr, Option.bind_some,
        if_pos hzero, statusIn, hin, if_true, hnil]
      rfl
    · exact h.device.trans hdev
  · rcases readData_sending beyond address (req.wLength.toNat + 1) true req.wLength.toNat rest _ h
      (hdev ▸ haddr) hlen (Nat.lt_succ_self _) with ⟨s₂, hread, hdev₂, hcode, hrx⟩
    have haddr₂ : s₂.device.address = address := by rw [hdev₂, hdev, haddr]
    have hcode₂ : s₂.setupReqCode ≠ cdcSetLineCoding := by
      rw [hcode]
      decide
    rcases dataOut_status haddr₂ hrx hcode₂ with ⟨s₃, hout, hdev₃⟩
    refine ⟨s₃, ?_, hdev₃.trans (hdev₂.trans hdev)⟩
    simp only [controlRead, bind, StateT.bind, setup_eq_some beyond haddr, Option.bind_some,
      if_neg hzero, hread, hout]
    rfl

theorem setupDone_in {s : ControlEndpoint} (h : s.setupReqType &&& defUepIn ≠ 0) :
    setupDone false s = { s with
      setupReqLen := s.setupReqLen - packetLen s.setupReqLen
      uep0TxLen := packetLen s.setupReqLen
      uep0TxCtrl := uepTog } := by
  simp only [setupDone, Bool.false_eq_true, if_false, if_pos h]
  rfl

theorem packetLen_of_lt {len : UInt16} (h : len.toNat < 64) : packetLen len = len := by
  apply UInt16.toNat_inj.mp
  rw [toNat_packetLen]
  exact min_eq_left h.le

theorem toNat_min (a b : UInt16) : (min a b).toNat = min a.toNat b.toNat := by
  show (if a ≤ b then a else b).toNat = _
  by_cases h : a ≤ b
  · rw [if_pos h, min_eq_left (UInt16.le_iff_toNat_le.mp h)]
  · rw [if_neg h, min_eq_right (not_le.mp fun hle => h (UInt16.le_iff_toNat_le.mpr hle)).le]

theorem replies_reply {bytes : List UInt8} {len : UInt16} {s : ControlEndpoint}
    (hin : s.setupReqType &&& defUepIn ≠ 0) (hbytes : bytes.length = len.toNat)
    (hshort : len.toNat < 64)
    (hdescr : s.setupReqType &&& usbReqTypMask = usbReqTypStandard →
      s.setupReqCode ≠ usbGetDescriptor)
    (haddr : s.setupReqType &&& usbReqTypMask = usbReqTypStandard →
      s.setupReqCode ≠ usbSetAddress)
    (hcoding : s.setupReqCode ≠ cdcSetLineCoding) :
    (setupDone false (s.reply bytes len)).Replies (bytes.take s.setupReqLen.toNat) := by
  have hmin := toNat_min s.setupReqLen len
  have hlt : (min s.setupReqLen len).toNat < 64 := by omega
  rw [setupDone_in (show (s.reply bytes len).setupReqType &&& defUepIn ≠ 0 from hin)]
  refine ⟨rfl, ?_, ?_, ?_, hdescr, haddr, hcoding⟩
  · show (List.range (packetLen (min s.setupReqLen len)).toNat).map (s.writeEp0 bytes).ep0Buf = _
    rw [packetLen_of_lt hlt, hmin, ← hbytes, ← List.take_range, List.map_take,
      map_ep0Buf_writeEp0]
  · show min s.setupReqLen len - packetLen (min s.setupReqLen len) = 0
    rw [packetLen_of_lt hlt, UInt16.sub_self]
  · rw [List.length_take]
    omega

theorem nonStandardRequest_getLineCoding {s : ControlEndpoint}
    (hclass : s.setupReqType &&& usbReqTypClass ≠ 0) (hcode : s.setupReqCode = cdcGetLineCoding) :
    s.nonStandardRequest beyond = (copyDescr beyond (packetLen s.setupReqLen)
      { s with pDescr := (.lineCoding, 0) }, false) := by
  simp only [nonStandardRequest, if_pos hclass, if_pos hcode]

theorem nonStandardRequest_class {s : ControlEndpoint} (htype : s.setupReqType = 0x21)
    (hcode : s.setupReqCode = cdcSetLineCoding ∨ s.setupReqCode = cdcSetLineCtlste ∨
      s.setupReqCode = cdcSendBreak) :
    s.nonStandardRequest beyond = (copyDescr beyond (packetLen s.setupReqLen) s, false) := by
  have hclass : s.setupReqType &&& usbReqTypClass ≠ 0 := by
    rw [htype]
    decide
  simp only [nonStandardRequest, if_pos hclass]
  rcases hcode with h | h | h
  · simp +decide only [h, if_true, if_false]
  · simp +decide only [h, if_true, if_false]
  · simp +decide only [h, if_true, if_false]

theorem replies_getLineCoding (interface : UInt16) (length : Fin 8) (s : ControlEndpoint) :
    (s.irqSetup beyond (ControlRequest.getLineCoding interface length).packet).Replies
      (s.gLineCoding.toList.take length) := by
  have hlen : (UInt16.ofNat length).toNat = length := by
    have hlt := length.isLt
    rw [UInt16.toNat_ofNat']
    omega
  have hpacket : packetLen (.ofNat length) = .ofNat length := packetLen_of_lt (by omega)
  rw [irqSetup_nonStandard beyond s (show (0xA1 : UInt8) &&& _ ≠ _ by decide),
    nonStandardRequest_getLineCoding beyond (show (0xA1 : UInt8) &&& _ ≠ _ by decide) rfl]
  show (setupDone false (copyDescr beyond (packetLen (.ofNat length)) _)).Replies _
  rw [hpacket, setupDone_in (show (0xA1 : UInt8) &&& _ ≠ _ by decide)]
  refine ⟨rfl, ?_, ?_, ?_, fun _ => (show cdcGetLineCoding ≠ _ by decide),
    fun _ => (show cdcGetLineCoding ≠ _ by decide), (show cdcGetLineCoding ≠ _ by decide)⟩
  · have hbytes := map_ep0Buf_copyDescr beyond
      { s.storeSetup (ControlRequest.getLineCoding interface length).packet with
        pDescr := (.lineCoding, 0) } (.ofNat length)
    rw [descrBytes_eq_take beyond rfl (show _ ≤ s.gLineCoding.toList.length by simp; omega),
      hlen] at hbytes
    show (List.range (packetLen (.ofNat length)).toNat).map _ = _
    rw [hpacket, hlen]
    exact hbytes
  · show UInt16.ofNat length - packetLen (.ofNat length) = 0
    rw [hpacket, UInt16.sub_self]
  · rw [List.length_take]
    omega

theorem selectDescr_value (descr : Descriptor) :
    selectDescr descr.value = some (descr.array, .ofNat descr.bytes.length) := by
  cases descr <;> decide

theorem array_descriptor (descr : Descriptor) (s : ControlEndpoint) :
    s.array descr.array = descr.bytes := by
  cases descr <;> rfl

theorem length_bytes_lt (descr : Descriptor) : descr.bytes.length < 68 := by
  cases descr <;> decide

theorem sending_copyDescr {s : ControlEndpoint} (hin : s.setupReqType &&& defUepIn ≠ 0)
    (hstd : s.setupReqType &&& usbReqTypMask = usbReqTypStandard)
    (hcode : s.setupReqCode = usbGetDescriptor) :
    (setupDone false (s.copyDescr beyond (packetLen s.setupReqLen))).Sending beyond
      (s.descrBytes beyond s.setupReqLen.toNat) true := by
  rw [setupDone_in (show (s.copyDescr beyond _).setupReqType &&& defUepIn ≠ 0 from hin)]
  refine ⟨hstd, hcode, rfl, ?_, descrBytes_packetLen beyond s s.setupReqLen⟩
  rw [take_descrBytes, min_comm, ← toNat_packetLen]
  exact map_ep0Buf_copyDescr beyond s _

theorem sending_getDescriptor (descr : Descriptor) (langId length : UInt16) (s : ControlEndpoint) :
    (s.irqSetup beyond (ControlRequest.getDescriptor descr langId length).packet).Sending beyond
      (descr.bytes.take length.toNat) true := by
  have hbytes := length_bytes_lt descr
  have hlen : (min length (.ofNat descr.bytes.length)).toNat =
      min length.toNat descr.bytes.length := by
    rw [toNat_min, UInt16.toNat_ofNat']
    omega
  have hstart : descrBytes beyond
      { s.storeSetup (ControlRequest.getDescriptor descr langId length).packet with
        pDescr := (descr.array, 0)
        setupReqLen := min length (.ofNat descr.bytes.length) }
      (min length (.ofNat descr.bytes.length)).toNat = descr.bytes.take length.toNat := by
    rw [descrBytes_eq_take beyond rfl, array_descriptor, hlen, ← List.take_eq_take_min]
    rw [array_descriptor, hlen]
    exact min_le_right _ _
  have hselect : selectDescr (s.storeSetup
      (ControlRequest.getDescriptor descr langId length).packet).setupReqValue = _ :=
    selectDescr_value descr
  have hcode : (s.storeSetup
      (ControlRequest.getDescriptor descr langId length).packet).setupReqCode =
        usbGetDescriptor := rfl
  rw [irqSetup_standard beyond s (show (0x80 : UInt8) &&& _ = _ by decide), standardRequest,
    if_pos hcode]
  simp only [getDescriptor, hselect]
  rw [← hstart]
  exact sending_copyDescr beyond (show (0x80 : UInt8) &&& _ ≠ _ by decide)
    (show (0x80 : UInt8) &&& _ = _ by decide) rfl

/-! ### Transfers to the device -/

theorem statusIn_eq_some {address : UInt8} {s : ControlEndpoint}
    (haddr : s.device.address = address) (hctrl : s.uep0TxCtrl = uepTog) (hlen : s.uep0TxLen = 0) :
    statusIn beyond address s = some ((), s.irqEp0In beyond) := by
  have hin : dataIn beyond address true s = some ([], s.irqEp0In beyond) := by
    rw [dataIn_eq_some beyond haddr (show _ = if true then _ else _ from hctrl), packet, hlen]
    rfl
  simp only [statusIn, bind, StateT.bind, hin, Option.bind_some, if_true]
  rfl

theorem controlWrite_nil {address : UInt8} {req : UsbSetupReq} {s : ControlEndpoint}
    (haddr : s.device.address = address)
    (hdev : (s.irqSetup beyond req).device.address = s.device.address)
    (hlen : (s.irqSetup beyond req).uep0TxLen = 0)
    (hctrl : (s.irqSetup beyond req).uep0TxCtrl = uepTog) :
    controlWrite beyond address req [] s =
      some ((), (s.irqSetup beyond req).irqEp0In beyond) := by
  have hsetup : setup beyond address req s = _ := setup_eq_some beyond haddr
  have hstatus : statusIn beyond address (s.irqSetup beyond req) = _ :=
    statusIn_eq_some beyond (hdev.trans haddr) hctrl hlen
  simp only [controlWrite, bind, StateT.bind, hsetup, Option.bind_some, ne_eq, not_true_eq_false,
    if_false, hstatus]

/-! ### Requests as transfers -/

theorem perform_in {address : UInt8} {r : ControlRequest}
    (hin : r.packet.bRequestType &&& defUepIn ≠ 0) :
    perform beyond address r = controlRead beyond address r.packet := if_pos hin

theorem perform_out {address : UInt8} {r : ControlRequest}
    (hout : r.packet.bRequestType &&& defUepIn = 0) :
    perform beyond address r = (do
      controlWrite beyond address r.packet r.data
      pure []) := if_neg (not_not.mpr hout)

theorem perform_getDescriptor (descr : Descriptor) (langId length : UInt16) (s : ControlEndpoint) :
    ∃ s', perform beyond s.device.address (.getDescriptor descr langId length) s =
      some (descr.bytes.take length.toNat, s') ∧ s'.device = s.device := by
  rw [perform_in beyond (show (0x80 : UInt8) &&& _ ≠ _ by decide)]
  apply controlRead_sending beyond rfl
  · exact device_irqSetup beyond s (show usbGetDescriptor ≠ _ by decide)
      (show usbGetDescriptor ≠ _ by decide) (show usbGetDescriptor ≠ _ by decide)
  · exact sending_getDescriptor beyond descr langId length s
  · exact List.length_take_le _ _

/-- The requests that `reply` answers. -/
theorem perform_reply {r : ControlRequest} {s : ControlEndpoint} {bytes : List UInt8}
    {len : UInt16} (hcode : r.packet.bRequest = usbGetConfiguration ∨
      r.packet.bRequest = usbGetInterface ∨ r.packet.bRequest = usbGetStatus)
    (hstd : r.packet.bRequestType &&& usbReqTypMask = usbReqTypStandard)
    (hin : r.packet.bRequestType &&& defUepIn ≠ 0)
    (hreq : (s.storeSetup r.packet).standardRequest beyond =
      ((s.storeSetup r.packet).reply bytes len, false))
    (hbytes : bytes.length = len.toNat) (hshort : len.toNat < 64) :
    ∃ s', perform beyond s.device.address r s =
      some (bytes.take r.packet.wLength.toNat, s') ∧ s'.device = s.device := by
  have hne : ∀ code : UInt8, code ≠ usbGetConfiguration → code ≠ usbGetInterface →
      code ≠ usbGetStatus → r.packet.bRequest ≠ code := by
    intro code hconf hint hstat heq
    rcases hcode with h | h | h
    · exact hconf (heq.symm.trans h)
    · exact hint (heq.symm.trans h)
    · exact hstat (heq.symm.trans h)
  rw [perform_in beyond hin]
  apply controlRead_replies beyond rfl
  · exact device_irqSetup beyond s (hne usbSetConfiguration (by decide) (by decide) (by decide))
      (hne usbClearFeature (by decide) (by decide) (by decide))
      (hne usbSetFeature (by decide) (by decide) (by decide))
  · rw [irqSetup_standard beyond s hstd, hreq]
    exact replies_reply (s := s.storeSetup r.packet) hin hbytes hshort
      (fun _ => hne usbGetDescriptor (by decide) (by decide) (by decide))
      (fun _ => hne usbSetAddress (by decide) (by decide) (by decide))
      (hne cdcSetLineCoding (by decide) (by decide) (by decide))
  · intro hzero
    rw [hzero]
    rfl

theorem perform_getLineCoding (interface : UInt16) (length : Fin 8) (s : ControlEndpoint) :
    ∃ s', perform beyond s.device.address (.getLineCoding interface length) s =
      some (s.gLineCoding.toList.take length, s') ∧ s'.device = s.device := by
  rw [perform_in beyond (show (0xA1 : UInt8) &&& _ ≠ _ by decide)]
  apply controlRead_replies beyond rfl
  · exact device_irqSetup beyond s (show cdcGetLineCoding ≠ _ by decide)
      (show cdcGetLineCoding ≠ _ by decide) (show cdcGetLineCoding ≠ _ by decide)
  · exact replies_getLineCoding beyond interface length s
  · intro hzero
    have hlen : (UInt16.ofNat length).toNat = 0 := congrArg UInt16.toNat hzero
    have hlt := length.isLt
    rw [UInt16.toNat_ofNat', Nat.mod_eq_of_lt (by omega)] at hlen
    rw [hlen, List.take_zero]

theorem perform_nil {r : ControlRequest} {s s' : ControlEndpoint}
    (hout : r.packet.bRequestType &&& defUepIn = 0) (hdata : r.data = [])
    (hsetup : s.irqSetup beyond r.packet = s') (haddr : s'.device.address = s.device.address)
    (hlen : s'.uep0TxLen = 0) (hctrl : s'.uep0TxCtrl = uepTog) :
    perform beyond s.device.address r s = some ([], s'.irqEp0In beyond) := by
  rw [perform_out beyond hout, hdata]
  have hwrite : controlWrite beyond s.device.address r.packet [] s = _ :=
    controlWrite_nil beyond rfl (hsetup ▸ haddr) (hsetup ▸ hlen) (hsetup ▸ hctrl)
  simp only [bind, StateT.bind, hwrite, hsetup, Option.bind_some]
  rfl

theorem setupDone_out {s : ControlEndpoint} (h : s.setupReqType &&& defUepIn = 0)
    (hlen : s.setupReqLen = 0) :
    setupDone false s = { s with uep0TxLen := 0, uep0TxCtrl := uepTog } := by
  simp only [setupDone, Bool.false_eq_true, if_false, if_neg (not_not.mpr h), if_pos hlen]
  rfl

theorem setupDone_data {s : ControlEndpoint} (h : s.setupReqType &&& defUepIn = 0)
    (hlen : s.setupReqLen ≠ 0) :
    setupDone false s = { s with uep0RxCtrl := uepTog ||| uepResAck } := by
  simp only [setupDone, Bool.false_eq_true, if_false, if_neg (not_not.mpr h), if_neg hlen]

/-- The case for IN tokens, where the status of a transfer to the device is sent. -/
theorem device_irqEp0In_status {s : ControlEndpoint}
    (hdescr : s.setupReqCode ≠ usbGetDescriptor) (haddr : s.setupReqCode ≠ usbSetAddress) :
    (s.irqEp0In beyond).device = s.device := by
  simp only [irqEp0In]
  split_ifs <;> rfl

theorem perform_standard {r : ControlRequest} {s s' : ControlEndpoint}
    (hstd : r.packet.bRequestType &&& usbReqTypMask = usbReqTypStandard)
    (hout : r.packet.bRequestType &&& defUepIn = 0) (hdata : r.data = [])
    (hreq : (s.storeSetup r.packet).standardRequest beyond = (s', false))
    (htype : s'.setupReqType = r.packet.bRequestType) (hleft : s'.setupReqLen = 0)
    (haddr : s'.device.address = s.device.address) :
    perform beyond s.device.address r s =
      some ([], irqEp0In beyond { s' with uep0TxLen := 0, uep0TxCtrl := uepTog }) := by
  have hsetup : s.irqSetup beyond r.packet = { s' with uep0TxLen := 0, uep0TxCtrl := uepTog } := by
    rw [irqSetup_standard beyond s hstd, hreq]
    exact setupDone_out (htype ▸ hout) hleft
  exact perform_nil beyond hout hdata hsetup haddr rfl rfl

theorem device_irqEp0In_setAddress {s : ControlEndpoint} {address : UInt8}
    (hstd : s.setupReqType &&& usbReqTypMask = usbReqTypStandard)
    (hcode : s.setupReqCode = usbSetAddress) (haddr : s.devAddr = address) (hlt : address < 128) :
    (s.irqEp0In beyond).device = { s.device with address } := by
  have hne : s.setupReqCode ≠ usbGetDescriptor := by
    rw [hcode]
    decide
  have hreg := gpBit_or_address s.devAddrReg address hlt
  rw [← haddr] at hreg ⊢
  simp only [irqEp0In]
  split_ifs <;> simp_all [device] <;> rfl

theorem perform_setAddress (address : Fin 128) (s : ControlEndpoint) :
    ∃ s', perform beyond s.device.address (.setAddress address) s = some ([], s') ∧
      s'.device = { s.device with address := .ofNat address } := by
  have hlt := address.isLt
  have hnarrow : (UInt16.ofNat address).toUInt8 = UInt8.ofNat address := by
    apply UInt8.toNat_inj.mp
    rw [UInt16.toNat_toUInt8, UInt16.toNat_ofNat', UInt8.toNat_ofNat']
    omega
  have hsmall : UInt8.ofNat address < 128 := by
    rw [UInt8.lt_iff_toNat_lt, UInt8.toNat_ofNat']
    exact (Nat.mod_le _ _).trans_lt hlt
  refine ⟨_, perform_standard beyond (show (0x00 : UInt8) &&& _ = _ by decide)
    (show (0x00 : UInt8) &&& _ = _ by decide) rfl rfl rfl rfl rfl, ?_⟩
  exact device_irqEp0In_setAddress beyond (show (0x00 : UInt8) &&& _ = _ by decide) rfl hnarrow
    hsmall

theorem perform_update {r : ControlRequest} {s s' : ControlEndpoint}
    (hstd : r.packet.bRequestType &&& usbReqTypMask = usbReqTypStandard)
    (hout : r.packet.bRequestType &&& defUepIn = 0) (hdata : r.data = [])
    (hreq : (s.storeSetup r.packet).standardRequest beyond = (s', false))
    (htype : s'.setupReqType = r.packet.bRequestType) (hleft : s'.setupReqLen = 0)
    (haddr : s'.device.address = s.device.address) (hdescr : s'.setupReqCode ≠ usbGetDescriptor)
    (hset : s'.setupReqCode ≠ usbSetAddress) :
    ∃ s₂, perform beyond s.device.address r s = some ([], s₂) ∧ s₂.device = s'.device := by
  refine ⟨_, perform_standard beyond hstd hout hdata hreq htype hleft haddr, ?_⟩
  exact device_irqEp0In_status beyond hdescr hset

/-- The requests of a class that move no data. -/
theorem perform_class {r : ControlRequest} (s : ControlEndpoint)
    (hcode : r.packet.bRequest = cdcSetLineCtlste ∨ r.packet.bRequest = cdcSendBreak)
    (htype : r.packet.bRequestType = 0x21) (hlen : r.packet.wLength = 0) (hdata : r.data = []) :
    ∃ s₂, perform beyond s.device.address r s = some ([], s₂) ∧ s₂.device = s.device := by
  have hreq := nonStandardRequest_class beyond (s := s.storeSetup r.packet) htype (Or.inr hcode)
  have hsetup : s.irqSetup beyond r.packet = { copyDescr beyond (packetLen r.packet.wLength)
      (s.storeSetup r.packet) with uep0TxLen := 0, uep0TxCtrl := uepTog } := by
    have hclass : r.packet.bRequestType &&& usbReqTypMask ≠ usbReqTypStandard := by
      rw [htype]
      decide
    rw [irqSetup_nonStandard beyond s hclass, hreq]
    apply setupDone_out
    · rw [show (copyDescr beyond _ (s.storeSetup r.packet)).setupReqType = 0x21 from htype]
      decide
    · exact hlen
  have hout : r.packet.bRequestType &&& defUepIn = 0 := by
    rw [htype]
    decide
  refine ⟨_, perform_nil beyond hout hdata hsetup rfl rfl rfl, ?_⟩
  apply device_irqEp0In_status beyond
  · rcases hcode with h | h
    · exact fun heq => absurd (h.symm.trans heq) (by decide)
    · exact fun heq => absurd (h.symm.trans heq) (by decide)
  · rcases hcode with h | h
    · exact fun heq => absurd (h.symm.trans heq) (by decide)
    · exact fun heq => absurd (h.symm.trans heq) (by decide)

theorem perform_setConfiguration (configuration : UInt8) (s : ControlEndpoint) :
    ∃ s₂, perform beyond s.device.address (.setConfiguration configuration) s = some ([], s₂) ∧
      s₂.device = { s.device with configuration } := by
  have hreq : (s.storeSetup (ControlRequest.setConfiguration configuration).packet).standardRequest
      beyond = ({ s.storeSetup (ControlRequest.setConfiguration configuration).packet with
        devConfig := configuration.toUInt16.toUInt8, devEnumStatus := 0x01 }, false) := rfl
  rw [UInt8.toUInt8_toUInt16] at hreq
  apply perform_update beyond _ _ rfl hreq rfl rfl rfl
  · exact show usbSetConfiguration ≠ _ by decide
  · exact show usbSetConfiguration ≠ _ by decide
  · exact show (0x00 : UInt8) &&& _ = _ by decide
  · exact show (0x00 : UInt8) &&& _ = _ by decide

theorem perform_setInterface (setting interface : UInt16) (s : ControlEndpoint) :
    ∃ s₂, perform beyond s.device.address (.setInterface setting interface) s = some ([], s₂) ∧
      s₂.device = s.device := by
  have hreq : (s.storeSetup (ControlRequest.setInterface setting interface).packet).standardRequest
      beyond = (s.storeSetup (ControlRequest.setInterface setting interface).packet, false) := rfl
  apply perform_update beyond _ _ rfl hreq rfl rfl rfl
  · exact show usbSetInterface ≠ _ by decide
  · exact show usbSetInterface ≠ _ by decide
  · exact show (0x01 : UInt8) &&& _ = _ by decide
  · exact show (0x01 : UInt8) &&& _ = _ by decide

theorem perform_clearRemoteWakeup (s : ControlEndpoint) :
    ∃ s₂, perform beyond s.device.address .clearRemoteWakeup s = some ([], s₂) ∧
      s₂.device = { s.device with remoteWakeup := false } := by
  have hreq := (standardRequest_clearFeature beyond rfl).trans
    (clearFeature_device (s := s.storeSetup ControlRequest.clearRemoteWakeup.packet)
      (show (0x00 : UInt8) &&& _ = _ by decide) rfl)
  have hbit : s.devSleepStatus &&& ~~~0x01 &&& 0x01 = 0 := by
    rw [UInt8.and_assoc]
    exact UInt8.and_zero
  have hkeep : ({ s with devSleepStatus := s.devSleepStatus &&& ~~~0x01 } : ControlEndpoint).device =
      { s.device with remoteWakeup := false } := by
    simp [device, hbit]
    rfl
  rw [← hkeep]
  apply perform_update beyond _ _ rfl hreq rfl rfl rfl
  · exact show usbClearFeature ≠ _ by decide
  · exact show usbClearFeature ≠ _ by decide
  · exact show (0x00 : UInt8) &&& _ = _ by decide
  · exact show (0x00 : UInt8) &&& _ = _ by decide

theorem perform_setHalt (e : DataEndpoint) (s : ControlEndpoint) :
    ∃ s₂, perform beyond s.device.address (.setHalt e) s = some ([], s₂) ∧
      s₂.device = { s.device with halted := Function.update s.device.halted e true } := by
  have hreq := (standardRequest_setFeature beyond rfl).trans
    (setFeature_endpoint (s := s.storeSetup (ControlRequest.setHalt e).packet) (e := e)
      (show (0x02 : UInt8) &&& _ = _ by decide) rfl rfl)
  have hkeep := device_setCtrl e (stalled (s.ctrl e)) s
  rw [stalled_and_mask, decide_eq_true rfl] at hkeep
  rw [← hkeep]
  cases e with
  | ep1In | ep2Out | ep3In =>
    apply perform_update beyond _ _ rfl hreq rfl rfl rfl
    · exact show usbSetFeature ≠ _ by decide
    · exact show usbSetFeature ≠ _ by decide
    · exact show (0x02 : UInt8) &&& _ = _ by decide
    · exact show (0x02 : UInt8) &&& _ = _ by decide

theorem released_and_mask (e : DataEndpoint) : released e &&& uepResMask ≠ uepResStall := by
  cases e <;> decide

theorem perform_clearHalt (e : DataEndpoint) (s : ControlEndpoint) :
    ∃ s₂, perform beyond s.device.address (.clearHalt e) s = some ([], s₂) ∧
      s₂.device = { s.device with halted := Function.update s.device.halted e false } := by
  have hreq := (standardRequest_clearFeature beyond rfl).trans
    (clearFeature_endpoint (s := s.storeSetup (ControlRequest.clearHalt e).packet) (e := e)
      (show (0x02 : UInt8) &&& _ = _ by decide) rfl rfl)
  have hkeep := device_setCtrl e (released e) s
  rw [decide_eq_false (released_and_mask e)] at hkeep
  rw [← hkeep]
  cases e with
  | ep1In | ep2Out | ep3In =>
    apply perform_update beyond _ _ rfl hreq rfl rfl rfl
    · exact show usbClearFeature ≠ _ by decide
    · exact show usbClearFeature ≠ _ by decide
    · exact show (0x02 : UInt8) &&& _ = _ by decide
    · exact show (0x02 : UInt8) &&& _ = _ by decide

/-- What the OUT packet of a SET_LINE_CODING request leaves. -/
def storeCoding (coding : Vector UInt8 7) (s : ControlEndpoint) : ControlEndpoint :=
  { s.writeEp0 coding.toList with
    setupReqLen := 0, gLineCoding := coding, uep0TxLen := 0, uep0TxCtrl := uepTog }

theorem irqEp0Out_setLineCoding {s : ControlEndpoint} {coding : Vector UInt8 7}
    (hclass : s.setupReqType &&& usbReqTypMask ≠ usbReqTypStandard)
    (hcode : s.setupReqCode = cdcSetLineCoding) :
    (s.writeEp0 coding.toList).irqEp0Out true = s.storeCoding coding := by
  have hstored : (Vector.ofFn fun i : Fin 7 => (s.writeEp0 coding.toList).ep0Buf i) = coding := by
    apply Vector.ext
    intro i hi
    simp [writeEp0]
  simp only [irqEp0Out, if_true]
  rw [if_pos (show (s.writeEp0 coding.toList).setupReqType &&& _ ≠ _ from hclass),
    if_pos (show (s.writeEp0 coding.toList).setupReqCode = _ from hcode), if_pos rfl]
  simp only [hstored]
  rfl

theorem dataOut_ack {address : UInt8} {s : ControlEndpoint} (bytes : List UInt8)
    (haddr : s.device.address = address) (hrx : s.uep0RxCtrl = uepTog ||| uepResAck) :
    dataOut address true bytes s = some ((), (s.writeEp0 bytes).irqEp0Out true) := by
  have hack : s.uep0RxCtrl &&& uepResMask = uepResAck := by
    rw [hrx]
    rfl
  have htog : toggle s.uep0RxCtrl = true := by
    rw [hrx]
    rfl
  simp [dataOut, outToken, hasAddress, haddr, hack, htog]

theorem perform_setLineCoding (interface : UInt16) (coding : Vector UInt8 7) (s : ControlEndpoint) :
    ∃ s₂, perform beyond s.device.address (.setLineCoding interface coding) s = some ([], s₂) ∧
      s₂.device = { s.device with lineCoding := coding } := by
  have hclass : (0x21 : UInt8) &&& usbReqTypMask ≠ usbReqTypStandard := by decide
  have hdev : (s.irqSetup beyond (ControlRequest.setLineCoding interface coding).packet).device =
      s.device := device_irqSetup beyond s (show cdcSetLineCoding ≠ _ by decide)
    (show cdcSetLineCoding ≠ _ by decide) (show cdcSetLineCoding ≠ _ by decide)
  have hsetup : s.irqSetup beyond (ControlRequest.setLineCoding interface coding).packet =
      { copyDescr beyond (packetLen 7)
        (s.storeSetup (ControlRequest.setLineCoding interface coding).packet) with
        uep0RxCtrl := uepTog ||| uepResAck } := by
    rw [irqSetup_nonStandard beyond s hclass, nonStandardRequest_class beyond rfl (Or.inl rfl)]
    exact setupDone_data (show (0x21 : UInt8) &&& _ = _ by decide) (show (7 : UInt16) ≠ 0 by decide)
  have hrx : (s.irqSetup beyond (ControlRequest.setLineCoding interface coding).packet).uep0RxCtrl =
      uepTog ||| uepResAck := by rw [hsetup]
  have hnonstd : (s.irqSetup beyond
      (ControlRequest.setLineCoding interface coding).packet).setupReqType &&& usbReqTypMask ≠
        usbReqTypStandard := by
    rw [hsetup]
    exact hclass
  have hcode : (s.irqSetup beyond
      (ControlRequest.setLineCoding interface coding).packet).setupReqCode = cdcSetLineCoding := by
    rw [hsetup]
    rfl
  have hstart : setup beyond s.device.address
      (ControlRequest.setLineCoding interface coding).packet s = _ := setup_eq_some beyond rfl
  have hperform : perform beyond s.device.address (.setLineCoding interface coding) = _ :=
    perform_out beyond (show (0x21 : UInt8) &&& _ = _ by decide)
  rw [hperform]
  clear hsetup hperform
  generalize s.irqSetup beyond (ControlRequest.setLineCoding interface coding).packet = s₁ at *
  have hout : dataOut s.device.address true coding.toList s₁ = _ := dataOut_ack _ (hdev ▸ rfl) hrx
  rw [irqEp0Out_setLineCoding hnonstd hcode] at hout
  have hstatus : statusIn beyond s.device.address (s₁.storeCoding coding) = _ :=
    statusIn_eq_some beyond (hdev ▸ rfl) rfl rfl
  have hdata : (ControlRequest.setLineCoding interface coding).data ≠ [] := by
    intro hnil
    have hlen : coding.toList.length = 0 := congrArg List.length hnil
    simp at hlen
  refine ⟨(s₁.storeCoding coding).irqEp0In beyond, ?_, ?_⟩
  · simp only [controlWrite, bind, StateT.bind, hstart, Option.bind_some, if_pos hdata]
    rw [show (ControlRequest.setLineCoding interface coding).data = coding.toList from rfl, hout]
    simp only [Option.bind_some, hstatus]
    rfl
  · rw [← hdev]
    apply device_irqEp0In_status beyond
    · exact fun heq => absurd (hcode.symm.trans heq) (by decide)
    · exact fun heq => absurd (hcode.symm.trans heq) (by decide)

/-- Every transfer ends, from every state. -/
theorem perform_refines (r : ControlRequest) (s : ControlEndpoint) :
    ∃ s', perform beyond s.device.address r s = some (s.device.reply r, s') ∧
      s'.device = s.device.after r := by
  cases r with
  | getDescriptor descr langId length => exact perform_getDescriptor beyond descr langId length s
  | setAddress address => exact perform_setAddress beyond address s
  | getConfiguration length =>
    exact perform_reply beyond (Or.inl rfl) (show (0x80 : UInt8) &&& _ = _ by decide)
      (show (0x80 : UInt8) &&& _ ≠ _ by decide) rfl rfl (by decide)
  | setConfiguration configuration => exact perform_setConfiguration beyond configuration s
  | getInterface interface length =>
    exact perform_reply beyond (Or.inr (Or.inl rfl)) (show (0x81 : UInt8) &&& _ = _ by decide)
      (show (0x81 : UInt8) &&& _ ≠ _ by decide) rfl rfl (by decide)
  | setInterface setting interface => exact perform_setInterface beyond setting interface s
  | getDeviceStatus length =>
    exact perform_reply beyond (Or.inr (Or.inr rfl)) (show (0x80 : UInt8) &&& _ = _ by decide)
      (show (0x80 : UInt8) &&& _ ≠ _ by decide)
      ((standardRequest_getStatus beyond rfl).trans
        (getStatus_device (show (0x80 : UInt8) &&& _ = _ by decide))) rfl (by decide)
  | getHalt e length =>
    exact perform_reply beyond (Or.inr (Or.inr rfl)) (show (0x82 : UInt8) &&& _ = _ by decide)
      (show (0x82 : UInt8) &&& _ ≠ _ by decide)
      ((standardRequest_getStatus beyond rfl).trans
        (getStatus_endpoint (e := e) (show (0x82 : UInt8) &&& _ = _ by decide) rfl)) rfl (by decide)
  | clearRemoteWakeup => exact perform_clearRemoteWakeup beyond s
  | setHalt e => exact perform_setHalt beyond e s
  | clearHalt e => exact perform_clearHalt beyond e s
  | getLineCoding interface length => exact perform_getLineCoding beyond interface length s
  | setLineCoding interface coding => exact perform_setLineCoding beyond interface coding s
  | setControlLineState lines interface =>
    exact perform_class beyond s (Or.inl rfl) rfl rfl rfl
  | sendBreak duration interface =>
    exact perform_class beyond s (Or.inr rfl) rfl rfl rfl

/-! ### Sessions -/

theorem device_irqBusReset (s : ControlEndpoint) : s.irqBusReset.device = s.device.reset := by
  have haddr : (0 : UInt8) &&& ~~~usbfsUdaGpBit = 0 := UInt8.zero_and
  have hhalted : s.irqBusReset.device.halted = fun _ => false := by
    funext e
    apply decide_eq_false
    cases e with
    | ep1In => exact released_and_mask .ep1In
    | ep2Out => exact released_and_mask .ep2Out
    | ep3In => exact released_and_mask .ep3In
  rw [UsbDevice.reset, ← hhalted, ← haddr]
  rfl

theorem device_irqSuspend (suspended : Bool) (s : ControlEndpoint) :
    (s.irqSuspend suspended).device = s.device := by
  have hbit : (s.irqSuspend suspended).devSleepStatus &&& 0x01 = s.devSleepStatus &&& 0x01 := by
    cases suspended with
    | false =>
      show s.devSleepStatus &&& ~~~0x02 &&& 0x01 = _
      rw [UInt8.and_assoc]
      rfl
    | true =>
      show (s.devSleepStatus ||| 0x02) &&& 0x01 = _
      rw [or_and_right]
      exact UInt8.or_zero
  have hwakeup : (s.irqSuspend suspended).device.remoteWakeup = s.device.remoteWakeup := by
    simp [device, hbit]
  calc (s.irqSuspend suspended).device
    _ = { s.device with remoteWakeup := (s.irqSuspend suspended).device.remoteWakeup } := by
      cases suspended <;> rfl
    _ = s.device := by rw [hwakeup]

theorem address_after (d : UsbDevice) (r : ControlRequest) :
    (d.after r).address = r.newAddress.getD d.address := by
  cases r <;> rfl

theorem session_refines (events : List ControlEvent) : ∀ s : ControlEndpoint,
    ∃ s', session beyond events s.device.address s = some (s.device.replies events, s') ∧
      s'.device = s.device.run events := by
  induction events with
  | nil =>
    intro s
    exact ⟨s, rfl, rfl⟩
  | cons event events ih =>
    intro s
    cases event with
    | transfer r =>
      rcases perform_refines beyond r s with ⟨s₁, hperform, hdev₁⟩
      rcases ih s₁ with ⟨s₂, hrest, hdev₂⟩
      rw [hdev₁, address_after] at hrest
      refine ⟨s₂, ?_, ?_⟩
      · simp only [session, bind, StateT.bind, hperform, Option.bind_some, hrest]
        rfl
      · rw [hdev₂, hdev₁]
        rfl
    | reset =>
      rcases ih s.irqBusReset with ⟨s₂, hrest, hdev₂⟩
      rw [device_irqBusReset] at hrest hdev₂
      exact ⟨s₂, hrest, hdev₂⟩
    | suspend suspended =>
      rcases ih (s.irqSuspend suspended) with ⟨s₂, hrest, hdev₂⟩
      rw [device_irqSuspend] at hrest hdev₂
      exact ⟨s₂, hrest, hdev₂⟩

end ControlEndpoint

end Not232
