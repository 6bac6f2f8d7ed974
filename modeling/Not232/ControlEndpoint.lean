import Mathlib.Tactic

/-!
# The control endpoint of the USB device

The interrupt handler's cases for endpoint 0, for a bus reset and for a suspended bus, with the
descriptors that it sends. A read behind the end of a descriptor array yields what the linker has put there.
-/

namespace Not232

/-! ### Descriptors -/

def defUsbdUep0Size : UInt16 := 64

def myDevDescr : Vector UInt8 18 :=
  #v[0x12, 0x01, 0x10, 0x01, 0xFF, 0xFF, 0xFF, 64, 0x86, 0x1A, 0x0C, 0xFE, 0x01, 0x00, 0x01, 0x02,
    0x00, 0x01]

def myCfgDescr : Vector UInt8 67 :=
  #v[0x09, 0x02, 0x43, 0x00, 0x02, 0x01, 0x00, 0x80, 0x32,
    0x09, 0x04, 0x00, 0x00, 0x01, 0x02, 0x02, 0x01, 0x00,
    0x05, 0x24, 0x00, 0x10, 0x01,
    0x05, 0x24, 0x01, 0x00, 0x01,
    0x04, 0x24, 0x02, 0x02,
    0x05, 0x24, 0x06, 0x00, 0x01,
    0x07, 0x05, 0x81, 0x03, 64, 0, 0x01,
    0x09, 0x04, 0x01, 0x00, 0x02, 0x0A, 0x00, 0x00, 0x00,
    0x07, 0x05, 0x02, 0x02, 64, 0, 0x00,
    0x07, 0x05, 0x83, 0x02, 64, 0, 0x00]

def myLangDescr : Vector UInt8 4 := #v[0x04, 0x03, 0x09, 0x04]

def myManuInfo : Vector UInt8 14 := #v[0x0E, 0x03, 119, 0, 99, 0, 104, 0, 46, 0, 99, 0, 110, 0]

def myProdInfo : Vector UInt8 22 :=
  #v[0x16, 0x03, 85, 0, 83, 0, 66, 0, 32, 0, 83, 0, 101, 0, 114, 0, 105, 0, 97, 0, 108, 0]

def mySerNumInfo : Vector UInt8 22 :=
  #v[0x16, 0x03, 48, 0, 49, 0, 50, 0, 51, 0, 52, 0, 53, 0, 54, 0, 55, 0, 56, 0, 57, 0]

/-- What `pUSBFS_Descr` can point into. -/
inductive DescrArray
  | null
  | dev
  | cfg
  | lang
  | manu
  | prod
  | serNum
  | lineCoding
  deriving DecidableEq

/-! ### Requests -/

def usbGetStatus : UInt8 := 0x00
def usbClearFeature : UInt8 := 0x01
def usbSetFeature : UInt8 := 0x03
def usbSetAddress : UInt8 := 0x05
def usbGetDescriptor : UInt8 := 0x06
def usbGetConfiguration : UInt8 := 0x08
def usbSetConfiguration : UInt8 := 0x09
def usbGetInterface : UInt8 := 0x0A
def usbSetInterface : UInt8 := 0x0B

def cdcSetLineCoding : UInt8 := 0x20
def cdcGetLineCoding : UInt8 := 0x21
def cdcSetLineCtlste : UInt8 := 0x22
def cdcSendBreak : UInt8 := 0x23

def usbReqTypMask : UInt8 := 0x60
def usbReqTypStandard : UInt8 := 0x00
def usbReqTypClass : UInt8 := 0x20
def usbReqTypVendor : UInt8 := 0x40
def usbReqRecipMask : UInt8 := 0x1F
def usbReqRecipDevice : UInt8 := 0x00
def usbReqRecipEndp : UInt8 := 0x02
def usbReqFeatRemoteWakeup : UInt8 := 0x01
def usbReqFeatEndpHalt : UInt8 := 0x00

def usbDescrTypDevice : UInt8 := 0x01
def usbDescrTypConfig : UInt8 := 0x02
def usbDescrTypString : UInt8 := 0x03

def defUepIn : UInt8 := 0x80

/-- The response field of a control register, with the same values in either direction, and the
toggle. -/
def uepResMask : UInt8 := 0x03
def uepResAck : UInt8 := 0x00
def uepResNak : UInt8 := 0x02
def uepResStall : UInt8 := 0x03
def uepTog : UInt8 := 0x04

def usbfsUdaGpBit : UInt8 := 0x80

structure UsbSetupReq where
  bRequestType : UInt8
  bRequest : UInt8
  wValue : UInt16
  wIndex : UInt16
  wLength : UInt16

/-- The packet in memory. -/
def UsbSetupReq.bytes (req : UsbSetupReq) : List UInt8 :=
  [req.bRequestType, req.bRequest, req.wValue.toUInt8, (req.wValue >>> 8).toUInt8,
    req.wIndex.toUInt8, (req.wIndex >>> 8).toUInt8, req.wLength.toUInt8,
    (req.wLength >>> 8).toUInt8]

structure ControlEndpoint where
  setupReqType : UInt8
  setupReqCode : UInt8
  setupReqValue : UInt16
  setupReqIndex : UInt16
  setupReqLen : UInt16
  devConfig : UInt8
  devAddr : UInt8
  devSleepStatus : UInt8
  devEnumStatus : UInt8
  ep0Buf : ℕ → UInt8
  pDescr : DescrArray × ℕ
  gLineCoding : Vector UInt8 7
  uep0TxLen : UInt16
  uep0TxCtrl : UInt8
  uep0RxCtrl : UInt8
  uep1TxCtrl : UInt8
  uep2RxCtrl : UInt8
  uep3TxCtrl : UInt8
  devAddrReg : UInt8

namespace ControlEndpoint

/-- The buffer with bytes written to its front. -/
def writeEp0 (bytes : List UInt8) (s : ControlEndpoint) : ControlEndpoint :=
  { s with ep0Buf := fun i => bytes[i]?.getD (s.ep0Buf i) }

def array (s : ControlEndpoint) : DescrArray → List UInt8
  | .null => []
  | .dev => myDevDescr.toList
  | .cfg => myCfgDescr.toList
  | .lang => myLangDescr.toList
  | .manu => myManuInfo.toList
  | .prod => myProdInfo.toList
  | .serNum => mySerNumInfo.toList
  | .lineCoding => s.gLineCoding.toList

/-- The byte at `pUSBFS_Descr + i`; `beyond` is what lies behind the arrays. -/
def descrByte (beyond : DescrArray → ℕ → UInt8) (s : ControlEndpoint) (i : ℕ) : UInt8 :=
  (s.array s.pDescr.1)[s.pDescr.2 + i]?.getD (beyond s.pDescr.1 (s.pDescr.2 + i))

/-- `memcpy(USBFS_EP0_Buf, pUSBFS_Descr, len); pUSBFS_Descr += len;` -/
def copyDescr (beyond : DescrArray → ℕ → UInt8) (len : UInt16) (s : ControlEndpoint) :
    ControlEndpoint :=
  { s.writeEp0 ((List.range len.toNat).map (s.descrByte beyond)) with
    pDescr := (s.pDescr.1, s.pDescr.2 + len.toNat) }

/-- As much of a transfer as fits a packet. -/
def packetLen (len : UInt16) : UInt16 := if len ≥ defUsbdUep0Size then defUsbdUep0Size else len

/-- The array and the length of the descriptor that a value selects. -/
def selectDescr (value : UInt16) : Option (DescrArray × UInt16) :=
  let descrType := (value >>> 8).toUInt8
  if descrType = usbDescrTypDevice then some (.dev, (myDevDescr.get 0).toUInt16)
  else if descrType = usbDescrTypConfig then
    some (.cfg, (myCfgDescr.get 2).toUInt16 + (myCfgDescr.get 3).toUInt16 <<< 8)
  else if descrType = usbDescrTypString then
    if value.toUInt8 = 0x00 then some (.lang, (myLangDescr.get 0).toUInt16)
    else if value.toUInt8 = 0x01 then some (.manu, (myManuInfo.get 0).toUInt16)
    else if value.toUInt8 = 0x02 then some (.prod, (myProdInfo.get 0).toUInt16)
    else if value.toUInt8 = 0x03 then some (.serNum, (mySerNumInfo.get 0).toUInt16)
    else none
  else none

/-! The cases of a request return the new state and whether the request is refused. -/

def getDescriptor (beyond : DescrArray → ℕ → UInt8) (s : ControlEndpoint) :
    ControlEndpoint × Bool :=
  match selectDescr s.setupReqValue with
  | none =>
    let s := { s with setupReqLen := min s.setupReqLen 0 }
    (s.copyDescr beyond (packetLen s.setupReqLen), true)
  | some (array, len) =>
    let s := { s with pDescr := (array, 0), setupReqLen := min s.setupReqLen len }
    (s.copyDescr beyond (packetLen s.setupReqLen), false)

/-- The request asks for at most `len` bytes of the buffer. -/
def reply (bytes : List UInt8) (len : UInt16) (s : ControlEndpoint) : ControlEndpoint :=
  { s.writeEp0 bytes with setupReqLen := min s.setupReqLen len }

def clearFeature (s : ControlEndpoint) : ControlEndpoint × Bool :=
  if s.setupReqType &&& usbReqRecipMask = usbReqRecipDevice then
    if s.setupReqValue.toUInt8 = usbReqFeatRemoteWakeup then
      ({ s with devSleepStatus := s.devSleepStatus &&& ~~~0x01 }, false)
    else (s, false)
  else if s.setupReqType &&& usbReqRecipMask = usbReqRecipEndp then
    if s.setupReqValue.toUInt8 = usbReqFeatEndpHalt then
      if s.setupReqIndex.toUInt8 = 0x81 then ({ s with uep1TxCtrl := uepResNak }, false)
      else if s.setupReqIndex.toUInt8 = 0x02 then ({ s with uep2RxCtrl := uepResAck }, false)
      else if s.setupReqIndex.toUInt8 = 0x83 then ({ s with uep3TxCtrl := uepResNak }, false)
      else (s, true)
    else (s, true)
  else (s, true)

def stalled (ctrl : UInt8) : UInt8 := (ctrl &&& ~~~uepResMask) ||| uepResStall

def setFeature (s : ControlEndpoint) : ControlEndpoint × Bool :=
  if s.setupReqType &&& usbReqRecipMask = usbReqRecipDevice then
    if s.setupReqValue.toUInt8 = usbReqFeatRemoteWakeup then
      if myCfgDescr.get 7 &&& 0x20 ≠ 0 then
        ({ s with devSleepStatus := s.devSleepStatus ||| 0x01 }, false)
      else (s, true)
    else (s, true)
  else if s.setupReqType &&& usbReqRecipMask = usbReqRecipEndp then
    if s.setupReqValue.toUInt8 = usbReqFeatEndpHalt then
      if s.setupReqIndex.toUInt8 = 0x81 then ({ s with uep1TxCtrl := stalled s.uep1TxCtrl }, false)
      else if s.setupReqIndex.toUInt8 = 0x02 then
        ({ s with uep2RxCtrl := stalled s.uep2RxCtrl }, false)
      else if s.setupReqIndex.toUInt8 = 0x83 then
        ({ s with uep3TxCtrl := stalled s.uep3TxCtrl }, false)
      else (s, true)
    else (s, true)
  else (s, true)

/-- The first byte of an endpoint's status. -/
def haltStatus (ctrl : UInt8) : UInt8 := if ctrl &&& uepResMask = uepResStall then 0x01 else 0x00

def getStatus (s : ControlEndpoint) : ControlEndpoint × Bool :=
  if s.setupReqType &&& usbReqRecipMask = usbReqRecipDevice then
    (s.reply [if s.devSleepStatus &&& 0x01 ≠ 0 then 0x02 else 0x00, 0x00] 2, false)
  else if s.setupReqType &&& usbReqRecipMask = usbReqRecipEndp then
    if s.setupReqIndex.toUInt8 = 0x81 then (s.reply [haltStatus s.uep1TxCtrl, 0x00] 2, false)
    else if s.setupReqIndex.toUInt8 = 0x02 then (s.reply [haltStatus s.uep2RxCtrl, 0x00] 2, false)
    else if s.setupReqIndex.toUInt8 = 0x83 then (s.reply [haltStatus s.uep3TxCtrl, 0x00] 2, false)
    else (s.reply [0x00, 0x00] 2, true)
  else (s.reply [0x00, 0x00] 2, true)

def standardRequest (beyond : DescrArray → ℕ → UInt8) (s : ControlEndpoint) :
    ControlEndpoint × Bool :=
  if s.setupReqCode = usbGetDescriptor then s.getDescriptor beyond
  else if s.setupReqCode = usbSetAddress then
    ({ s with devAddr := s.setupReqValue.toUInt8 }, false)
  else if s.setupReqCode = usbGetConfiguration then (s.reply [s.devConfig] 1, false)
  else if s.setupReqCode = usbSetConfiguration then
    ({ s with devConfig := s.setupReqValue.toUInt8, devEnumStatus := 0x01 }, false)
  else if s.setupReqCode = usbClearFeature then s.clearFeature
  else if s.setupReqCode = usbSetFeature then s.setFeature
  else if s.setupReqCode = usbGetInterface then (s.reply [0x00] 1, false)
  else if s.setupReqCode = usbSetInterface then (s, false)
  else if s.setupReqCode = usbGetStatus then s.getStatus
  else (s, true)

/-- Class and vendor requests. Whatever the request, the buffer is filled from `pUSBFS_Descr`. -/
def nonStandardRequest (beyond : DescrArray → ℕ → UInt8) (s : ControlEndpoint) :
    ControlEndpoint × Bool :=
  let chosen : ControlEndpoint × Bool :=
    if s.setupReqType &&& usbReqTypClass ≠ 0 then
      if s.setupReqCode = cdcGetLineCoding then ({ s with pDescr := (.lineCoding, 0) }, false)
      else if s.setupReqCode = cdcSetLineCoding then (s, false)
      else if s.setupReqCode = cdcSetLineCtlste then (s, false)
      else if s.setupReqCode = cdcSendBreak then (s, false)
      else (s, true)
    else if s.setupReqType &&& usbReqTypVendor ≠ 0 then (s, false)
    else (s, true)
  (chosen.1.copyDescr beyond (packetLen s.setupReqLen), chosen.2)

/-- What the case for SETUP tokens does behind the request. -/
def setupDone (errflag : Bool) (s : ControlEndpoint) : ControlEndpoint :=
  if errflag then
    { s with uep0TxCtrl := uepTog ||| uepResStall, uep0RxCtrl := uepTog ||| uepResStall }
  else if s.setupReqType &&& defUepIn ≠ 0 then
    let len := packetLen s.setupReqLen
    { s with
      setupReqLen := s.setupReqLen - len
      uep0TxLen := len
      uep0TxCtrl := uepTog ||| uepResAck }
  else if s.setupReqLen = 0 then { s with uep0TxLen := 0, uep0TxCtrl := uepTog ||| uepResAck }
  else { s with uep0RxCtrl := uepTog ||| uepResAck }

/-- The fields of the packet in the buffer. -/
def storeSetup (req : UsbSetupReq) (s : ControlEndpoint) : ControlEndpoint :=
  { s.writeEp0 req.bytes with
    uep0TxCtrl := uepTog ||| uepResNak
    uep0RxCtrl := uepTog ||| uepResNak
    setupReqType := req.bRequestType
    setupReqCode := req.bRequest
    setupReqLen := req.wLength
    setupReqValue := req.wValue
    setupReqIndex := req.wIndex }

/-- The case for SETUP tokens. -/
def irqSetup (beyond : DescrArray → ℕ → UInt8) (req : UsbSetupReq) (s : ControlEndpoint) :
    ControlEndpoint :=
  let s := s.storeSetup req
  let r := if s.setupReqType &&& usbReqTypMask ≠ usbReqTypStandard then s.nonStandardRequest beyond
    else s.standardRequest beyond
  setupDone r.2 r.1

/-- The case for IN tokens on endpoint 0. -/
def irqEp0In (beyond : DescrArray → ℕ → UInt8) (s : ControlEndpoint) : ControlEndpoint :=
  let s := if s.setupReqLen = 0 then { s with uep0RxCtrl := uepTog ||| uepResAck } else s
  if s.setupReqType &&& usbReqTypMask ≠ usbReqTypStandard then s
  else if s.setupReqCode = usbGetDescriptor then
    let len := packetLen s.setupReqLen
    let s := s.copyDescr beyond len
    { s with
      setupReqLen := s.setupReqLen - len
      uep0TxLen := len
      uep0TxCtrl := s.uep0TxCtrl ^^^ uepTog }
  else if s.setupReqCode = usbSetAddress then
    { s with devAddrReg := (s.devAddrReg &&& usbfsUdaGpBit) ||| s.devAddr }
  else s

/-- The case for OUT tokens on endpoint 0. -/
def irqEp0Out (togOk : Bool) (s : ControlEndpoint) : ControlEndpoint :=
  if togOk then
    let s :=
      if s.setupReqType &&& usbReqTypMask ≠ usbReqTypStandard then
        let s := { s with setupReqLen := 0 }
        if s.setupReqCode = cdcSetLineCoding then
          { s with gLineCoding := Vector.ofFn fun i => s.ep0Buf i }
        else s
      else s
    if s.setupReqLen = 0 then { s with uep0TxLen := 0, uep0TxCtrl := uepTog ||| uepResAck } else s
  else s

/-- The registers of these endpoints that `USBFS_Device_Endp_Init` sets. -/
def usbfsDeviceEndpInit (s : ControlEndpoint) : ControlEndpoint :=
  { s with
    uep0RxCtrl := uepResAck
    uep2RxCtrl := uepResAck
    uep0TxCtrl := uepResNak
    uep1TxCtrl := uepResNak
    uep3TxCtrl := uepResNak }

/-- The initial values of the variables, on reset registers. -/
def powerOn : ControlEndpoint where
  setupReqType := 0
  setupReqCode := 0
  setupReqValue := 0
  setupReqIndex := 0
  setupReqLen := 0
  devConfig := 0
  devAddr := 0
  devSleepStatus := 0
  devEnumStatus := 0
  ep0Buf := fun _ => 0
  pDescr := (.null, 0)
  gLineCoding := #v[0x00, 0xC2, 0x01, 0x00, 0x00, 0x00, 0x08]
  uep0TxLen := 0
  uep0TxCtrl := 0
  uep0RxCtrl := 0
  uep1TxCtrl := 0
  uep2RxCtrl := 0
  uep3TxCtrl := 0
  devAddrReg := 0

def irqBusReset (s : ControlEndpoint) : ControlEndpoint :=
  usbfsDeviceEndpInit { s with devAddrReg := 0 }

def irqSuspend (suspended : Bool) (s : ControlEndpoint) : ControlEndpoint :=
  if suspended then { s with devSleepStatus := s.devSleepStatus ||| 0x02 }
  else { s with devSleepStatus := s.devSleepStatus &&& ~~~0x02 }

end ControlEndpoint

end Not232
