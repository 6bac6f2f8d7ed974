import Not232.RunRequest

/-!
# The commands

A command is a code and the fields that its case of `get_packet` receives. `getPacket` receives one;
codes without a case are ignored.
-/

namespace Not232

namespace RecvCode

def ping : UInt8 := 0
def identify : UInt8 := 1
def run : UInt8 := 2
def outPP : UInt8 := 20
def outOD : UInt8 := 21
def inFloating : UInt8 := 22
def inPU : UInt8 := 23
def inPD : UInt8 := 24
def setPin : UInt8 := 30
def clearPin : UInt8 := 31
def readPin : UInt8 := 32
def pwmInit : UInt8 := 119
def pwmDuty : UInt8 := 120
def adcInit : UInt8 := 121
def adcRead : UInt8 := 122
def adcTkeyRead : UInt8 := 123
def i2cInit : UInt8 := 140
def i2cScan : UInt8 := 141
def i2cRead : UInt8 := 142
def i2cWrite : UInt8 := 143
def i2cWriteRead : UInt8 := 144
def pulseioInClear : UInt8 := 151
def pulseioInStop : UInt8 := 152
def pulseioInResume : UInt8 := 153
def pulseioInRead : UInt8 := 154
def pulseioOutSend : UInt8 := 160
def neopixelWrite : UInt8 := 170
def internalWs2812b : UInt8 := 175
def owReset : UInt8 := 180
def owWrite0 : UInt8 := 181
def owWrite1 : UInt8 := 182
def owRead : UInt8 := 183
def spiInit : UInt8 := 190
def spiRead : UInt8 := 191
def spiWrite : UInt8 := 192
def spiWriteRead : UInt8 := 193
def flashfsRemove : UInt8 := 235
def flashfsMove : UInt8 := 236
def flashfsFileInfo : UInt8 := 237
def flashfsFileOpen : UInt8 := 238
def flashfsFileClose : UInt8 := 239
def flashfsFileRead : UInt8 := 240
def flashfsFileWrite : UInt8 := 241
def flashfsFileSeek : UInt8 := 242
def flashfsFileTruncate : UInt8 := 243
def flashfsMkdir : UInt8 := 244
def flashfsDirOpen : UInt8 := 245
def flashfsDirClose : UInt8 := 246
def flashfsDirRead : UInt8 := 247

end RecvCode

/-- A received command. The pins of an I2C transaction come data line first, those of SPI clock,
output and input; an address has been shifted left by one. -/
inductive Request
  | ping
  | identify
  | initPin (mode : GpioMode) (pin : UInt8)
  | setPin (pin : UInt8)
  | clearPin (pin : UInt8)
  | readPin (pin : UInt8)
  | run (start : RunStart)
  | pwmDuty (pin duty : UInt8)
  | adcRead (pin : UInt8)
  | adcTkeyRead (pin : UInt8)
  | i2cInit (sda scl : UInt8)
  | i2cScan (sda scl : UInt8) (delay : UInt32)
  | i2cWrite (sda scl address : UInt8) (writeBuffer : List UInt8) (stop : UInt8) (delay : UInt32)
  | i2cRead (sda scl address : UInt8) (bytesToRead : UInt32) (stop : UInt8) (delay : UInt32)
  | i2cWriteRead (sda scl address : UInt8) (writeBuffer : List UInt8) (bytesToRead : UInt32)
      (stop : UInt8) (delay : UInt32)
  | pulseioInResume (pin : UInt8) (triggerDuration : UInt16)
  | pulseioInClear
  | pulseioInStop (pin : UInt8)
  | pulseioInRead (pulseCount : UInt32)
  | pulseioOutSend (pin : UInt8) (duty : UInt32) (pulses : List UInt32)
  | neopixelWrite (pin : UInt8) (colors : List UInt8)
  | internalWs2812b (b0 b1 b2 : UInt8)
  | owReset (pin : UInt8)
  | owWrite0 (pin : UInt8)
  | owWrite1 (pin : UInt8)
  | owRead (pin : UInt8)
  | spiInit (clock mosi miso : UInt8)
  | spiRead (clock mosi miso mode writeValue : UInt8) (delay len : UInt32)
  | spiWrite (clock mosi miso mode : UInt8) (delay : UInt32) (writeBuff : List UInt8)
  | spiWriteRead (clock mosi miso mode : UInt8) (delay : UInt32) (writeBuff : List UInt8)
  | flashfsRemove (path : List UInt8)
  | flashfsMove (fromPath toPath : List UInt8)
  | flashfsFileInfo
  | flashfsFileOpen (path : List UInt8) (flags : UInt32)
  | flashfsFileClose (fh : UInt32)
  | flashfsFileRead (fh len : UInt32)
  | flashfsFileWrite (fh : UInt32) (writeBuffer : List UInt8)
  | flashfsFileSeek (fh offset whence : UInt32)
  | flashfsFileTruncate (fh size : UInt32)
  | flashfsMkdir (path : List UInt8)
  | flashfsDirOpen (path : List UInt8)
  | flashfsDirClose (dh : UInt32)
  | flashfsDirRead (dh : UInt32)
  | ignored (code : UInt8)

/-- The bytes of `comms_recv_buffer`. -/
def recvBytes (size : UInt32) : Recv (List UInt8) := do
  let bytes ← commsRecvBuffer size.toNat
  pure bytes.toList

/-- The characters of `comms_recv_string`, without the terminator. -/
def recvChars : Recv (List UInt8) := do
  let array ← commsRecvArray
  pure array.2.toList

/-- The first loop of `pulseio_out_send`. -/
def recvPulses : (n : ℕ) → Recv (List UInt32)
  | 0 => pure []
  | n + 1 => do
    let pulse ← commsRecvU32
    let pulses ← recvPulses n
    pure (pulse :: pulses)

/-- The fields that the case of a code receives. -/
def recvFieldsOf (l : Leftovers) (gpio : Gpio) (code : UInt8) : Recv Request := do
  if code = RecvCode.ping then
    pure .ping
  else if code = RecvCode.identify then
    pure .identify
  else if code = RecvCode.outPP then
    let pin ← commsRecvU8
    pure (.initPin .outPP pin)
  else if code = RecvCode.outOD then
    let pin ← commsRecvU8
    pure (.initPin .outOD pin)
  else if code = RecvCode.inFloating then
    let pin ← commsRecvU8
    pure (.initPin .inFloating pin)
  else if code = RecvCode.inPU then
    let pin ← commsRecvU8
    pure (.initPin .ipu pin)
  else if code = RecvCode.inPD then
    let pin ← commsRecvU8
    pure (.initPin .ipd pin)
  else if code = RecvCode.setPin then
    let pin ← commsRecvU8
    pure (.setPin pin)
  else if code = RecvCode.clearPin then
    let pin ← commsRecvU8
    pure (.clearPin pin)
  else if code = RecvCode.readPin then
    let pin ← commsRecvU8
    pure (.readPin pin)
  else if code = RecvCode.run then
    let start ← recvRun l gpio
    pure (.run start)
  else if code = RecvCode.pwmInit then
    let pin ← commsRecvU8
    pure (.initPin .afPP pin)
  else if code = RecvCode.pwmDuty then
    let pin ← commsRecvU8
    let duty ← commsRecvU8
    pure (.pwmDuty pin duty)
  else if code = RecvCode.adcInit then
    let pin ← commsRecvU8
    pure (.initPin .ain pin)
  else if code = RecvCode.adcRead then
    let pin ← commsRecvU8
    pure (.adcRead pin)
  else if code = RecvCode.adcTkeyRead then
    let pin ← commsRecvU8
    pure (.adcTkeyRead pin)
  else if code = RecvCode.i2cInit then
    let sda ← commsRecvU8
    let scl ← commsRecvU8
    pure (.i2cInit sda scl)
  else if code = RecvCode.i2cScan then
    let sda ← commsRecvU8
    let scl ← commsRecvU8
    let delay ← commsRecvU32
    pure (.i2cScan sda scl delay)
  else if code = RecvCode.i2cWrite then
    let sda ← commsRecvU8
    let scl ← commsRecvU8
    let address ← commsRecvU8
    let writeDataLen ← commsRecvU32
    let writeBuffer ← recvBytes writeDataLen
    let stop ← commsRecvU8
    let delay ← commsRecvU32
    pure (.i2cWrite sda scl (address <<< 1) writeBuffer stop delay)
  else if code = RecvCode.i2cRead then
    let sda ← commsRecvU8
    let scl ← commsRecvU8
    let address ← commsRecvU8
    let bytesToRead ← commsRecvU32
    let stop ← commsRecvU8
    let delay ← commsRecvU32
    pure (.i2cRead sda scl (address <<< 1) bytesToRead stop delay)
  else if code = RecvCode.i2cWriteRead then
    let sda ← commsRecvU8
    let scl ← commsRecvU8
    let address ← commsRecvU8
    let writeDataLen ← commsRecvU32
    let writeBuffer ← recvBytes writeDataLen
    let bytesToRead ← commsRecvU32
    let stop ← commsRecvU8
    let delay ← commsRecvU32
    pure (.i2cWriteRead sda scl (address <<< 1) writeBuffer bytesToRead stop delay)
  else if code = RecvCode.pulseioInResume then
    let pin ← commsRecvU8
    let triggerDuration ← commsRecvU32
    pure (.pulseioInResume pin triggerDuration.toUInt16)
  else if code = RecvCode.pulseioInClear then
    pure .pulseioInClear
  else if code = RecvCode.pulseioInStop then
    let pin ← commsRecvU8
    pure (.pulseioInStop pin)
  else if code = RecvCode.pulseioInRead then
    let pulseCount ← commsRecvU32
    pure (.pulseioInRead pulseCount)
  else if code = RecvCode.pulseioOutSend then
    let pin ← commsRecvU8
    let duty ← commsRecvU32
    let pulseCount ← commsRecvU32
    let pulses ← recvPulses pulseCount.toNat
    pure (.pulseioOutSend pin duty pulses)
  else if code = RecvCode.neopixelWrite then
    let pin ← commsRecvU8
    let colorCount ← commsRecvU32
    let colors ← recvBytes colorCount
    pure (.neopixelWrite pin colors)
  else if code = RecvCode.internalWs2812b then
    let b0 ← commsRecvU8
    let b1 ← commsRecvU8
    let b2 ← commsRecvU8
    pure (.internalWs2812b b0 b1 b2)
  else if code = RecvCode.owReset then
    let pin ← commsRecvU8
    pure (.owReset pin)
  else if code = RecvCode.owWrite0 then
    let pin ← commsRecvU8
    pure (.owWrite0 pin)
  else if code = RecvCode.owWrite1 then
    let pin ← commsRecvU8
    pure (.owWrite1 pin)
  else if code = RecvCode.owRead then
    let pin ← commsRecvU8
    pure (.owRead pin)
  else if code = RecvCode.spiInit then
    let clock ← commsRecvU8
    let mosi ← commsRecvU8
    let miso ← commsRecvU8
    pure (.spiInit clock mosi miso)
  else if code = RecvCode.spiRead then
    let clock ← commsRecvU8
    let mosi ← commsRecvU8
    let miso ← commsRecvU8
    let mode ← commsRecvU8
    let writeValue ← commsRecvU8
    let delay ← commsRecvU32
    let len ← commsRecvU32
    pure (.spiRead clock mosi miso mode writeValue delay len)
  else if code = RecvCode.spiWrite then
    let clock ← commsRecvU8
    let mosi ← commsRecvU8
    let miso ← commsRecvU8
    let mode ← commsRecvU8
    let delay ← commsRecvU32
    let len ← commsRecvU32
    let writeBuff ← recvBytes len
    pure (.spiWrite clock mosi miso mode delay writeBuff)
  else if code = RecvCode.spiWriteRead then
    let clock ← commsRecvU8
    let mosi ← commsRecvU8
    let miso ← commsRecvU8
    let mode ← commsRecvU8
    let delay ← commsRecvU32
    let len ← commsRecvU32
    let writeBuff ← recvBytes len
    pure (.spiWriteRead clock mosi miso mode delay writeBuff)
  else if code = RecvCode.flashfsRemove then
    let path ← recvChars
    pure (.flashfsRemove path)
  else if code = RecvCode.flashfsMove then
    let fromPath ← recvChars
    let toPath ← recvChars
    pure (.flashfsMove fromPath toPath)
  else if code = RecvCode.flashfsFileInfo then
    pure .flashfsFileInfo
  else if code = RecvCode.flashfsFileOpen then
    let path ← recvChars
    let flags ← commsRecvU32
    pure (.flashfsFileOpen path flags)
  else if code = RecvCode.flashfsFileClose then
    let fh ← commsRecvU32
    pure (.flashfsFileClose fh)
  else if code = RecvCode.flashfsFileRead then
    let fh ← commsRecvU32
    let len ← commsRecvU32
    pure (.flashfsFileRead fh len)
  else if code = RecvCode.flashfsFileWrite then
    let fh ← commsRecvU32
    let len ← commsRecvU32
    let writeBuffer ← recvBytes len
    pure (.flashfsFileWrite fh writeBuffer)
  else if code = RecvCode.flashfsFileSeek then
    let fh ← commsRecvU32
    let offset ← commsRecvU32
    let whence ← commsRecvU32
    pure (.flashfsFileSeek fh offset whence)
  else if code = RecvCode.flashfsFileTruncate then
    let fh ← commsRecvU32
    let size ← commsRecvU32
    pure (.flashfsFileTruncate fh size)
  else if code = RecvCode.flashfsMkdir then
    let path ← recvChars
    pure (.flashfsMkdir path)
  else if code = RecvCode.flashfsDirOpen then
    let path ← recvChars
    pure (.flashfsDirOpen path)
  else if code = RecvCode.flashfsDirClose then
    let dh ← commsRecvU32
    pure (.flashfsDirClose dh)
  else if code = RecvCode.flashfsDirRead then
    let dh ← commsRecvU32
    pure (.flashfsDirRead dh)
  else
    pure (.ignored code)

/-- The receiving half of `get_packet`. -/
def getPacket (l : Leftovers) (gpio : Gpio) : Recv Request := do
  let code ← commsRecvU8
  recvFieldsOf l gpio code

end Not232
