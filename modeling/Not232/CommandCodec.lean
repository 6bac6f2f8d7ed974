import Not232.Commands
import Not232.RunIsolation

/-!
# The language of commands

A command as a host writes it: its code, then its operands, where an array is preceded by its
length. Every command is decoded to the request that it stands for, and decoding stops exactly
where the command ends.
-/

namespace Not232

/-- An array whose length fits its length field. -/
abbrev Payload (α : Type) := {items : List α // items.length < UInt32.size}

/-- The modes that have a code. -/
inductive PinSetting
  | outPP
  | outOD
  | inFloating
  | inPU
  | inPD
  | pwm
  | adc

namespace PinSetting

def code : PinSetting → UInt8
  | outPP => RecvCode.outPP
  | outOD => RecvCode.outOD
  | inFloating => RecvCode.inFloating
  | inPU => RecvCode.inPU
  | inPD => RecvCode.inPD
  | pwm => RecvCode.pwmInit
  | adc => RecvCode.adcInit

def mode : PinSetting → GpioMode
  | outPP => .outPP
  | outOD => .outOD
  | inFloating => .inFloating
  | inPU => .ipu
  | inPD => .ipd
  | pwm => .afPP
  | adc => .ain

end PinSetting

inductive Command
  | ping
  | identify
  | initPin (setting : PinSetting) (pin : UInt8)
  | setPin (pin : UInt8)
  | clearPin (pin : UInt8)
  | readPin (pin : UInt8)
  | run (q : RunRequest)
  | pwmDuty (pin duty : UInt8)
  | adcRead (pin : UInt8)
  | adcTkeyRead (pin : UInt8)
  | i2cInit (sda scl : UInt8)
  | i2cScan (sda scl : UInt8) (delay : UInt32)
  | i2cWrite (sda scl address : UInt8) (writeBuffer : Payload UInt8) (stop : UInt8) (delay : UInt32)
  | i2cRead (sda scl address : UInt8) (bytesToRead : UInt32) (stop : UInt8) (delay : UInt32)
  | i2cWriteRead (sda scl address : UInt8) (writeBuffer : Payload UInt8) (bytesToRead : UInt32)
      (stop : UInt8) (delay : UInt32)
  | pulseioInResume (pin : UInt8) (triggerDuration : UInt32)
  | pulseioInClear
  | pulseioInStop (pin : UInt8)
  | pulseioInRead (pulseCount : UInt32)
  | pulseioOutSend (pin : UInt8) (duty : UInt32) (pulses : Payload UInt32)
  | neopixelWrite (pin : UInt8) (colors : Payload UInt8)
  | internalWs2812b (b0 b1 b2 : UInt8)
  | owReset (pin : UInt8)
  | owWrite0 (pin : UInt8)
  | owWrite1 (pin : UInt8)
  | owRead (pin : UInt8)
  | spiInit (clock mosi miso : UInt8)
  | spiRead (clock mosi miso mode writeValue : UInt8) (delay len : UInt32)
  | spiWrite (clock mosi miso mode : UInt8) (delay : UInt32) (writeBuff : Payload UInt8)
  | spiWriteRead (clock mosi miso mode : UInt8) (delay : UInt32) (writeBuff : Payload UInt8)
  | flashfsRemove (path : Payload UInt8)
  | flashfsMove (fromPath toPath : Payload UInt8)
  | flashfsFileInfo
  | flashfsFileOpen (path : Payload UInt8) (flags : UInt32)
  | flashfsFileClose (fh : UInt32)
  | flashfsFileRead (fh len : UInt32)
  | flashfsFileWrite (fh : UInt32) (writeBuffer : Payload UInt8)
  | flashfsFileSeek (fh offset whence : UInt32)
  | flashfsFileTruncate (fh size : UInt32)
  | flashfsMkdir (path : Payload UInt8)
  | flashfsDirOpen (path : Payload UInt8)
  | flashfsDirClose (dh : UInt32)
  | flashfsDirRead (dh : UInt32)

/-! ### Operands -/

def wordBytes (word : UInt32) : List UInt8 := (leBytes word).toList

def Payload.size {α : Type} (p : Payload α) : UInt32 := .ofNat p.1.length

def Payload.bytes (p : Payload UInt8) : List UInt8 := wordBytes p.size ++ p.1

theorem Payload.toNat_size {α : Type} (p : Payload α) : p.size.toNat = p.1.length :=
  UInt32.toNat_ofNat_of_lt' p.2

theorem onStream_bind_eq {α β : Type} {p : Recv α} {stream rest : List UInt8} {a : α}
    (h : p.onStream stream = some (a, rest)) (g : α → Recv β) :
    (p >>= g).onStream stream = (g a).onStream rest := by
  rw [Recv.onStream_bind, h, Option.bind_some]

variable {α : Type} (more : List UInt8)

@[simp] theorem onStream_recvU8_bind (byte : UInt8) (g : UInt8 → Recv α) :
    (commsRecvU8 >>= g).onStream (byte :: more) = (g byte).onStream more := by
  have hbyte : (commsRecvBuffer 1).onStream (byte :: more) = some (#v[byte], more) :=
    onStream_commsRecvBuffer #v[byte] more
  apply onStream_bind_eq
  rw [commsRecvU8, onStream_bind_eq hbyte]
  rfl

@[simp] theorem onStream_recvU32_bind (word : UInt32) (g : UInt32 → Recv α) :
    (commsRecvU32 >>= g).onStream (wordBytes word ++ more) = (g word).onStream more :=
  onStream_bind_eq (onStream_commsRecvU32 word more) g

theorem exists_vector {bytes : List UInt8} {size : ℕ} (h : bytes.length = size) :
    ∃ v : Vector UInt8 size, v.toList = bytes :=
  ⟨⟨bytes.toArray, h⟩, by simp [Vector.toList]⟩

@[simp] theorem onStream_recvBytes_bind (p : Payload UInt8) (g : List UInt8 → Recv α) :
    (recvBytes p.size >>= g).onStream (p.1 ++ more) = (g p.1).onStream more := by
  rcases exists_vector p.toNat_size.symm with ⟨v, hv⟩
  have hrecv := onStream_commsRecvBuffer v more
  rw [hv] at hrecv
  apply onStream_bind_eq
  rw [recvBytes, onStream_bind_eq hrecv, Recv.onStream_pure, hv]

@[simp] theorem onStream_recvChars_bind (p : Payload UInt8) (g : List UInt8 → Recv α) :
    (recvChars >>= g).onStream (p.bytes ++ more) = (g p.1).onStream more := by
  rcases exists_vector p.toNat_size.symm with ⟨v, hv⟩
  have hrecv := onStream_commsRecvBuffer v more
  rw [hv] at hrecv
  have harray : commsRecvArray.onStream (p.bytes ++ more) = some (⟨p.size, v⟩, more) := by
    rw [commsRecvArray, Payload.bytes, List.append_assoc, onStream_recvU32_bind,
      onStream_bind_eq hrecv, Recv.onStream_pure]
  apply onStream_bind_eq
  rw [recvChars, onStream_bind_eq harray, Recv.onStream_pure, hv]

theorem onStream_recvPulses_flatMap (pulses : List UInt32) :
    (recvPulses pulses.length).onStream (pulses.flatMap wordBytes ++ more) =
      some (pulses, more) := by
  induction pulses with
  | nil => rfl
  | cons pulse pulses ih =>
    rw [List.length_cons, recvPulses, List.flatMap_cons, List.append_assoc, onStream_recvU32_bind,
      onStream_bind_eq ih, Recv.onStream_pure]

@[simp] theorem onStream_recvPulses_bind (p : Payload UInt32) (g : List UInt32 → Recv α) :
    (recvPulses p.size.toNat >>= g).onStream (p.1.flatMap wordBytes ++ more) =
      (g p.1).onStream more := by
  apply onStream_bind_eq
  rw [p.toNat_size]
  exact onStream_recvPulses_flatMap more p.1

/-! ### Commands -/

namespace RunRequest

/-- The bytes behind the code. -/
def bytes (q : RunRequest) : List UInt8 :=
  requestBytes q.programSize q.program
    (readsRegisters (loadProgram q.program.toList fun _ => 0) q.programSize.toNat)
    (readsPile (loadProgram q.program.toList fun _ => 0) q.programSize.toNat) q.blocks

theorem onStream_bytes (q : RunRequest) (l : Leftovers) (gpio : Gpio) (more : List UInt8) :
    (recvRun l gpio).onStream (q.bytes ++ more) = some (q.start l gpio, more) := by
  have hregisters : readsRegisters (loadProgram q.program.toList fun _ => 0) q.programSize.toNat =
      readsRegisters (loadProgram q.program.toList l.megaBuffer) q.programSize.toNat :=
    scan_loadProgram (by decide) _ q.program _ _
  have hpile : readsPile (loadProgram q.program.toList fun _ => 0) q.programSize.toNat =
      readsPile (loadProgram q.program.toList l.megaBuffer) q.programSize.toNat :=
    scan_loadProgram (by decide) _ q.program _ _
  rw [bytes, hregisters, hpile]
  exact recvRun_onStream l gpio q.programSize q.program q.blocks more

end RunRequest

namespace Command

def code : Command → UInt8
  | ping => RecvCode.ping
  | identify => RecvCode.identify
  | initPin setting _ => setting.code
  | setPin _ => RecvCode.setPin
  | clearPin _ => RecvCode.clearPin
  | readPin _ => RecvCode.readPin
  | run _ => RecvCode.run
  | pwmDuty _ _ => RecvCode.pwmDuty
  | adcRead _ => RecvCode.adcRead
  | adcTkeyRead _ => RecvCode.adcTkeyRead
  | i2cInit _ _ => RecvCode.i2cInit
  | i2cScan _ _ _ => RecvCode.i2cScan
  | i2cWrite _ _ _ _ _ _ => RecvCode.i2cWrite
  | i2cRead _ _ _ _ _ _ => RecvCode.i2cRead
  | i2cWriteRead _ _ _ _ _ _ _ => RecvCode.i2cWriteRead
  | pulseioInResume _ _ => RecvCode.pulseioInResume
  | pulseioInClear => RecvCode.pulseioInClear
  | pulseioInStop _ => RecvCode.pulseioInStop
  | pulseioInRead _ => RecvCode.pulseioInRead
  | pulseioOutSend _ _ _ => RecvCode.pulseioOutSend
  | neopixelWrite _ _ => RecvCode.neopixelWrite
  | internalWs2812b _ _ _ => RecvCode.internalWs2812b
  | owReset _ => RecvCode.owReset
  | owWrite0 _ => RecvCode.owWrite0
  | owWrite1 _ => RecvCode.owWrite1
  | owRead _ => RecvCode.owRead
  | spiInit _ _ _ => RecvCode.spiInit
  | spiRead _ _ _ _ _ _ _ => RecvCode.spiRead
  | spiWrite _ _ _ _ _ _ => RecvCode.spiWrite
  | spiWriteRead _ _ _ _ _ _ => RecvCode.spiWriteRead
  | flashfsRemove _ => RecvCode.flashfsRemove
  | flashfsMove _ _ => RecvCode.flashfsMove
  | flashfsFileInfo => RecvCode.flashfsFileInfo
  | flashfsFileOpen _ _ => RecvCode.flashfsFileOpen
  | flashfsFileClose _ => RecvCode.flashfsFileClose
  | flashfsFileRead _ _ => RecvCode.flashfsFileRead
  | flashfsFileWrite _ _ => RecvCode.flashfsFileWrite
  | flashfsFileSeek _ _ _ => RecvCode.flashfsFileSeek
  | flashfsFileTruncate _ _ => RecvCode.flashfsFileTruncate
  | flashfsMkdir _ => RecvCode.flashfsMkdir
  | flashfsDirOpen _ => RecvCode.flashfsDirOpen
  | flashfsDirClose _ => RecvCode.flashfsDirClose
  | flashfsDirRead _ => RecvCode.flashfsDirRead

def operands : Command → List UInt8
  | ping | identify | pulseioInClear | flashfsFileInfo => []
  | initPin _ pin | setPin pin | clearPin pin | readPin pin | adcRead pin | adcTkeyRead pin
  | pulseioInStop pin | owReset pin | owWrite0 pin | owWrite1 pin | owRead pin => [pin]
  | run q => q.bytes
  | pwmDuty pin duty => [pin, duty]
  | i2cInit sda scl => [sda, scl]
  | i2cScan sda scl delay => sda :: scl :: wordBytes delay
  | i2cWrite sda scl address writeBuffer stop delay =>
    sda :: scl :: address :: (writeBuffer.bytes ++ stop :: wordBytes delay)
  | i2cRead sda scl address bytesToRead stop delay =>
    sda :: scl :: address :: (wordBytes bytesToRead ++ stop :: wordBytes delay)
  | i2cWriteRead sda scl address writeBuffer bytesToRead stop delay =>
    sda :: scl :: address ::
      (writeBuffer.bytes ++ (wordBytes bytesToRead ++ stop :: wordBytes delay))
  | pulseioInResume pin triggerDuration => pin :: wordBytes triggerDuration
  | pulseioInRead pulseCount => wordBytes pulseCount
  | pulseioOutSend pin duty pulses =>
    pin :: (wordBytes duty ++ (wordBytes pulses.size ++ pulses.1.flatMap wordBytes))
  | neopixelWrite pin colors => pin :: colors.bytes
  | internalWs2812b b0 b1 b2 => [b0, b1, b2]
  | spiInit clock mosi miso => [clock, mosi, miso]
  | spiRead clock mosi miso mode writeValue delay len =>
    clock :: mosi :: miso :: mode :: writeValue :: (wordBytes delay ++ wordBytes len)
  | spiWrite clock mosi miso mode delay writeBuff
  | spiWriteRead clock mosi miso mode delay writeBuff =>
    clock :: mosi :: miso :: mode :: (wordBytes delay ++ writeBuff.bytes)
  | flashfsRemove path | flashfsMkdir path | flashfsDirOpen path => path.bytes
  | flashfsMove fromPath toPath => fromPath.bytes ++ toPath.bytes
  | flashfsFileOpen path flags => path.bytes ++ wordBytes flags
  | flashfsFileClose fh | flashfsDirClose fh | flashfsDirRead fh => wordBytes fh
  | flashfsFileRead fh len | flashfsFileTruncate fh len => wordBytes fh ++ wordBytes len
  | flashfsFileWrite fh writeBuffer => wordBytes fh ++ writeBuffer.bytes
  | flashfsFileSeek fh offset whence => wordBytes fh ++ (wordBytes offset ++ wordBytes whence)

def encode (c : Command) : List UInt8 := c.code :: c.operands

/-- What a command asks of a device with these leftovers and pins. -/
def request (l : Leftovers) (gpio : Gpio) : Command → Request
  | ping => .ping
  | identify => .identify
  | initPin setting pin => .initPin setting.mode pin
  | setPin pin => .setPin pin
  | clearPin pin => .clearPin pin
  | readPin pin => .readPin pin
  | run q => .run (q.start l gpio)
  | pwmDuty pin duty => .pwmDuty pin duty
  | adcRead pin => .adcRead pin
  | adcTkeyRead pin => .adcTkeyRead pin
  | i2cInit sda scl => .i2cInit sda scl
  | i2cScan sda scl delay => .i2cScan sda scl delay
  | i2cWrite sda scl address writeBuffer stop delay =>
    .i2cWrite sda scl (address <<< 1) writeBuffer.1 stop delay
  | i2cRead sda scl address bytesToRead stop delay =>
    .i2cRead sda scl (address <<< 1) bytesToRead stop delay
  | i2cWriteRead sda scl address writeBuffer bytesToRead stop delay =>
    .i2cWriteRead sda scl (address <<< 1) writeBuffer.1 bytesToRead stop delay
  | pulseioInResume pin triggerDuration => .pulseioInResume pin triggerDuration.toUInt16
  | pulseioInClear => .pulseioInClear
  | pulseioInStop pin => .pulseioInStop pin
  | pulseioInRead pulseCount => .pulseioInRead pulseCount
  | pulseioOutSend pin duty pulses => .pulseioOutSend pin duty pulses.1
  | neopixelWrite pin colors => .neopixelWrite pin colors.1
  | internalWs2812b b0 b1 b2 => .internalWs2812b b0 b1 b2
  | owReset pin => .owReset pin
  | owWrite0 pin => .owWrite0 pin
  | owWrite1 pin => .owWrite1 pin
  | owRead pin => .owRead pin
  | spiInit clock mosi miso => .spiInit clock mosi miso
  | spiRead clock mosi miso mode writeValue delay len =>
    .spiRead clock mosi miso mode writeValue delay len
  | spiWrite clock mosi miso mode delay writeBuff =>
    .spiWrite clock mosi miso mode delay writeBuff.1
  | spiWriteRead clock mosi miso mode delay writeBuff =>
    .spiWriteRead clock mosi miso mode delay writeBuff.1
  | flashfsRemove path => .flashfsRemove path.1
  | flashfsMove fromPath toPath => .flashfsMove fromPath.1 toPath.1
  | flashfsFileInfo => .flashfsFileInfo
  | flashfsFileOpen path flags => .flashfsFileOpen path.1 flags
  | flashfsFileClose fh => .flashfsFileClose fh
  | flashfsFileRead fh len => .flashfsFileRead fh len
  | flashfsFileWrite fh writeBuffer => .flashfsFileWrite fh writeBuffer.1
  | flashfsFileSeek fh offset whence => .flashfsFileSeek fh offset whence
  | flashfsFileTruncate fh size => .flashfsFileTruncate fh size
  | flashfsMkdir path => .flashfsMkdir path.1
  | flashfsDirOpen path => .flashfsDirOpen path.1
  | flashfsDirClose dh => .flashfsDirClose dh
  | flashfsDirRead dh => .flashfsDirRead dh

theorem onStream_recvFieldsOf (l : Leftovers) (gpio : Gpio) (c : Command) (more : List UInt8) :
    (recvFieldsOf l gpio c.code).onStream (c.operands ++ more) = some (c.request l gpio, more) := by
  cases c with
  | ping | identify | pulseioInClear | flashfsFileInfo => rfl
  | initPin setting pin =>
    cases setting with
    | outPP | outOD | inFloating | inPU | inPD | pwm | adc =>
      show Recv.onStream (commsRecvU8 >>= _) _ = _
      simp [operands, request, PinSetting.mode]
  | run q =>
    show Recv.onStream (recvRun l gpio >>= _) _ = _
    exact onStream_bind_eq (q.onStream_bytes l gpio more) _
  | pulseioInRead | flashfsFileClose | flashfsFileRead | flashfsFileWrite | flashfsFileSeek
  | flashfsFileTruncate | flashfsDirClose | flashfsDirRead =>
    show Recv.onStream (commsRecvU32 >>= _) _ = _
    simp [operands, request, Payload.bytes]
  | flashfsRemove | flashfsMove | flashfsFileOpen | flashfsMkdir | flashfsDirOpen =>
    show Recv.onStream (recvChars >>= _) _ = _
    simp [operands, request]
  | _ =>
    show Recv.onStream (commsRecvU8 >>= _) _ = _
    simp [operands, request, Payload.bytes]

end Command

theorem onStream_getPacket (l : Leftovers) (gpio : Gpio) (c : Command) (more : List UInt8) :
    (getPacket l gpio).onStream (c.encode ++ more) = some (c.request l gpio, more) := by
  rw [getPacket, Command.encode, List.cons_append, onStream_recvU8_bind, c.onStream_recvFieldsOf]

end Not232
