import Not232.PortA

/-!
# The bit-banged SPI master

The masks of the pins are 16 bits wide, so a pin of port B has an empty mask.
-/

namespace Not232

/-- The pins of a transfer and what the port reads. -/
structure SpiBus where
  sckPin : UInt8
  mosiPin : UInt8
  misoPin : UInt8
  indr : Indr

/-- The C expression `(uint16_t)(1u << pin)`. -/
def pinMask16 (pin : UInt8) : UInt16 := (pinMask pin).toUInt16

def gpioWriteFast (mask : UInt16) (level : UInt8) (s : PortA) : PortA :=
  if level ≠ 0 then s.writeBshr mask.toUInt32 else s.writeBcr mask.toUInt32

def gpioReadFast (indr : Indr) (mask : UInt16) (s : PortA) : UInt8 :=
  if indr s.trace &&& mask.toUInt32 ≠ 0 then 1 else 0

/-- The bits still to send, the bits received so far and the port. -/
structure SpiByte where
  out : UInt8
  inp : UInt8
  port : PortA

namespace SpiBus

variable (e : SpiBus)

def driveSck (level : UInt8) (edgeDelayNops : UInt32) (s : PortA) : PortA :=
  (gpioWriteFast (pinMask16 e.sckPin) level s).delay edgeDelayNops.toNat

def driveMosi (out : UInt8) (s : PortA) : PortA :=
  gpioWriteFast (pinMask16 e.mosiPin) (if out &&& 0x80 ≠ 0 then 1 else 0) s

/-- One turn of the loop for CPHA = 0. -/
def turnLeading (active idle : UInt8) (edgeDelayNops : UInt32) (r : SpiByte) : SpiByte :=
  let s := e.driveMosi r.out r.port
  let s := e.driveSck active edgeDelayNops s
  let inp := (r.inp <<< 1) ||| gpioReadFast e.indr (pinMask16 e.misoPin) s
  ⟨r.out <<< 1, inp, e.driveSck idle edgeDelayNops s⟩

/-- One turn of the loop for CPHA = 1. -/
def turnTrailing (active idle : UInt8) (edgeDelayNops : UInt32) (r : SpiByte) : SpiByte :=
  let s := e.driveSck active edgeDelayNops r.port
  let s := e.driveMosi r.out s
  let s := e.driveSck idle edgeDelayNops s
  ⟨r.out <<< 1, (r.inp <<< 1) ||| gpioReadFast e.indr (pinMask16 e.misoPin) s, s⟩

def spiXferByteBbCh32 (out mode : UInt8) (edgeDelayNops : UInt32) (s : PortA) : UInt8 × PortA :=
  let cpha := mode &&& 1
  let cpol := mode >>> 1
  let idle : UInt8 := if cpol ≠ 0 then 1 else 0
  let active := idle ^^^ 1
  let s := e.driveSck idle edgeDelayNops s
  let r : SpiByte :=
    if cpha = 0 then (e.turnLeading active idle edgeDelayNops)^[8] ⟨out, 0, s⟩
    else (e.turnTrailing active idle edgeDelayNops)^[8] ⟨out, 0, s⟩
  (r.inp, r.port)

/-- The loop of the transfers: one byte in for each byte out. -/
def xferBytes (mode : UInt8) (delay : UInt32) : (out : List UInt8) → PortA → List UInt8 × PortA
  | [], s => ([], s)
  | byte :: rest, s =>
    let (b, s) := e.spiXferByteBbCh32 byte mode delay s
    let (inp, s) := xferBytes mode delay rest s
    (b :: inp, s)

def spiRead (mode writeValue : UInt8) (delay : UInt32) (len : ℕ) (s : PortA) :
    List UInt8 × PortA :=
  e.xferBytes mode delay (List.replicate len writeValue) s

def spiWrite (mode : UInt8) (delay : UInt32) (buffer : List UInt8) (s : PortA) : PortA :=
  (e.xferBytes mode delay buffer s).2

def spiWriteRead (mode : UInt8) (delay : UInt32) (outBuffer : List UInt8) (s : PortA) :
    List UInt8 × PortA :=
  e.xferBytes mode delay outBuffer s

end SpiBus
end Not232
