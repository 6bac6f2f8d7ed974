import Not232.Commands
import Not232.FsHandles
import Not232.VmBounds

/-!
# What keeps the command handlers inside their arrays

The handlers trust the lengths, counts, pins and handles of the host. They share one buffer, which
some of them use in halves, behind which some append a terminator and which one fills with half-words.
A handler stays inside its arrays exactly when the command fits them.
-/

namespace Not232

def megaBufferSize : ℕ := 5 * 1024

def pinCount : ℕ := 20

/-- The arrays that the fields of a command index; the pin mappings have one index. -/
inductive HandlerArray
  | megaBuffer
  | pinMappings
  | fileHandles
  | dirHandles

def HandlerArray.size : HandlerArray → ℕ
  | megaBuffer => megaBufferSize
  | pinMappings => pinCount
  | fileHandles => maxFileHandles
  | dirHandles => maxDirHandles

/-- A byte written into the shared buffer, or an element of another array used. -/
structure Touch where
  array : HandlerArray
  index : ℕ

/-- What a handler finds: the handle tables, how many bytes littlefs has to read, and what the
virtual machine sees. -/
structure HandlerEnv where
  files : HandleTable maxFileHandles
  dirs : HandleTable maxDirHandles
  fileBytes : ℕ
  inputs : ℕ → VmInput

/-- Bytes written into the shared buffer from an index on. -/
def stores (start n : ℕ) : List Touch := (List.range n).map fun i => ⟨.megaBuffer, start + i⟩

/-- The search for a handle, up to the one that is allocated. -/
def scans {n : ℕ} (array : HandlerArray) (t : HandleTable n) : List Touch :=
  (List.range (if t.allocate.1 = -1 then n else t.allocate.1.toNat + 1)).map fun j => ⟨array, j⟩

namespace Request

/-- The condition on a command. -/
def Fits (e : HandlerEnv) : Request → Prop
  | initPin _ pin | setPin pin | clearPin pin | readPin pin | pulseioInResume pin _ => pin < 20
  | run start => start.programSize ≤ 5120 ∧ ∀ n s mode pin,
      Executes start.opcodes e.inputs start.state n s (.initPin mode pin) → pin < 20
  | i2cInit sda scl => sda < 20 ∧ scl < 20
  | i2cWrite _ _ _ writeBuffer _ _ => writeBuffer.length ≤ 5120
  | i2cRead _ _ _ bytesToRead _ _ => bytesToRead.toNat ≤ 5120
  | i2cWriteRead _ _ _ writeBuffer bytesToRead _ _ =>
    writeBuffer.length ≤ 5120 ∧ bytesToRead.toNat ≤ 2560
  | pulseioOutSend _ _ pulses => pulses.length ≤ 2560
  | neopixelWrite _ colors => colors.length ≤ 5120
  | spiInit clock mosi miso => clock < 20 ∧ mosi < 20 ∧ miso < 20
  | spiRead _ _ _ _ _ _ len => len.toNat ≤ 5120
  | spiWrite _ _ _ _ _ writeBuff => writeBuff.length ≤ 5120
  | spiWriteRead _ _ _ _ _ writeBuff => writeBuff.length ≤ 2560
  | flashfsRemove path | flashfsMkdir path | flashfsFileOpen path _ | flashfsDirOpen path =>
    path.length < 5120
  | flashfsMove fromPath toPath => fromPath.length < 2560 ∧ toPath.length < 2560
  | flashfsFileClose fh | flashfsFileSeek fh _ _ | flashfsFileTruncate fh _ => fh < 10
  | flashfsFileRead fh len => fh < 10 ∧ min e.fileBytes len.toNat ≤ 5120
  | flashfsFileWrite fh writeBuffer => writeBuffer.length ≤ 5120 ∧ fh < 10
  | flashfsDirClose dh | flashfsDirRead dh => dh < 10
  | _ => True

end Request

/-! ### Single arrays -/

end Not232
