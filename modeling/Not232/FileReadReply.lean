import Not232.FieldCodec

/-!
# The reply to a file read

littlefs copies what it reads into the shared buffer, and the handler sends as many bytes of the
buffer as the host asked for. What littlefs left alone was put there by an earlier command.
-/

namespace Not232

/-- An open file: its content and the position of the next read. -/
structure OpenFile where
  content : List UInt8
  pos : ℕ

/-- An error of littlefs, by the bytes that it has copied before, and its negative code. -/
structure LfsFault where
  copied : ℕ
  code : Int32
  negative : code < 0

/-- The bytes that littlefs copies. -/
def lfsFileRead (file : OpenFile) (fault : Option LfsFault) (size : ℕ) : Int32 × List UInt8 :=
  let data := (file.content.drop file.pos).take size
  match fault with
  | none => (.ofNat data.length, data)
  | some fault => (fault.code, data.take fault.copied)

/-- The return code and the buffer, which is the memory from its address on. -/
def flashfsFileRead (file : OpenFile) (fault : Option LfsFault) (buffer : ℕ → UInt8)
    (size : UInt32) : UInt32 × (ℕ → UInt8) :=
  let read := lfsFileRead file fault size.toNat
  (read.1.toUInt32, fun i => read.2[i]?.getD (buffer i))

section Reply

variable {file : OpenFile} {fault : Option LfsFault} {len : UInt32}

end Reply

end Not232
