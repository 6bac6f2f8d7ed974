import Not232.Execute
import Not232.Protocol

/-!
# The RUN command

The handler receives a program into the shared buffer, decides by scanning it which arrays it clears
and which it receives, runs it and reports the arrays that a scan says it has written. What earlier
commands have left in the shared buffer and on the stack is a parameter.
-/

namespace Not232

def sendMachineState : UInt32 := 2

/-- The contents of memory that the handler does not initialise. -/
structure Leftovers where
  megaBuffer : ℕ → UInt8
  registers : Vector UInt8 registerCount
  pileT : Vector UInt8 pileSize
  pileR : Vector UInt8 pileSize
  stack : Vector UInt32 stackSize

/-- The shared buffer once a program has been received into it. -/
def loadProgram (program : List UInt8) (megaBuffer : ℕ → UInt8) (i : ℕ) : UInt8 :=
  program[i]?.getD (megaBuffer i)

/-- A machine that is ready to run, and the program size. -/
structure RunStart where
  opcodes : ℕ → UInt8
  programSize : ℕ
  state : VmState

/-- The arrays after the handler has cleared and received them. -/
def initialState (l : Leftovers) (gpio : Gpio) (opcodes : ℕ → UInt8) (programSize : ℕ)
    (registers : Vector UInt8 registerCount) (tp : UInt32) (pileT : Vector UInt8 pileSize) :
    VmState where
  pc := 0
  sp := 0
  stack := l.stack
  registers := registers
  pileT := pileT
  pileR := if writesPile opcodes programSize then .replicate pileSize 0 else l.pileR
  tp := tp
  rp := 0
  timer := none
  phase := .fetch
  gpio := gpio

/-- The receiving half of the case `RECV_RUN` of `get_packet`. -/
def recvRun (l : Leftovers) (gpio : Gpio) : Recv RunStart := do
  let programSize ← commsRecvU32
  let program ← commsRecvBuffer programSize.toNat
  let opcodes := loadProgram program.toList l.megaBuffer
  let registers := if writesRegisters opcodes programSize.toNat then .replicate registerCount 0
    else l.registers
  let registers ← (if readsRegisters opcodes programSize.toNat then commsRecvBuffer registerCount
    else pure registers : Recv (Vector UInt8 registerCount))
  let pile ← (if readsPile opcodes programSize.toNat then do
      let tp ← commsRecvU32
      let pileT ← commsRecvBuffer pileSize
      pure (tp, pileT)
    else pure (0, l.pileT) : Recv (UInt32 × Vector UInt8 pileSize))
  pure ⟨opcodes, programSize.toNat,
    initialState l gpio opcodes programSize.toNat registers pile.1 pile.2⟩

/-- The blocks that a request carries behind its program. -/
structure RunBlocks where
  registers : Vector UInt8 registerCount
  tp : UInt32
  pileT : Vector UInt8 pileSize

/-- The bytes of a request, with the register block and the pile block present or not. -/
def requestBytes (programSize : UInt32) (program : Vector UInt8 programSize.toNat)
    (hasRegisters hasPile : Bool) (blocks : RunBlocks) : List UInt8 :=
  (leBytes programSize).toList ++ program.toList ++
    (if hasRegisters then blocks.registers.toList else []) ++
    if hasPile then (leBytes blocks.tp).toList ++ blocks.pileT.toList else []

/-- The machine that a request starts. -/
def startOf (l : Leftovers) (gpio : Gpio) (opcodes : ℕ → UInt8) (programSize : ℕ)
    (blocks : RunBlocks) : RunStart where
  opcodes := opcodes
  programSize := programSize
  state := initialState l gpio opcodes programSize
    (if readsRegisters opcodes programSize then blocks.registers
      else if writesRegisters opcodes programSize then .replicate registerCount 0 else l.registers)
    (if readsPile opcodes programSize then blocks.tp else 0)
    (if readsPile opcodes programSize then blocks.pileT else l.pileT)

/-- The handler consumes the blocks that its scans ask for. -/
theorem recvRun_onStream (l : Leftovers) (gpio : Gpio) (programSize : UInt32)
    (program : Vector UInt8 programSize.toNat) (blocks : RunBlocks) (rest : List UInt8) :
    let opcodes := loadProgram program.toList l.megaBuffer
    (recvRun l gpio).onStream (requestBytes programSize program
        (readsRegisters opcodes programSize.toNat) (readsPile opcodes programSize.toNat) blocks ++
        rest) =
      some (startOf l gpio opcodes programSize.toNat blocks, rest) := by
  intro opcodes
  simp only [recvRun, requestBytes, startOf, List.append_assoc, Recv.onStream_bind,
    onStream_commsRecvU32, Option.bind_some, onStream_commsRecvBuffer]
  cases readsRegisters opcodes programSize.toNat with
  | true =>
    cases readsPile opcodes programSize.toNat with
    | true => simp [Recv.onStream_bind, opcodes]
    | false => simp [opcodes]
  | false =>
    cases readsPile opcodes programSize.toNat with
    | true => simp [Recv.onStream_bind, opcodes]
    | false => simp [opcodes]

/-- The bytes sent when the machine has stopped in state `s`. -/
def runResponse (opcodes : ℕ → UInt8) (programSize : ℕ) (s : VmState) : List UInt8 :=
  let responseLen := if writesRegisters opcodes programSize then registerCount else 0
  let responseLen := if writesPile opcodes programSize then responseLen + pileSize + 4
    else responseLen
  (leBytes (.ofNat responseLen)).toList ++ (leBytes sendMachineState).toList ++
    (if writesRegisters opcodes programSize then s.registers.toList else []) ++
    if writesPile opcodes programSize then (leBytes s.rp).toList ++ s.pileR.toList else []

/-- Record `j` of a program. -/
def record (opcodes : ℕ → UInt8) (j : ℕ) : Instr :=
  decode (opcodes (bytesPerInstruction * j)) (opcodes (bytesPerInstruction * j + 2))
    (opcodes (bytesPerInstruction * j + 3))

end Not232
