import Not232.RunFraming

/-!
# The report of a RUN request

What the response carries is decided by scans of the program, not by what the machine has done. The
scan for register writes looks for the opcodes that write ports in place of those that read them,
and the scan for pushes goes through the program in steps of three.
-/

namespace Not232

open Opcode

/-- A response that carries the registers, the receive pile, both or neither. -/
def reportBytes (registers pile : Bool) (s : VmState) : List UInt8 :=
  (leBytes (.ofNat ((if registers then registerCount else 0) + if pile then pileSize + 4 else 0))).toList
    ++ (leBytes sendMachineState).toList ++ (if registers then s.registers.toList else []) ++
    if pile then (leBytes s.rp).toList ++ s.pileR.toList else []

theorem runResponse_eq (opcodes : ℕ → UInt8) (programSize : ℕ) (s : VmState) :
    runResponse opcodes programSize s =
      reportBytes (writesRegisters opcodes programSize) (writesPile opcodes programSize) s := by
  unfold runResponse reportBytes
  cases writesRegisters opcodes programSize <;> cases writesPile opcodes programSize <;> rfl

/-- The machine just started on zeroed arrays. -/
def blankState (opcodes : ℕ → UInt8) (programSize : ℕ) : VmState :=
  (startOf blankLeftovers blankGpio opcodes programSize ⟨.replicate _ 0, 0, .replicate _ 0⟩).state

def lowInputs : ℕ → VmInput := fun _ => ⟨0, false⟩

end Not232
