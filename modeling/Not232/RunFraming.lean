import Not232.RunRequest

/-!
# The frame of a RUN request

The scans that decide what the handler receives go through a program in steps of three, although its
records are four bytes apart, and one of them looks for two opcodes that do not read registers in
place of two that do. They agree with the records exactly when every misread is made up for.
-/

namespace Not232

open Opcode

def blankLeftovers : Leftovers :=
  ⟨fun _ => 0, .replicate _ 0, .replicate _ 0, .replicate _ 0, .replicate _ 0⟩

def blankGpio : Gpio := ⟨⟨0, 0, 0⟩, ⟨0, 0, 0⟩, []⟩

end Not232
