import Not232.PortA

/-!
# The 1-Wire slots

A slot pulls the wire low, releases it and may read it. A delay of one microsecond is one turn.
-/

namespace Not232

def owDelayA : ℕ := 6
def owDelayB : ℕ := 64
def owDelayC : ℕ := 60
def owDelayD : ℕ := 10
def owDelayE : ℕ := 9
def owDelayF : ℕ := 55
def owDelayG : ℕ := 0
def owDelayH : ℕ := 480
def owDelayI : ℕ := 70
def owDelayJ : ℕ := 410

def oneWireReset (indr : Indr) (pinMask : UInt16) (s : PortA) : Bool × PortA :=
  let s := s.delay owDelayG
  let s := (s.writeBcr pinMask.toUInt32).delay owDelayH
  let s := (s.writeBshr pinMask.toUInt32).delay owDelayI
  let result := indr s.trace &&& pinMask.toUInt32 == 0
  (result, s.delay owDelayJ)

def oneWireWrite0 (pinMask : UInt16) (s : PortA) : PortA :=
  let s := (s.writeBcr pinMask.toUInt32).delay owDelayC
  (s.writeBshr pinMask.toUInt32).delay owDelayD

def oneWireWrite1 (pinMask : UInt16) (s : PortA) : PortA :=
  let s := (s.writeBcr pinMask.toUInt32).delay owDelayA
  (s.writeBshr pinMask.toUInt32).delay owDelayB

def oneWireRead (indr : Indr) (pinMask : UInt16) (s : PortA) : Bool × PortA :=
  let s := (s.writeBcr pinMask.toUInt32).delay owDelayA
  let s := (s.writeBshr pinMask.toUInt32).delay owDelayE
  let result := indr s.trace &&& pinMask.toUInt32 != 0
  (result, s.delay owDelayF)

/-! ### The latch behind a slot -/

section Latch

variable (indr : Indr) (pinMask : UInt16) (s : PortA)

theorem outdr_oneWireReset : (oneWireReset indr pinMask s).2.outdr =
    bshr pinMask.toUInt32 (bcr pinMask.toUInt32 s.outdr) := by
  simp [oneWireReset]

theorem outdr_oneWireWrite0 : (oneWireWrite0 pinMask s).outdr =
    bshr pinMask.toUInt32 (bcr pinMask.toUInt32 s.outdr) := by
  simp [oneWireWrite0]

theorem outdr_oneWireWrite1 : (oneWireWrite1 pinMask s).outdr =
    bshr pinMask.toUInt32 (bcr pinMask.toUInt32 s.outdr) := by
  simp [oneWireWrite1]

theorem outdr_oneWireRead : (oneWireRead indr pinMask s).2.outdr =
    bshr pinMask.toUInt32 (bcr pinMask.toUInt32 s.outdr) := by
  simp [oneWireRead]

end Latch

end Not232
