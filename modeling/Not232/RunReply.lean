import Not232.FieldCodec
import Not232.VmBounds

/-!
# The reply to a RUN request

The handler scans the program when it has received it, again for the length of its reply and again
for each block that it sends. The program stays in the shared buffer while the machine runs from it,
and no instruction that is inside the machine's arrays stores into that buffer.
-/

namespace Not232

open Preemption

/-- The sends of the handler when the machine has stopped in state `s`. -/
def replyFields (megaBuffer : ℕ → UInt8) (programSize : ℕ) (s : VmState) : List Field :=
  let responseLen := if writesRegisters megaBuffer programSize then registerCount else 0
  let responseLen := if writesPile megaBuffer programSize then responseLen + pileSize + 4
    else responseLen
  [.u32 (.ofNat responseLen), .u32 sendMachineState] ++
    (if writesRegisters megaBuffer programSize then [.buffer s.registers.toList] else []) ++
    if writesPile megaBuffer programSize then [.u32 s.rp, .buffer s.pileR.toList] else []

theorem encode_replyFields (megaBuffer : ℕ → UInt8) (programSize : ℕ) (s : VmState) :
    (replyFields megaBuffer programSize s).flatMap Field.encode =
      runResponse megaBuffer programSize s := by
  unfold replyFields runResponse
  cases writesRegisters megaBuffer programSize with
  | true =>
    cases writesPile megaBuffer programSize with
    | true => simp [Field.encode]
    | false => simp [Field.encode]
  | false =>
    cases writesPile megaBuffer programSize with
    | true => simp [Field.encode]
    | false => simp [Field.encode]

theorem replyFields_sendable (megaBuffer : ℕ → UInt8) (programSize : ℕ) (s : VmState) :
    ∀ field ∈ replyFields megaBuffer programSize s, field.Sendable := by
  have hregisters : registerCount ≤ 2047 := by decide
  have hpile : pileSize ≤ 2047 := by decide
  unfold replyFields
  cases writesRegisters megaBuffer programSize with
  | true =>
    cases writesPile megaBuffer programSize with
    | true => simp [Field.Sendable, hregisters, hpile]
    | false => simp [Field.Sendable, hregisters]
  | false =>
    cases writesPile megaBuffer programSize with
    | true => simp [Field.Sendable, hpile]
    | false => simp [Field.Sendable]

/-- Over USB the endpoint is handed these bytes. -/
theorem replyFields_handed (megaBuffer : ℕ → UInt8) (programSize : ℕ) (final : VmState)
    {s s' : TxState} (hs : TxRest s)
    (h : Reaches InCompletion (sendFields (replyFields megaBuffer programSize final), s)
      (.ret (), s')) :
    s'.handed.flatten = s.handed.flatten ++ runResponse megaBuffer programSize final := by
  have hq := (TransmitStream.sendFields_outline
    (replyFields_sendable megaBuffer programSize final)).returned hs.outside h
  have hnil : s'.queued = [] := List.eq_nil_of_length_eq_zero hq.1.length
  rw [← encode_replyFields, ← hq.1.stream, hnil, List.append_nil, List.append_nil]

end Not232
