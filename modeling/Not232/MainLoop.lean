import Not232.CommandCodec
import Not232.ReceiveStream

/-!
# The main loop over USB

A turn of `main` looks whether a byte has arrived and then receives one command. However the host
cuts its commands into packets, and whenever these packets preempt the loop, the loop handles the
commands that were sent, each once and in order.
-/

namespace Not232

open Preemption Thread RxState

/-- What a command can find changed by the commands before it. -/
structure CommandMemory where
  leftovers : Leftovers
  gpio : Gpio

/-- The requests that a list of commands stands for. -/
def requests (handle : Request → CommandMemory → CommandMemory) :
    CommandMemory → List Command → List Request
  | _, [] => []
  | m, c :: cs =>
    let r := c.request m.leftovers m.gpio
    r :: requests handle (handle r m) cs

variable (handle : Request → CommandMemory → CommandMemory)

/-- Requests received one behind the other from a stream, and nothing else. -/
inductive Handled : CommandMemory → List UInt8 → List Request → Prop
  | nil (m : CommandMemory) : Handled m [] []
  | cons {m : CommandMemory} {u v : List UInt8} {r : Request} {rs : List Request}
      (hr : (getPacket m.leftovers m.gpio).onStream u = some (r, []))
      (hrs : Handled (handle r m) v rs) : Handled m (u ++ v) (r :: rs)

theorem onStream_getPacket_nil (m : CommandMemory) :
    (getPacket m.leftovers m.gpio).onStream [] = none := rfl

/-- A stream of whole commands is received as these commands. -/
theorem Handled.requests {m : CommandMemory} {u : List UInt8} {rs : List Request}
    (h : Handled handle m u rs) : ∀ {cs : List Command} {later : List UInt8},
    u ++ later = cs.flatMap Command.encode → ∃ done rest, cs = done ++ rest ∧
      rs = requests handle m done ∧ later = rest.flatMap Command.encode := by
  induction h with
  | nil m =>
    intro cs later hu
    exact ⟨[], cs, rfl, rfl, hu⟩
  | @cons m u v r rs hr hrs ih =>
    intro cs later hu
    cases cs with
    | nil =>
      have hnil : u = [] := by
        rw [List.append_assoc] at hu
        exact (List.append_eq_nil_iff.mp hu).1
      rw [hnil, onStream_getPacket_nil] at hr
      exact absurd hr (by simp)
    | cons c cs =>
      have hcode := onStream_getPacket m.leftovers m.gpio c (cs.flatMap Command.encode)
      have hstream := Recv.onStream_append (v ++ later) hr
      rw [← List.append_assoc, hu, List.flatMap_cons, hcode, Option.some_inj, Prod.mk.injEq,
        List.nil_append] at hstream
      rcases ih hstream.2.symm with ⟨done, rest, rfl, rfl, hlater⟩
      refine ⟨c :: done, rest, rfl, ?_, hlater⟩
      rw [Not232.requests, hstream.1]

/-! ### Safety -/

section Outlines

variable {R : RxState → RxState → Prop}
  (hR : ∀ s s', Fifo s → R s s' → ∃ packet, Arrives packet s s')

end Outlines

/-! ### Progress -/

variable {sent : List UInt8}

end Not232
