import Not232.ReceiveFifo

/-!
# What the host's OUT packets become

The interrupt handler re-arms endpoint 2 with ACK whether or not the ring had room, so the host
may send at any time. As long as every packet fits, the receive path is a queue from the host's
packets to the handlers; a packet that does not fit is acknowledged and loses its last bytes.
-/

namespace Not232

open Preemption RxState

/-- An OUT packet on endpoint 2 at any moment at which the endpoint acknowledges. -/
def OutPacket (s s' : RxState) : Prop :=
  ∃ packet : List UInt8, packet.length ≤ 64 ∧ s.Ep2Acks ∧ s' = acknowledge packet s

/-- An OUT packet that the ring has room for. -/
def OutPacketFits (s s' : RxState) : Prop :=
  ∃ packet : List UInt8, packet.length ≤ 64 ∧ s.Ep2Acks ∧
    packet.length ≤ ringFree s.rxHead s.rxTail rxRingSize ∧ s' = acknowledge packet s

/-- A nonempty OUT packet that leaves at most 2047 acknowledged bytes not yet returned. -/
def OutPacketQueues (s s' : RxState) : Prop :=
  ∃ packet : List UInt8, 1 ≤ packet.length ∧ packet.length ≤ 64 ∧ s.Ep2Acks ∧
    s.acked.length + packet.length ≤ s.returned.length + 2047 ∧ s' = acknowledge packet s

theorem outPacketFits_arrives (s s' : RxState) (hs : Fifo s) (h : OutPacketFits s s') :
    ∃ packet, Arrives packet s s' := by
  obtain ⟨packet, -, -, hfit, rfl⟩ := h
  exact ⟨packet, acknowledge_arrives hs.toRxInv hfit⟩

theorem outPacketQueues_arrives (s s' : RxState) (hs : Fifo s) (h : OutPacketQueues s s') :
    ∃ packet, Arrives packet s s' := by
  obtain ⟨packet, -, -, -, hroom, rfl⟩ := h
  refine ⟨packet, acknowledge_arrives hs.toRxInv ?_⟩
  have hlen := congrArg List.length hs.stream
  have hfree := hs.ringFree_add
  rw [List.length_append] at hlen
  simp only [rxRingSize] at hfree ⊢
  omega

theorem begin_fifo (ring : ℕ → UInt8) : Fifo (RxState.begin ring) :=
  ⟨⟨by simp [RxState.begin, rxRingSize], by simp [RxState.begin, rxRingSize]⟩, rfl⟩

/-- The bytes of a packet that the ring has no room for are lost, and only then. -/
theorem acknowledge_stream_iff {packet : List UInt8} {s : RxState} (hs : Fifo s) :
    (acknowledge packet s).returned ++ (acknowledge packet s).unread =
        (acknowledge packet s).acked ↔
      packet.length ≤ ringFree s.rxHead s.rxTail rxRingSize := by
  have h := acknowledge_appends packet s hs.toRxInv
  rw [h.returned, h.unread, acknowledge_acked, ← List.append_assoc, hs.stream,
    List.append_cancel_left_eq, List.take_eq_self_iff]

/-- Every run whose packets all fit keeps every acknowledged byte; a packet that does not fit
loses bytes at once. -/
theorem acked_eq_returned_append_unread {α : Type} (p : Recv α) (s : RxState) (hs : Fifo s) :
    (∀ c, Reaches OutPacketFits (p.overUsb, s) c → c.2.returned ++ c.2.unread = c.2.acked) ∧
      ∀ packet : List UInt8,
        (acknowledge packet s).returned ++ (acknowledge packet s).unread =
            (acknowledge packet s).acked ↔
          packet.length ≤ ringFree s.rxHead s.rxTail rxRingSize := by
  refine ⟨fun c hc => ?_, fun packet => acknowledge_stream_iff hs⟩
  have ho := overUsb_outline outPacketFits_arrives p s.returned
  exact (ho.invariant ⟨hs, rfl⟩ hc).stream

theorem acked_eq_returned_append_unread_begin :
    (∀ c, Reaches OutPacketFits (commsRecvU32.overUsb, RxState.begin fun _ => 0) c →
        c.2.returned ++ c.2.unread = c.2.acked) ∧
      ∀ packet : List UInt8,
        (acknowledge packet (RxState.begin fun _ => 0)).returned ++
            (acknowledge packet (RxState.begin fun _ => 0)).unread =
            (acknowledge packet (RxState.begin fun _ => 0)).acked ↔
          packet.length ≤ ringFree 0 0 rxRingSize :=
  acked_eq_returned_append_unread commsRecvU32 (RxState.begin fun _ => 0) (begin_fifo _)

theorem acknowledge_iterate_acked (packet : List UInt8) (n : ℕ) (s : RxState) :
    ((acknowledge packet)^[n] s).acked.length = s.acked.length + n * packet.length := by
  induction n generalizing s with
  | zero => simp
  | succ n ih =>
    rw [Function.iterate_succ_apply, ih, acknowledge_acked, List.length_append]
    ring

theorem acknowledge_iterate_inv (packet : List UInt8) (n : ℕ) (s : RxState) (hs : RxInv s) :
    RxInv ((acknowledge packet)^[n] s) ∧ ((acknowledge packet)^[n] s).returned = s.returned := by
  induction n generalizing s with
  | zero => exact ⟨hs, rfl⟩
  | succ n ih =>
    have h := acknowledge_appends packet s hs
    have hi := ih (acknowledge packet s) ⟨h.rxHead_lt, h.rxTail ▸ hs.rxTail_lt⟩
    exact ⟨hi.1, hi.2.trans h.returned⟩

theorem reaches_acknowledge_iterate {α : Type} (p : Thread RxState α) (packet : List UInt8)
    (hlen : packet.length ≤ 64) (n : ℕ) (s : RxState) (hs : s.Ep2Acks) :
    Reaches OutPacket (p, s) (p, (acknowledge packet)^[n] s) := by
  induction n generalizing s with
  | zero => exact .refl
  | succ n ih =>
    exact (reaches_interrupt p ⟨packet, hlen, hs, rfl⟩).trans
      (ih (acknowledge packet s) (acknowledge_ep2Acks packet s))

/-- While a handler reads nothing, 32 full packets are acknowledged and one byte is dropped. -/
theorem acked_ne_returned_append_unread :
    ∃ c, Reaches OutPacket ((pure () : Recv Unit).overUsb, RxState.begin fun _ => 0) c ∧
      c.2.returned ++ c.2.unread ≠ c.2.acked := by
  let packet : List UInt8 := List.replicate 64 0
  let s : RxState := (acknowledge packet)^[32] (RxState.begin fun _ => 0)
  have hlen : packet.length = 64 := List.length_replicate
  obtain ⟨hinv, hret⟩ := acknowledge_iterate_inv packet 32 (RxState.begin fun _ => 0)
    (begin_fifo _).toRxInv
  refine ⟨(_, s), reaches_acknowledge_iterate _ packet hlen.le 32 _ rfl, fun he => ?_⟩
  have hacked : s.acked.length = 2048 := by
    rw [acknowledge_iterate_acked, hlen]
    rfl
  have hunread : s.unread.length < rxRingSize := by
    rw [length_unread]
    exact RingBuffer.occupied_lt hinv.rxHead_lt
  have hl := congrArg List.length he
  rw [List.length_append, hret, hacked] at hl
  simp only [RxState.begin, List.length_nil, rxRingSize] at hl hunread
  omega

/-- The receive ring is a queue, however its producer preempts the reader: the indices stay in
range, they count the unread bytes, and a handler receives the fields of the acknowledged stream,
whatever the packets and the moments at which they arrive. -/
theorem overUsb_refines_onStream {α : Type} (p : Recv α) (s : RxState) (hs : Fifo s)
    (c : Config RxState α) (hc : Reaches OutPacketQueues (p.overUsb, s) c) :
    c.2.rxHead < 2048 ∧ c.2.rxTail < 2048 ∧
      ringCount c.2.rxHead c.2.rxTail rxRingSize = c.2.acked.length - c.2.returned.length ∧
      ringCount c.2.rxHead c.2.rxTail rxRingSize +
        ringFree c.2.rxHead c.2.rxTail rxRingSize = 2047 ∧
      c.2.returned ++ c.2.unread = c.2.acked ∧
      ∀ a, c.1 = .ret a → ∀ later,
        p.onStream (c.2.acked.drop s.returned.length ++ later) = some (a, c.2.unread ++ later) := by
  have ho := overUsb_outline outPacketQueues_arrives p s.returned
  have hfifo : Fifo c.2 := ho.invariant ⟨hs, rfl⟩ hc
  have hcount := hfifo.ringCount_eq
  have hfree := hfifo.ringFree_add
  refine ⟨hfifo.rxHead_lt, hfifo.rxTail_lt, ?_, ?_, hfifo.stream, fun a ha later => ?_⟩
  · rw [hcount, ← hfifo.stream, List.length_append, Nat.add_sub_cancel_left]
  · rw [hcount, hfree]
    rfl
  · obtain ⟨q, s'⟩ := c
    obtain rfl : q = .ret a := ha
    obtain ⟨-, u, hu, hrecv⟩ := ho.returned ⟨hs, rfl⟩ hc
    have hdrop : s'.acked.drop s.returned.length = u ++ s'.unread := by
      rw [← hfifo.stream, hu, List.append_assoc, List.drop_left]
    rw [hdrop, List.append_assoc]
    exact Recv.onStream_append _ hrecv

/-- A byte that is already there is received. -/
theorem overUsb_refines_onStream_byte :
    ∃ c : Config RxState UInt8, c.1 = .ret 7 ∧ c.2.unread = [9] ∧
      ∀ later, commsRecvU8.onStream (c.2.acked.drop 0 ++ later) = some (7, c.2.unread ++ later) := by
  let s : RxState := acknowledge [7, 9] (RxState.begin fun _ => 0)
  have hirq : OutPacketQueues (RxState.begin fun _ => 0) s :=
    ⟨[7, 9], by decide, by decide, rfl, by decide, rfl⟩
  have hc : Reaches OutPacketQueues (commsRecvU8.overUsb, RxState.begin fun _ => 0)
      (advance^[12] (commsRecvU8.overUsb, s)) :=
    (reaches_interrupt _ hirq).trans (reaches_iterate _ 12 _)
  have hret : (advance^[12] (commsRecvU8.overUsb, s)).1 = .ret 7 := rfl
  exact ⟨_, hret, by decide,
    (overUsb_refines_onStream _ _ (begin_fifo _) _ hc).2.2.2.2.2 7 hret⟩

end Not232
