import Not232.BusyFlag
import Not232.TransmitStream

/-!
# Blocking sends

A blocking write queues what fits into the ring at once, waits until the ring is empty and never
comes back for the rest. When the host takes every packet it returns, and it has delivered at most
one ring of the data it was given.
-/

namespace Not232

open Preemption Thread TxState

/-- Completions that do not fall inside `usbfsEndpDataUp`. -/
def OutsideCompletion (s s' : TxState) : Prop := InCompletion s s' ∧ s.inDataUp = false

/-! ### The driver's functions without loops -/

theorem loopFree_usbSerialConnected : LoopFree usbSerialConnected := by
  apply (LoopFree.load _).bind
  intro status
  split_ifs
  · exact (LoopFree.load _).bind fun config => .ret _
  · exact .ret _

theorem loopFree_memcpyEp3 (offset : ℕ) (data : List UInt8) : LoopFree (memcpyEp3 offset data) := by
  induction data generalizing offset with
  | nil => exact .ret _
  | cons b rest ih => exact (LoopFree.store _).bind fun _ => ih (offset + 1)

theorem loopFree_loadAndArm (pbuf : List UInt8) : LoopFree (loadAndArm pbuf) := by
  apply (LoopFree.load _).bind
  intro mode
  dsimp only
  split_ifs
  · exact .ret _
  all_goals
    exact (loopFree_memcpyEp3 _ pbuf).bind fun _ => (LoopFree.store _).bind fun _ =>
      (LoopFree.load _).bind fun ctrl => (LoopFree.store _).bind fun _ =>
        (LoopFree.store _).bind fun _ => .ret _

theorem loopFree_usbfsEndpDataUp (pbuf : List UInt8) : LoopFree (usbfsEndpDataUp pbuf) := by
  refine (LoopFree.store _).bind fun _ => (LoopFree.load _).bind fun busy =>
    LoopFree.bind ?_ fun result => (LoopFree.store _).bind fun _ => .ret _
  split_ifs
  · exact loopFree_loadAndArm pbuf
  · exact .ret _

theorem loopFree_popPacket (n : ℕ) : LoopFree (popPacket n) := by
  induction n with
  | zero => exact .ret _
  | succ n ih =>
    exact ih.bind fun pkt => (LoopFree.load _).bind fun tail => (LoopFree.load _).bind fun b =>
      (LoopFree.load _).bind fun tail => (LoopFree.store _).bind fun _ => .ret _

theorem loopFree_txKick : LoopFree txKick := by
  apply loopFree_usbSerialConnected.bind
  intro connected
  split_ifs
  · apply (LoopFree.load _).bind
    intro busy
    split_ifs
    · refine (LoopFree.load _).bind fun head => (LoopFree.load _).bind fun tail => ?_
      dsimp only
      split_ifs
      · exact .ret _
      all_goals
        exact (loopFree_popPacket _).bind fun pkt => (loopFree_usbfsEndpDataUp pkt).bind fun _ =>
          LoopFree.store _
    · exact .ret _
  · exact .ret _

theorem loopFree_enqueue (data : List UInt8) : LoopFree (enqueue data) := by
  induction data with
  | nil => exact .ret _
  | cons b rest ih =>
    refine (LoopFree.load _).bind fun head => (LoopFree.load _).bind fun tail => ?_
    split_ifs
    · exact .ret _
    · exact (LoopFree.load _).bind fun head => (LoopFree.store _).bind fun _ =>
        (LoopFree.load _).bind fun head => (LoopFree.store _).bind fun _ => ih.bind fun _ => .ret _

theorem loopFree_usbSerialWriteP (data : List UInt8) : LoopFree (usbSerialWriteP data) :=
  (loopFree_enqueue data).bind fun _ => loopFree_txKick.bind fun _ => .ret _

theorem loopFree_drainTurn : LoopFree drainTurn := by
  refine LoopFree.bind ?_ fun pending => ?_
  · exact (LoopFree.load _).bind fun head => (LoopFree.load _).bind fun tail => .ret _
  split_ifs
  · exact loopFree_txKick.bind fun _ => .ret _
  · exact .ret _

theorem loopFree_waitIdle (turns : ℕ) : LoopFree (waitIdle turns) := by
  induction turns with
  | zero => exact (LoopFree.load _).bind fun _ => .ret _
  | succ turns ih =>
    apply (LoopFree.load _).bind
    intro busy
    split_ifs
    · exact .ret _
    · exact ih

theorem loopFree_usbSerialSendZlp : LoopFree usbSerialSendZlp := by
  refine (loopFree_waitIdle _).bind fun _ => (LoopFree.load _).bind fun busy => ?_
  split_ifs
  · exact (loopFree_usbfsEndpDataUp []).bind fun _ => .ret _
  · exact .ret _

/-! ### What a blocking send hands over -/

namespace TransmitStream

variable {up : Bool} {acc : List UInt8} {q : ℕ}

theorem usbSerialTxPending_outline {I : TxState → Prop} {P : Assertion InCompletion I}
    (hP : ∀ s, P.holds s → Holding up acc [] q s) :
    Outline InCompletion I P usbSerialTxPending fun pending => P.guard (pending = q) := by
  let afterHead (head : ℕ) : Assertion InCompletion I :=
    P.and (fun s => head = s.txHead) fun s s' _ hs hr => by
      obtain ⟨_, rfl⟩ := hr
      exact hs
  refine .load_bind afterHead (fun s hs => ⟨hs, rfl⟩) fun head => ?_
  refine .load_bind (fun tail => P.guard (ringCount head tail txRingSize = q))
    (fun s hs => ⟨hs.1, ?_⟩) fun tail => .ret fun s hs => hs
  rw [hs.2, (hP s hs.1).ringCount_eq, (hP s hs.1).length]

theorem drainTurn_outline :
    Outline InCompletion TxInv (between up acc) drainTurn fun again =>
      if again then between up acc else outside up acc 0 := by
  refine .split (fun q => outside up acc q) (fun s hs => hs) fun q => ?_
  have hpending : Outline InCompletion TxInv (outside up acc q) usbSerialTxPending fun pending =>
      (outside up acc q).guard (pending = q) := usbSerialTxPending_outline fun s hs => hs.1
  refine hpending.bind fun pending => .assume (fun s hs => hs.2) fun heq => ?_
  subst heq
  by_cases hq : pending > 0
  · rw [if_pos hq]
    exact Outline.bind (txKick_outline.weaken fun s hs => hs.1) fun _ => .ret fun s hs => hs
  · obtain rfl : pending = 0 := by omega
    exact .ret fun s hs => hs.1

theorem drain_outline :
    Outline InCompletion TxInv (between up acc) drain fun _ => outside up acc 0 :=
  .whileTrue drainTurn_outline

theorem usbSerialBlockingWriteP_outline (data : List UInt8) :
    Outline InCompletion TxInv (outside up acc 0) (usbSerialBlockingWriteP data) fun _ =>
      outside up (acc ++ data.take (txRingSize - 1)) 0 := by
  apply (usbSerialWriteP_outline data).bind
  intro written
  refine .assume (fun s hs => hs.2) fun hwritten => ?_
  have htake : data.take written = data.take (txRingSize - 1) := by
    rw [hwritten, Nat.sub_zero, Nat.min_comm]
    exact List.take_eq_take_min.symm
  rw [htake]
  refine Outline.bind (drain_outline.weaken fun s hs => hs.1) fun _ => ?_
  split_ifs
  · exact usbSerialSendZlp_outline
  · exact .ret fun s hs => hs

/-- On a connected device with an idle endpoint a kick moves a packet out of the ring. -/
theorem txKick_idle_outline :
    Outline InCompletion TxInv (idle true acc [] q) txKick fun _ =>
      outside true acc (q - defUsbdFsPackSize) := by
  have hconnected : Outline InCompletion TxInv (idle true acc [] q) usbSerialConnected
      fun connected => (idle true acc [] q).guard (connected = true) :=
    usbSerialConnected_outline fun s hs => hs.1.connected
  refine hconnected.bind fun connected => .assume (fun s hs => hs.2) fun hc => ?_
  rw [if_pos hc]
  refine .load_bind (fun busy => (idle true acc [] q).guard (busy = 0))
    (fun s hs => ⟨hs.1, hs.1.1.endpBusy⟩) fun busy => .assume (fun s hs => hs.2) fun hbusy => ?_
  rw [if_pos hbusy]
  exact sendPacket_outline.weaken fun s hs => hs.1

theorem drainTurn_idle_outline :
    Outline InCompletion TxInv (idle true acc [] q) drainTurn fun again =>
      if again then (outside true acc (q - defUsbdFsPackSize)).guard (0 < q)
      else outside true acc 0 := by
  have hpending : Outline InCompletion TxInv (idle true acc [] q) usbSerialTxPending fun pending =>
      (idle true acc [] q).guard (pending = q) :=
    usbSerialTxPending_outline fun s hs => hs.1.toHolding
  refine hpending.bind fun pending => .assume (fun s hs => hs.2) fun heq => ?_
  subst heq
  by_cases hq : pending > 0
  · rw [if_pos hq]
    exact Outline.bind (txKick_idle_outline.weaken fun s hs => hs.1) fun _ =>
      .ret fun s hs => ⟨hs, hq⟩
  · obtain rfl : pending = 0 := by omega
    exact .ret fun s hs => outside_of_idle hs.1.1

end TransmitStream

/-! ### A host that takes every packet -/

open TransmitStream

/-- Left alone outside `usbfsEndpDataUp`, a function of the driver without loops returns, and both
its proof outlines hold of that run. -/
theorem finishes_alone {α : Type} {p : Thread TxState α} {P : Assertion InCompletion TxInv}
    {Q : α → Assertion InCompletion TxInv} {s : TxState} (hp : LoopFree p)
    (hstream : Outline InCompletion TxInv P p Q)
    (hflag : Outline BenignInterrupt BusyInv BusyFlag.outside p fun _ => BusyFlag.outside)
    (hs : P.holds s) (hb : BusyFlag.outside.holds s) :
    Finishes OutsideCompletion p s fun a s' => (Q a).holds s' ∧ BusyFlag.outside.holds s' := by
  obtain ⟨a, s', h⟩ := hp.returns (fun _ _ => False) s
  have hq : (Q a).holds s' := hstream.returned hs (h.mono fun _ _ hr => hr.elim)
  have hb' : BusyFlag.outside.holds s' := hflag.returned hb (h.mono fun _ _ hr => hr.elim)
  exact ⟨a, s', h.mono fun _ _ hr => hr.elim, hq, hb'⟩

variable {acc : List UInt8}

/-- Once the host has taken the armed packet the endpoint is idle. -/
theorem idle_complete {q : ℕ} {s : TxState} (hs : (outside true acc q).holds s) (harm : s.Armed) :
    (idle true acc [] q).holds (complete s) :=
  ⟨idle_of_outside ((outside true acc q).stable s _ hs ⟨harm, rfl⟩) rfl, trivial⟩

theorem drainTurn_finishes {q : ℕ} {s : TxState} (hs : (outside true acc q).holds s)
    (hb : BusyFlag.outside.holds s) :
    Finishes OutsideCompletion drainTurn s fun again s' =>
      (if again then (outside true acc (q - defUsbdFsPackSize)).guard (0 < q)
        else outside true acc 0 : Assertion InCompletion TxInv).holds s' ∧
        BusyFlag.outside.holds s' := by
  by_cases harm : s.Armed
  · have hint : OutsideCompletion s (complete s) := ⟨⟨harm, rfl⟩, hb.1⟩
    have hb' : BusyFlag.outside.holds (complete s) :=
      BusyFlag.outside.stable s _ hb (.inl ⟨.inl ⟨harm, rfl⟩, hs.2⟩)
    exact .interrupt hint (finishes_alone loopFree_drainTurn drainTurn_idle_outline
      BusyFlag.drainTurn_outline (idle_complete hs harm) hb')
  · have hbusy : s.endpBusy = 0 := by
      by_contra hne
      exact harm (hb.2.mp hne)
    exact finishes_alone loopFree_drainTurn drainTurn_idle_outline
      BusyFlag.drainTurn_outline ⟨idle_of_outside hs hbusy, trivial⟩ hb

theorem drain_finishes {s : TxState} (hs : (between true acc).holds s)
    (hb : BusyFlag.outside.holds s) :
    Finishes OutsideCompletion drain s fun _ s' =>
      (outside true acc 0).holds s' ∧ BusyFlag.outside.holds s' := by
  refine .whileTrue (P := fun s => (between true acc).holds s ∧ BusyFlag.outside.holds s)
    (fun s => s.queued.length) (fun s hs => ?_) ⟨hs, hb⟩
  obtain ⟨⟨q, hq⟩, hb⟩ := hs
  obtain ⟨again, s', hrun, hpost, hb'⟩ := drainTurn_finishes hq hb
  refine ⟨again, s', hrun, ?_⟩
  cases again with
  | true =>
    obtain ⟨hs', hpos⟩ := hpost
    refine ⟨⟨⟨_, hs'⟩, hb'⟩, ?_⟩
    rw [hs'.1.length, hq.1.length]
    exact Nat.sub_lt hpos (by decide)
  | false => exact ⟨hpost, hb'⟩

/-- Outside `usbfsEndpDataUp`, with an empty ring and an exact flag. -/
def TransmitStream.Rested (s : TxState) : Prop :=
  (∃ acc, (outside true acc 0).holds s) ∧ BusyFlag.outside.holds s

theorem usbSerialBlockingWriteP_finishes (data : List UInt8) {s : TxState} (hs : Rested s) :
    Finishes OutsideCompletion (usbSerialBlockingWriteP data) s fun _ => Rested := by
  obtain ⟨⟨acc, hs⟩, hb⟩ := hs
  refine (finishes_alone (loopFree_usbSerialWriteP data) (usbSerialWriteP_outline data)
    (BusyFlag.usbSerialWriteP_outline data) hs hb).bind fun written s₁ h₁ => ?_
  apply (drain_finishes h₁.1.1 h₁.2).bind
  intro _ s₂ h₂
  split_ifs
  · obtain ⟨a, s', hrun, hs', hb'⟩ := finishes_alone loopFree_usbSerialSendZlp
      usbSerialSendZlp_outline BusyFlag.usbSerialSendZlp_outline h₂.1 h₂.2
    exact ⟨a, s', hrun, ⟨_, hs'⟩, hb'⟩
  · exact .ret ⟨⟨_, h₂.1⟩, h₂.2⟩

/-- A connected device whose transmit half is at rest: the ring is empty, the flag is exact, and
the main thread is outside `usbfsEndpDataUp`. -/
structure TxRest (s : TxState) : Prop extends TxInv s where
  connected : s.connected = true
  queued : s.queued = []
  inDataUp : s.inDataUp = false
  flag : FlagExact s

theorem TxRest.outside {s : TxState} (hs : TxRest s) :
    (TransmitStream.outside true s.handed.flatten 0).holds s := by
  refine ⟨⟨hs.toTxInv, hs.connected, ?_, ?_⟩, hs.flag.mpr⟩
  · rw [hs.queued, List.append_nil, List.append_nil]
  · rw [hs.queued, List.length_nil]

theorem TxRest.rested {s : TxState} (hs : TxRest s) : Rested s :=
  ⟨⟨_, hs.outside⟩, hs.inDataUp, hs.flag⟩

/-- When a send returns it has handed over the first bytes of its buffer. -/
theorem commsSendBuffer_handed (buffer : List UInt8) {s s' : TxState} (hs : TxRest s)
    (h : Reaches OutsideCompletion (commsSendBuffer buffer, s) (.ret (), s')) :
    s'.handed.flatten =
      s.handed.flatten ++ (buffer.take (uint16 buffer.length)).take (txRingSize - 1) := by
  have houtline : Outline InCompletion TxInv (TransmitStream.outside true s.handed.flatten 0)
      (commsSendBuffer buffer) fun _ => TransmitStream.outside true
        (s.handed.flatten ++ (buffer.take (uint16 buffer.length)).take (txRingSize - 1)) 0 :=
    usbSerialBlockingWriteP_outline (buffer.take (uint16 buffer.length))
  have hq := houtline.returned hs.outside (h.mono fun _ _ hr => hr.1)
  have hnil : s'.queued = [] := List.eq_nil_of_length_eq_zero hq.1.length
  rw [← hq.1.stream, hnil, List.append_nil, List.append_nil]

theorem commsSendBuffer_returns (buffer : List UInt8) {s : TxState} (hs : TxRest s) :
    ∃ s', Reaches OutsideCompletion (commsSendBuffer buffer, s) (.ret (), s') := by
  obtain ⟨_, s', h, _⟩ := usbSerialBlockingWriteP_finishes (buffer.take (uint16 buffer.length))
    hs.rested
  exact ⟨s', h⟩

theorem take_take_eq_self_iff (buffer : List UInt8) :
    (buffer.take (uint16 buffer.length)).take (txRingSize - 1) = buffer ↔
      buffer.length ≤ txRingSize - 1 := by
  constructor
  · intro h
    have hlen := congrArg List.length h
    rw [List.length_take] at hlen
    omega
  · intro h
    rw [uint16_of_lt (h.trans_lt (by decide)), List.take_length, List.take_of_length_le h]

/-- A send can return, and it hands over its whole buffer whenever it returns if and only if the
buffer fits into the ring. -/
theorem commsSendBuffer_delivers_iff (buffer : List UInt8) (s : TxState) (hs : TxRest s) :
    (∃ s', Reaches OutsideCompletion (commsSendBuffer buffer, s) (.ret (), s')) ∧
      ((∀ s', Reaches OutsideCompletion (commsSendBuffer buffer, s) (.ret (), s') →
        s'.handed.flatten = s.handed.flatten ++ buffer) ↔ buffer.length ≤ txRingSize - 1) := by
  have hex := commsSendBuffer_returns buffer hs
  refine ⟨hex, ?_⟩
  rw [← take_take_eq_self_iff]
  constructor
  · intro hall
    obtain ⟨s', h⟩ := hex
    have hsame := (commsSendBuffer_handed buffer hs h).symm.trans (hall s' h)
    exact List.append_cancel_left hsame
  · intro hfit s' h
    rw [commsSendBuffer_handed buffer hs h, hfit]

theorem start_txRest : TxRest TxState.start :=
  ⟨start_txInv, rfl, rfl, rfl, start_flagExact⟩

theorem commsSendBuffer_delivers_iff_one :
    (∃ s', Reaches OutsideCompletion (commsSendBuffer [1], TxState.start) (.ret (), s')) ∧
      ((∀ s', Reaches OutsideCompletion (commsSendBuffer [1], TxState.start) (.ret (), s') →
        s'.handed.flatten = TxState.start.handed.flatten ++ [1]) ↔ [1].length ≤ txRingSize - 1) :=
  commsSendBuffer_delivers_iff [1] TxState.start start_txRest

/-- A buffer of 2048 bytes loses its last byte. -/
theorem commsSendBuffer_drops_last :
    ∃ s', Reaches OutsideCompletion (commsSendBuffer (List.replicate 2048 0), TxState.start)
        (.ret (), s') ∧
      s'.handed.flatten = List.replicate 2047 0 ∧ s'.handed.flatten ≠ List.replicate 2048 0 := by
  obtain ⟨s', h⟩ := commsSendBuffer_returns (List.replicate 2048 0) start_txRest
  have hsent : s'.handed.flatten = List.replicate 2047 0 := by
    rw [commsSendBuffer_handed _ start_txRest h, List.length_replicate, List.take_replicate,
      List.take_replicate]
    rfl
  refine ⟨s', h, hsent, fun hall => ?_⟩
  have hlen := congrArg List.length (hsent.symm.trans hall)
  rw [List.length_replicate, List.length_replicate] at hlen
  omega

end Not232
