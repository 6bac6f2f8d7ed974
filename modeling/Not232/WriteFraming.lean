import Not232.BlockingSend
import Not232.Chunks

/-!
# Blocking writes as bulk transfers

A blocking write that fits into the empty ring queues all its data before the first packet is made
and returns with the ring empty again. So its packets are full up to a last short one, and no packet
holds bytes of two writes. When the length is a multiple of the packet size an empty packet has to
follow, and it does if the host has taken the last one when the wait for it ends.
-/

namespace Not232

open Preemption Thread TxState

/-- The transmit half of a connected device; `J` holds of the packets handed over. -/
def Sending (J : List (List UInt8) → Prop) (s : TxState) : Prop := TxInv s ∧ J s.handed

/-- The packets handed over are `packets`, and `queue` is in the ring. -/
structure Sent (J : List (List UInt8) → Prop) (packets : List (List UInt8)) (queue : List UInt8)
    (s : TxState) : Prop extends TxInv s where
  allowed : J packets
  connected : s.connected = true
  sent : s.handed = packets
  queued : s.queued = queue

structure SentIdle (J : List (List UInt8) → Prop) (packets : List (List UInt8))
    (queue : List UInt8) (s : TxState) : Prop extends Sent J packets queue s where
  not_armed : ¬ s.Armed
  endpBusy : s.endpBusy = 0

section State

variable {J : List (List UInt8) → Prop} {packets : List (List UInt8)} {queue : List UInt8}
  {s : TxState}

theorem Sent.holding (hs : Sent J packets queue s) (pkt : List UInt8) :
    Holding true (packets.flatten ++ pkt ++ queue) pkt queue.length s where
  toTxInv := hs.toTxInv
  connected := hs.connected
  stream := by rw [hs.sent, hs.queued]
  length := by rw [hs.queued]

theorem SentIdle.idle (hs : SentIdle J packets queue s) (pkt : List UInt8) :
    Idle true (packets.flatten ++ pkt ++ queue) pkt queue.length s :=
  ⟨hs.toSent.holding pkt, hs.not_armed, hs.endpBusy⟩

theorem Sent.complete (hs : Sent J packets queue s) (harm : s.Armed) :
    Sent J packets queue (complete s) :=
  ⟨hs.toTxInv.complete harm, hs.allowed, hs.connected, hs.sent, hs.queued⟩

theorem Sent.mark (hs : Sent J packets queue s) (busy : UInt8) (inDataUp : Bool) :
    Sent J packets queue { s with endpBusy := busy, inDataUp := inDataUp } :=
  ⟨((hs.holding []).mark busy inDataUp).toTxInv, hs.allowed, hs.connected, hs.sent, hs.queued⟩

theorem SentIdle.fill (hs : SentIdle J packets queue s) (buf : ℕ → UInt8) (len : ℕ) :
    SentIdle J packets queue { s with ep3Buf := buf, uep3TxLen := len } :=
  ⟨⟨((hs.idle []).fill buf len).toTxInv, hs.allowed, hs.connected, hs.sent, hs.queued⟩,
    hs.not_armed, hs.endpBusy⟩

theorem SentIdle.arm (hs : SentIdle J packets queue s) {pkt : List UInt8} (hpkt : s.packet = pkt)
    (hJ : J (packets ++ [pkt])) (ctrl : UInt8) :
    Sent J (packets ++ [pkt]) queue
      { s with
        uep3TxCtrl := (ctrl &&& ~~~uepTResMask) ||| uepTResAck
        handed := s.handed ++ [s.packet] } :=
  ⟨((hs.idle pkt).arm hpkt ctrl).toTxInv, hJ, hs.connected, by rw [hs.sent, hpkt], hs.queued⟩

theorem SentIdle.pop {b : UInt8} (hs : SentIdle J packets (b :: queue) s) :
    s.txRing s.txTail = b ∧ SentIdle J packets queue
      { s with txTail := uint16 ((s.txTail + 1) % txRingSize : ℕ) } := by
  have hpop := (hs.idle []).pop
  have hstream := hpop.stream
  change s.handed.flatten ++ _ ++ _ = _ at hstream
  rw [hs.sent, List.append_nil, List.append_assoc, List.append_cancel_left_eq, List.nil_append,
    List.singleton_append, List.cons.injEq] at hstream
  exact ⟨hstream.1, ⟨hpop.toTxInv, hs.allowed, hs.connected, hs.sent, hstream.2⟩, hs.not_armed,
    hs.endpBusy⟩

theorem Sent.put (hs : Sent J packets queue s) (b : UInt8) :
    Sent J packets queue { s with txRing := Function.update s.txRing s.txHead b } := by
  have hput := (hs.holding []).put b
  have hstream := hput.stream
  change s.handed.flatten ++ _ ++ _ = _ at hstream
  rw [hs.sent, List.append_cancel_left_eq] at hstream
  exact ⟨hput.toTxInv, hs.allowed, hs.connected, hs.sent, hstream⟩

theorem Sent.push (hs : Sent J packets queue s) (hq : queue.length < txRingSize - 1) :
    Sent J packets (queue ++ [s.txRing s.txHead])
      { s with txHead := uint16 ((s.txHead + 1) % txRingSize : ℕ) } := by
  have hpush := (hs.holding []).push hq
  have hstream := hpush.stream
  change s.handed.flatten ++ _ ++ _ = _ at hstream
  rw [hs.sent, List.append_assoc (packets.flatten ++ []), List.append_cancel_left_eq] at hstream
  exact ⟨hpush.toTxInv, hs.allowed, hs.connected, hs.sent, hstream⟩

end State

namespace WriteFraming

variable (J : List (List UInt8) → Prop) (packets : List (List UInt8)) (queue : List UInt8)

/-- The main thread is inside the driver, and has armed the endpoint. -/
def handing : Assertion InCompletion (Sending J) where
  holds := Sent J packets queue
  stable s s' h hr := by
    obtain ⟨harm, rfl⟩ := hr
    exact h.complete harm
  safe _ h := ⟨h.toTxInv, h.sent ▸ h.allowed⟩

/-- The main thread is outside `usbfsEndpDataUp`. -/
def outside : Assertion InCompletion (Sending J) :=
  (handing J packets queue).and (fun s => s.Armed → s.endpBusy ≠ 0) fun s s' _ _ hr harm => by
    obtain ⟨_, rfl⟩ := hr
    exact absurd harm (not_armed_complete s)

/-- The endpoint is idle, and `F` besides; nothing interferes with it. -/
def idleWith (F : TxState → Prop) : Assertion InCompletion (Sending J) where
  holds s := SentIdle J packets queue s ∧ F s
  stable _ _ h hr := absurd hr.1 h.1.not_armed
  safe _ h := ⟨h.1.toTxInv, h.1.sent ▸ h.1.allowed⟩

def idle : Assertion InCompletion (Sending J) := idleWith J packets queue fun _ => True

variable {J packets queue}

theorem outside_of_idle {s : TxState} (h : SentIdle J packets queue s) :
    (outside J packets queue).holds s :=
  ⟨h.toSent, fun harm => absurd harm h.not_armed⟩

theorem idle_of_outside {s : TxState} (h : (outside J packets queue).holds s)
    (hbusy : s.endpBusy = 0) : SentIdle J packets queue s :=
  ⟨h.1, fun harm => h.2 harm hbusy, hbusy⟩

theorem quiet_sentIdle (J : List (List UInt8) → Prop) (packets : List (List UInt8))
    (queue : List UInt8) : QuietEndpoint (Sending J) (SentIdle J packets queue) where
  safe _ hs := ⟨hs.toTxInv, hs.sent ▸ hs.allowed⟩
  not_armed _ hs := hs.not_armed
  endpBusy _ hs := hs.endpBusy
  uep23Mod _ hs := hs.uep23Mod
  fill _ hs buf len := hs.fill buf len
  enter s hs := ⟨hs.mark s.endpBusy true, hs.not_armed, hs.endpBusy⟩

theorem usbfsEndpDataUp_outline {pkt : List UInt8} (hJ : J (packets ++ [pkt])) :
    Outline InCompletion (Sending J) (idle J packets queue) (usbfsEndpDataUp pkt) fun result =>
      (outside J (packets ++ [pkt]) queue).guard (result = 0) := by
  have hset : (1 : UInt8) ≠ 0 := by decide
  exact (quiet_sentIdle J packets queue).usbfsEndpDataUp_outline
    (P := handing J (packets ++ [pkt]) queue) (fun s hs hpkt ctrl => hs.arm hpkt hJ ctrl)
    (fun s hs => ⟨hs.mark 1 s.inDataUp, fun _ => hset⟩)
    fun s hs => ⟨hs.1.mark s.endpBusy false, hs.2⟩

theorem popPacket_outline (n : ℕ) (hn : n ≤ queue.length) :
    Outline InCompletion (Sending J) (idle J packets queue) (popPacket n) fun pkt =>
      (idle J packets (queue.drop n)).guard (pkt = queue.take n) := by
  induction n with
  | zero => exact .ret fun s hs => ⟨hs, rfl⟩
  | succ n ih =>
    have hlt : n < queue.length := hn
    have hdrop : queue.drop n = queue[n] :: queue.drop (n + 1) := List.drop_eq_getElem_cons hlt
    refine (ih hlt.le).bind fun pkt => .assume (fun s hs => hs.2) fun hpkt => ?_
    rw [hpkt, hdrop]
    refine .load_bind (fun tail => idleWith J packets (queue[n] :: queue.drop (n + 1)) fun s =>
      tail = s.txTail) (fun s hs => ⟨hs.1.1, rfl⟩) fun tail => ?_
    refine .load_bind (fun b => (idle J packets (queue[n] :: queue.drop (n + 1))).guard
      (b = queue[n])) (fun s hs => ⟨⟨hs.1, trivial⟩, ?_⟩) fun b => ?_
    · rw [hs.2, hs.1.pop.1]
    refine .load_bind (fun tail => idleWith J packets (queue[n] :: queue.drop (n + 1)) fun s =>
      tail = s.txTail ∧ b = queue[n]) (fun s hs => ⟨hs.1.1, rfl, hs.2⟩) fun tail => ?_
    refine .store_bind ((idle J packets (queue.drop (n + 1))).guard (b = queue[n]))
      (fun s hs => ?_) (.ret fun s hs => ⟨hs.1, ?_⟩)
    · obtain ⟨hidle, rfl, hb⟩ := hs
      exact ⟨⟨hidle.pop.2, trivial⟩, hb⟩
    · rw [hs.2, List.take_concat_get' queue n hlt]

/-- A packet leaves the ring: a full one, or all that is queued. -/
theorem sendPacket_outline (hqueue : queue ≠ [])
    (hJ : J (packets ++ [queue.take defUsbdFsPackSize])) :
    Outline InCompletion (Sending J) (idle J packets queue) sendPacket fun _ =>
      outside J (packets ++ [queue.take defUsbdFsPackSize]) (queue.drop defUsbdFsPackSize) := by
  have hpos : 0 < queue.length := List.length_pos_iff.mpr hqueue
  refine .load_bind (fun head => idleWith J packets queue fun s => head = s.txHead)
    (fun s hs => ⟨hs.1, rfl⟩) fun head => ?_
  refine .load_bind (fun tail => (idle J packets queue).guard
    (ringCount head tail txRingSize = queue.length)) (fun s hs => ⟨⟨hs.1, trivial⟩, ?_⟩)
    fun tail => ?_
  · rw [hs.2, hs.1.ringCount_eq, hs.1.queued]
  refine .assume (fun s hs => hs.2) fun hcnt => ?_
  dsimp only
  rw [hcnt, if_neg hpos.ne']
  refine Outline.bind (M := fun pkt => (idle J packets (queue.drop defUsbdFsPackSize)).guard
    (pkt = queue.take defUsbdFsPackSize)) ?_ fun pkt => ?_
  · by_cases hfull : queue.length > defUsbdFsPackSize
    · rw [if_pos hfull]
      exact (popPacket_outline defUsbdFsPackSize hfull.le).weaken fun s hs => hs.1
    · have hle : queue.length ≤ defUsbdFsPackSize := Nat.le_of_not_lt hfull
      rw [if_neg hfull, List.take_of_length_le hle, List.drop_of_length_le hle]
      have hpop : Outline InCompletion (Sending J) (idle J packets queue) (popPacket queue.length)
          fun pkt => (idle J packets (queue.drop queue.length)).guard
            (pkt = queue.take queue.length) := popPacket_outline queue.length le_rfl
      rw [List.take_length, List.drop_length] at hpop
      exact hpop.weaken fun s hs => hs.1
  refine .assume (fun s hs => hs.2) fun hpkt => ?_
  rw [hpkt]
  refine Outline.bind ((usbfsEndpDataUp_outline hJ).weaken fun s hs => hs.1) fun result =>
    .store fun s hs => ?_
  obtain ⟨hs, rfl⟩ := hs
  refine ⟨⟨⟨hs.1.txHead_lt, hs.1.txTail_lt, hs.1.uep23Mod, ?_, hs.1.handed⟩, hs.1.allowed,
    hs.1.connected, hs.1.sent, hs.1.queued⟩, hs.2⟩
  exact (Bool.or_false _).trans hs.1.refused

/-- A kick leaves everything as it is or sends a packet. -/
theorem txKick_outline (hqueue : queue ≠ [])
    (hJ : J (packets ++ [queue.take defUsbdFsPackSize])) {M : Assertion InCompletion (Sending J)}
    (hsame : ∀ s, (outside J packets queue).holds s → M.holds s)
    (hsent : ∀ s, (outside J (packets ++ [queue.take defUsbdFsPackSize])
      (queue.drop defUsbdFsPackSize)).holds s → M.holds s) :
    Outline InCompletion (Sending J) (outside J packets queue) txKick fun _ => M :=
  TransmitStream.txKick_cases_outline (M := idle J packets queue) (fun _ hs => hs.1.connected)
    (fun _ hs hbusy => ⟨idle_of_outside hs hbusy, trivial⟩)
    (fun _ => (sendPacket_outline hqueue hJ).post fun _ s hs => hsent s hs) hsame

theorem enqueue_outline (data : List UInt8) (hfits : queue.length + data.length ≤ txRingSize - 1) :
    Outline InCompletion (Sending J) (outside J packets queue) (enqueue data) fun _ =>
      outside J packets (queue ++ data) := by
  induction data generalizing queue with
  | nil =>
    refine .ret fun s hs => ?_
    rwa [List.append_nil]
  | cons b rest ih =>
    rw [List.length_cons] at hfits
    have hfree : ∀ s, (outside J packets queue).holds s →
        ringFree s.txHead s.txTail txRingSize = txRingSize - 1 - queue.length := fun s hs => by
      rw [hs.1.ringFree_eq, hs.1.queued]
    refine TransmitStream.enqueue_cons_outline (M := outside J packets (queue ++ [b])) hfree
      (fun hzero => by omega) (fun s hs => ⟨hs.1.put b, hs.2⟩) (fun _ s hs hb => ?_) fun _ => ?_
    · subst hb
      exact ⟨hs.1.push (by omega), hs.2⟩
    · have hrest : Outline InCompletion (Sending J) (outside J packets (queue ++ [b]))
          (enqueue rest) fun _ => outside J packets (queue ++ [b] ++ rest) := ih (by
        rw [List.length_append, List.length_singleton]
        omega)
      rwa [List.append_assoc, List.singleton_append] at hrest

end WriteFraming

/-- What a blocking write does before it decides about an empty packet. -/
def writeAndDrain (data : List UInt8) : Thread TxState Unit := do
  let _ ← usbSerialWriteP data
  drain

/-- What `usbSerialSendZlp` does when its wait has ended. -/
def zlpAfterWait : Thread TxState Unit := do
  let busy ← load endpBusy
  if busy = 0 then
    let _ ← usbfsEndpDataUp []
    pure ()
  else pure ()

/-- What a blocking write of a multiple of the packet size does until the wait has ended. -/
def untilWaitEnds (data : List UInt8) : Thread TxState Unit := do
  writeAndDrain data
  waitIdle 50000

theorem usbSerialBlockingWriteP_of_dvd {data : List UInt8} (hlen : 0 < data.length)
    (hdvd : data.length % 64 = 0) :
    usbSerialBlockingWriteP data = (untilWaitEnds data).bind fun _ => zlpAfterWait := by
  have hassoc : (untilWaitEnds data).bind (fun _ => zlpAfterWait) =
      (usbSerialWriteP data).bind fun _ => drain.bind fun _ => usbSerialSendZlp := by
    change (((usbSerialWriteP data).bind fun _ => drain).bind fun _ => waitIdle 50000).bind _ = _
    rw [Thread.bind_assoc, Thread.bind_assoc]
    rfl
  rw [hassoc, usbSerialBlockingWriteP, if_pos ⟨hlen, hdvd⟩]
  rfl

theorem usbSerialBlockingWriteP_of_not_dvd {data : List UInt8} (hdvd : data.length % 64 ≠ 0) :
    usbSerialBlockingWriteP data = writeAndDrain data := by
  rw [usbSerialBlockingWriteP, if_neg fun h => hdvd h.2]
  exact congrArg (usbSerialWriteP data).bind (funext fun _ => Thread.bind_ret drain)

/-- The packets of a write are handed over behind `base`, in chunks of the packet size. -/
def FromWrite (base : List (List UInt8)) (data : List UInt8) (packets : List (List UInt8)) : Prop :=
  ∃ sent, packets = base ++ sent ∧ sent.flatten <+: data

theorem fromWrite_base {base : List (List UInt8)} {data : List UInt8} :
    FromWrite base data base := ⟨[], by rw [List.append_nil], data, rfl⟩

namespace WriteFraming

open Chunks

variable {base : List (List UInt8)} {data : List UInt8}

/-- Some of the chunks of the data have been sent, and the others are queued. -/
def draining (base : List (List UInt8)) (data : List UInt8) :
    Assertion InCompletion (Sending (FromWrite base data)) where
  holds s := ∃ sent queue, sent ++ chunks defUsbdFsPackSize queue = chunks defUsbdFsPackSize data ∧
    (outside (FromWrite base data) (base ++ sent) queue).holds s
  stable s s' h hr := by
    obtain ⟨sent, queue, hcut, hs⟩ := h
    exact ⟨sent, queue, hcut, (outside _ _ _).stable s s' hs hr⟩
  safe s h := by
    obtain ⟨sent, queue, -, hs⟩ := h
    exact (outside _ _ _).safe s hs

theorem fromWrite_of_cut {sent : List (List UInt8)} {queue : List UInt8}
    (hcut : sent ++ chunks defUsbdFsPackSize queue = chunks defUsbdFsPackSize data) :
    FromWrite base data (base ++ sent) := by
  have hflatten := congrArg List.flatten hcut
  rw [List.flatten_append, flatten_chunks (by decide), flatten_chunks (by decide)] at hflatten
  exact ⟨sent, rfl, queue, hflatten⟩

theorem draining_txKick {sent : List (List UInt8)} {queue : List UInt8} (hqueue : queue ≠ [])
    (hcut : sent ++ chunks defUsbdFsPackSize queue = chunks defUsbdFsPackSize data) :
    Outline InCompletion (Sending (FromWrite base data))
      (outside (FromWrite base data) (base ++ sent) queue) txKick fun _ => draining base data := by
  have hnext : (sent ++ [queue.take defUsbdFsPackSize]) ++
      chunks defUsbdFsPackSize (queue.drop defUsbdFsPackSize) = chunks defUsbdFsPackSize data := by
    rw [← hcut, chunks_of_ne_nil (by decide) hqueue, List.append_assoc, List.singleton_append]
  refine txKick_outline hqueue ?_ (fun s hs => ⟨sent, queue, hcut, hs⟩) fun s hs =>
    ⟨_, _, hnext, ?_⟩
  · rw [List.append_assoc]
    exact fromWrite_of_cut hnext
  · rwa [List.append_assoc] at hs

theorem drainTurn_outline :
    Outline InCompletion (Sending (FromWrite base data)) (draining base data) drainTurn fun again =>
      if again then draining base data
      else outside (FromWrite base data) (base ++ chunks defUsbdFsPackSize data) [] := by
  refine .split (fun i : {i : List (List UInt8) × List UInt8 //
      i.1 ++ chunks defUsbdFsPackSize i.2 = chunks defUsbdFsPackSize data} =>
    outside (FromWrite base data) (base ++ i.1.1) i.1.2) (fun s hs => ?_) fun i => ?_
  · obtain ⟨sent, queue, hcut, hs⟩ := hs
    exact ⟨⟨(sent, queue), hcut⟩, hs⟩
  obtain ⟨⟨sent, queue⟩, hcut⟩ := i
  have hpending : Outline InCompletion (Sending (FromWrite base data))
      (outside (FromWrite base data) (base ++ sent) queue) usbSerialTxPending fun pending =>
      (outside (FromWrite base data) (base ++ sent) queue).guard (pending = queue.length) :=
    TransmitStream.usbSerialTxPending_outline fun s hs => hs.1.holding []
  refine hpending.bind fun pending => .assume (fun s hs => hs.2) fun heq => ?_
  subst heq
  by_cases hq : queue.length > 0
  · rw [if_pos hq]
    exact Outline.bind ((draining_txKick (List.length_pos_iff.mp hq) hcut).weaken
      fun s hs => hs.1) fun _ => .ret fun s hs => hs
  · obtain rfl : queue = [] := List.length_eq_zero_iff.mp (by omega)
    rw [chunks_nil, List.append_nil] at hcut
    rw [if_neg hq, ← hcut]
    exact .ret fun s hs => hs.1

theorem writeAndDrain_outline (hlen : 0 < data.length) (hfits : data.length ≤ txRingSize - 1) :
    Outline InCompletion (Sending (FromWrite base data)) (outside (FromWrite base data) base [])
      (writeAndDrain data) fun _ =>
      outside (FromWrite base data) (base ++ chunks defUsbdFsPackSize data) [] := by
  have hfits' : ([] : List UInt8).length + data.length ≤ txRingSize - 1 := by
    rwa [List.length_nil, Nat.zero_add]
  have hkick : Outline InCompletion (Sending (FromWrite base data))
      (outside (FromWrite base data) (base ++ []) data) txKick fun _ => draining base data :=
    draining_txKick (List.length_pos_iff.mp hlen) rfl
  rw [List.append_nil] at hkick
  refine Outline.bind (M := fun _ => draining base data) ?_ fun _ => .whileTrue drainTurn_outline
  exact (enqueue_outline data hfits').bind fun written => hkick.bind fun _ => .ret fun s hs => hs

section Zlp

variable {J : List (List UInt8) → Prop} {packets : List (List UInt8)}

/-- When the wait ends on an idle endpoint the empty packet is handed over. -/
theorem zlpAfterWait_idle_outline (hJ : J (packets ++ [[]])) :
    Outline InCompletion (Sending J) (idle J packets []) zlpAfterWait fun _ =>
      outside J (packets ++ [[]]) [] := by
  refine .load_bind (fun busy => (idle J packets []).guard (busy = 0))
    (fun s hs => ⟨hs, hs.1.endpBusy⟩) fun busy => .assume (fun s hs => hs.2) fun hbusy => ?_
  rw [if_pos hbusy]
  exact Outline.bind ((usbfsEndpDataUp_outline hJ).weaken fun s hs => hs.1) fun _ =>
    .ret fun s hs => hs.1

theorem zlpAfterWait_outline (hJ : J (packets ++ [[]])) {M : Assertion InCompletion (Sending J)}
    (hsame : ∀ s, (outside J packets []).holds s → M.holds s)
    (hsent : ∀ s, (outside J (packets ++ [[]]) []).holds s → M.holds s) :
    Outline InCompletion (Sending J) (outside J packets []) zlpAfterWait fun _ => M := by
  refine .load_bind (fun busy => if busy = 0 then idle J packets [] else outside J packets [])
    (fun s hs => ?_) fun busy => ?_
  · split_ifs with hbusy
    · exact ⟨idle_of_outside hs hbusy, trivial⟩
    · exact hs
  by_cases hbusy : busy = 0
  · rw [if_pos hbusy, if_pos hbusy]
    exact (usbfsEndpDataUp_outline hJ).bind fun _ => .ret fun s hs => hsent s hs.1
  · rw [if_neg hbusy, if_neg hbusy]
    exact .ret fun s hs => hsame s hs

end Zlp

/-- All data of the write has been sent. -/
def ended (base : List (List UInt8)) (data : List UInt8) :
    Assertion InCompletion (Sending (FromWrite base data)) where
  holds s := ∃ sent, sent.flatten = data ∧ (outside (FromWrite base data) (base ++ sent) []).holds s
  stable s s' h hr := by
    obtain ⟨sent, hsent, hs⟩ := h
    exact ⟨sent, hsent, (outside _ _ _).stable s s' hs hr⟩
  safe s h := by
    obtain ⟨sent, -, hs⟩ := h
    exact (outside _ _ _).safe s hs

/-- A write whose packets are taken at any time at all. -/
theorem usbSerialBlockingWriteP_outline (hlen : 0 < data.length)
    (hfits : data.length ≤ txRingSize - 1) :
    Outline InCompletion (Sending (FromWrite base data)) (outside (FromWrite base data) base [])
      (usbSerialBlockingWriteP data) fun _ => ended base data := by
  have hflatten : (chunks defUsbdFsPackSize data).flatten = data := flatten_chunks (by decide) data
  by_cases hdvd : data.length % 64 = 0
  · have hempty : (chunks defUsbdFsPackSize data ++ [[]]).flatten = data := by
      rw [List.flatten_append, hflatten, List.flatten_singleton, List.append_nil]
    have hallowed : FromWrite base data (base ++ chunks defUsbdFsPackSize data ++ [[]]) :=
      ⟨_, List.append_assoc _ _ _, [], by rw [List.append_nil, hempty]⟩
    rw [usbSerialBlockingWriteP_of_dvd hlen hdvd]
    refine Outline.bind ((writeAndDrain_outline hlen hfits).bind fun _ =>
      TransmitStream.waitIdle_outline 50000) fun _ => ?_
    refine zlpAfterWait_outline hallowed (fun s hs => ⟨_, hflatten, hs⟩) fun s hs =>
      ⟨_, hempty, ?_⟩
    rwa [← List.append_assoc]
  · rw [usbSerialBlockingWriteP_of_not_dvd hdvd]
    exact (writeAndDrain_outline hlen hfits).post fun _ s hs => ⟨_, hflatten, hs⟩

end WriteFraming

/-! ### One write -/

/-- A blocking write that returns, with the armed packet taken when the wait of `usbSerialSendZlp`
has ended, and no completion inside `usbfsEndpDataUp`. -/
def WritesInTime (data : List UInt8) (s s' : TxState) : Prop :=
  if data.length % 64 = 0 then
    ∃ s₁, Reaches OutsideCompletion (untilWaitEnds data, s) (.ret (), s₁) ∧ ¬ s₁.Armed ∧
      Reaches OutsideCompletion (zlpAfterWait, s₁) (.ret (), s')
  else Reaches OutsideCompletion (usbSerialBlockingWriteP data, s) (.ret (), s')

/-- The packets are full ones and then a shorter one, perhaps empty, and carry the data. -/
def BulkTransfer (data : List UInt8) (packets : List (List UInt8)) : Prop :=
  ∃ full last, packets = full ++ [last] ∧ full.length = data.length / 64 ∧
    (∀ packet ∈ full, packet.length = 64) ∧ last.length = data.length % 64 ∧
    full.flatten ++ last = data

open WriteFraming Chunks

section Write

variable {data : List UInt8} {s s' : TxState}

/-- The chunks are a bulk transfer, except that an empty last packet is missing. -/
theorem chunks_transfer (data : List UInt8) :
    ∃ full last, chunks defUsbdFsPackSize data = (full ++ if last = [] then [] else [last]) ∧
      last.length = data.length % 64 ∧ BulkTransfer data (full ++ [last]) := by
  have hsize : 0 < defUsbdFsPackSize := by decide
  obtain ⟨full, last, heq, hfull, hlast⟩ := chunks_eq hsize data
  have hdata : full.flatten ++ last = data := by
    have hflatten := flatten_chunks hsize data
    rw [heq, List.flatten_append] at hflatten
    split_ifs at hflatten with hnil
    · rwa [hnil]
    · rwa [List.flatten_singleton] at hflatten
  have hlen : data.length = 64 * full.length + last.length := by
    rw [← hdata, List.length_append, length_flatten_of_forall hfull]
    rfl
  have hlast' : last.length < 64 := hlast
  exact ⟨full, last, heq, by omega, full, last, rfl, by omega, hfull, by omega, hdata⟩

theorem bulkTransfer_chunks_of_dvd (hdvd : data.length % 64 = 0) :
    BulkTransfer data (chunks defUsbdFsPackSize data ++ [[]]) := by
  obtain ⟨full, last, heq, hlast, htransfer⟩ := chunks_transfer data
  obtain rfl : last = [] := List.length_eq_zero_iff.mp (hlast.trans hdvd)
  rwa [heq, if_pos rfl, List.append_nil]

theorem bulkTransfer_chunks_of_not_dvd (hdvd : data.length % 64 ≠ 0) :
    BulkTransfer data (chunks defUsbdFsPackSize data) := by
  obtain ⟨full, last, heq, hlast, htransfer⟩ := chunks_transfer data
  have hne : last ≠ [] := by
    rintro rfl
    exact hdvd hlast.symm
  rwa [heq, if_neg hne]

theorem WritesInTime.reaches (hlen : 0 < data.length) (h : WritesInTime data s s') :
    Reaches OutsideCompletion (usbSerialBlockingWriteP data, s) (.ret (), s') := by
  unfold WritesInTime at h
  split_ifs at h with hdvd
  · obtain ⟨s₁, hwait, -, hzlp⟩ := h
    rw [usbSerialBlockingWriteP_of_dvd hlen hdvd]
    exact hwait.seq hzlp
  · exact h

theorem TxRest.outside_fromWrite (hs : TxRest s) (data : List UInt8) :
    (WriteFraming.outside (FromWrite s.handed data) s.handed []).holds s :=
  ⟨⟨hs.toTxInv, fromWrite_base, hs.connected, rfl, hs.queued⟩, hs.flag.mpr⟩

/-- The busy flag is exact after a run without completions inside `usbfsEndpDataUp`. -/
theorem busyFlag_returned {p : Thread TxState Unit} (hs : TxRest s)
    (hp : Outline BenignInterrupt BusyInv BusyFlag.outside p fun _ => BusyFlag.outside)
    (h : Reaches OutsideCompletion (p, s) (.ret (), s')) : BusyFlag.outside.holds s' := by
  have hstart : BusyFlag.outside.holds s := ⟨hs.inDataUp, hs.flag⟩
  have hbenign : ∀ s s', BusyInv s → OutsideCompletion s s' → BenignInterrupt s s' :=
    fun s s' hI hr => .inl ⟨.inl hr.1, (hI hr.2).mpr⟩
  exact hp.returned hstart (hp.reaches_of_rely hstart hbenign h)

/-- A write that returns leaves the transmit half at rest again. -/
theorem TxRest.of_write (hs : TxRest s) (hlen : 0 < data.length)
    (hfits : data.length ≤ txRingSize - 1)
    (h : Reaches OutsideCompletion (usbSerialBlockingWriteP data, s) (.ret (), s')) : TxRest s' := by
  obtain ⟨_, -, hsent⟩ := (usbSerialBlockingWriteP_outline hlen hfits).returned
    (hs.outside_fromWrite data) (h.mono fun _ _ hr => hr.1)
  have hflag := busyFlag_returned hs (BusyFlag.usbSerialBlockingWriteP_outline data) h
  exact ⟨hsent.1.toTxInv, hsent.1.connected, hsent.1.queued, hflag.1, hflag.2⟩

/-- The packets of a write in time are a bulk transfer of its data. -/
theorem WritesInTime.bulkTransfer (hs : TxRest s) (hlen : 0 < data.length)
    (hfits : data.length ≤ txRingSize - 1) (h : WritesInTime data s s') :
    ∃ packets, s'.handed = s.handed ++ packets ∧ BulkTransfer data packets := by
  unfold WritesInTime at h
  split_ifs at h with hdvd
  · obtain ⟨s₁, hwait, hnot, hzlp⟩ := h
    have htransfer := bulkTransfer_chunks_of_dvd hdvd
    have hempty : (chunks defUsbdFsPackSize data ++ [[]]).flatten = data := by
      rw [List.flatten_append, flatten_chunks (by decide), List.flatten_singleton,
        List.append_nil]
    have hsent := ((writeAndDrain_outline hlen hfits).bind fun _ =>
      TransmitStream.waitIdle_outline 50000).returned (hs.outside_fromWrite data)
      (hwait.mono fun _ _ hr => hr.1)
    have hflag := busyFlag_returned hs (((BusyFlag.usbSerialWriteP_outline data).bind fun _ =>
      BusyFlag.drain_outline).bind fun _ => BusyFlag.waitIdle_outline 50000) hwait
    have hbusy : s₁.endpBusy = 0 := by
      by_contra hne
      exact hnot (hflag.2.mp hne)
    have hzlpSent := (zlpAfterWait_idle_outline ⟨_, List.append_assoc _ _ _, [],
      by rw [List.append_nil, hempty]⟩).returned ⟨idle_of_outside hsent hbusy, trivial⟩
      (hzlp.mono fun _ _ hr => hr.1)
    exact ⟨_, hzlpSent.1.sent.trans (List.append_assoc _ _ _), htransfer⟩
  · rw [usbSerialBlockingWriteP_of_not_dvd hdvd] at h
    have hsent := (writeAndDrain_outline hlen hfits).returned (hs.outside_fromWrite data)
      (h.mono fun _ _ hr => hr.1)
    exact ⟨_, hsent.1.sent, bulkTransfer_chunks_of_not_dvd hdvd⟩

theorem writeAndDrain_finishes (data : List UInt8) (hs : TxRest s) :
    Finishes OutsideCompletion (writeAndDrain data) s fun _ => TransmitStream.Rested := by
  refine (finishes_alone (loopFree_usbSerialWriteP data)
    (TransmitStream.usbSerialWriteP_outline data) (BusyFlag.usbSerialWriteP_outline data)
    hs.outside hs.rested.2).bind fun written s₁ h₁ => ?_
  obtain ⟨a, s₂, hrun, h₂⟩ := drain_finishes h₁.1.1 h₁.2
  exact ⟨a, s₂, hrun, ⟨_, h₂.1⟩, h₂.2⟩

/-- The host may take the armed packet before the wait begins. -/
theorem waitIdle_finishes (turns : ℕ) (hs : TransmitStream.Rested s) :
    Finishes OutsideCompletion (waitIdle turns) s fun _ s₁ => ¬ s₁.Armed := by
  obtain ⟨⟨acc, hout⟩, hb⟩ := hs
  have hwait : ∀ s, (TransmitStream.idle true acc [] 0).holds s →
      Finishes OutsideCompletion (waitIdle turns) s fun _ s₁ => ¬ s₁.Armed := by
    intro s hidle
    obtain ⟨a, s₁, hrun⟩ := (loopFree_waitIdle turns).returns (fun _ _ => False) s
    have h₁ := (TransmitStream.waitIdle_outline turns).returned hidle
      (hrun.mono fun _ _ hr => hr.elim)
    exact ⟨a, s₁, hrun.mono fun _ _ hr => hr.elim, h₁.1.not_armed⟩
  by_cases harm : s.Armed
  · exact .interrupt ⟨⟨harm, rfl⟩, hb.1⟩ (hwait _ (idle_complete hout harm))
  · have hbusy : s.endpBusy = 0 := by
      by_contra hne
      exact harm (hb.2.mp hne)
    exact hwait s ⟨TransmitStream.idle_of_outside hout hbusy, trivial⟩

/-- A write can return in time. -/
theorem writesInTime_exists (hs : TxRest s) (data : List UInt8) : ∃ s', WritesInTime data s s' := by
  unfold WritesInTime
  split_ifs with hdvd
  · obtain ⟨_, s₁, hwait, hnot⟩ := (writeAndDrain_finishes data hs).bind fun _ _ hrested =>
      waitIdle_finishes 50000 hrested
    have hloop : LoopFree zlpAfterWait := by
      apply (LoopFree.load _).bind
      intro busy
      split_ifs
      · exact (loopFree_usbfsEndpDataUp []).bind fun _ => .ret _
      · exact .ret _
    obtain ⟨_, s', hzlp⟩ := hloop.returns OutsideCompletion s₁
    exact ⟨s', s₁, hwait, hnot, hzlp⟩
  · obtain ⟨_, s', h, -⟩ := usbSerialBlockingWriteP_finishes data hs.rested
    exact ⟨s', h⟩

end Write

/-! ### Sequences of writes -/

/-- The packets fall into one group for each finished write, which carries its data, and the packets
of the write that is in progress. -/
def Unmixed (calls : List (List UInt8)) (packets : List (List UInt8)) : Prop :=
  ∃ groups last, packets = groups.flatten ++ last ∧
    List.Forall₂ (fun group data => group.flatten = data) groups (calls.take groups.length) ∧
    last.flatten <+: (calls[groups.length]?).getD []

theorem unmixed_nil (calls : List (List UInt8)) : Unmixed calls [] :=
  ⟨[], [], rfl, .nil, List.nil_prefix⟩

theorem Unmixed.first {data : List UInt8} {rest packets : List (List UInt8)}
    (h : packets.flatten <+: data) : Unmixed (data :: rest) packets :=
  ⟨[], packets, rfl, .nil, h⟩

theorem Unmixed.cons {data : List UInt8} {rest group packets : List (List UInt8)}
    (hgroup : group.flatten = data) (h : Unmixed rest packets) :
    Unmixed (data :: rest) (group ++ packets) := by
  obtain ⟨groups, last, rfl, hgroups, hlast⟩ := h
  exact ⟨group :: groups, last, (List.append_assoc _ _ _).symm, .cons hgroup hgroups, hlast⟩

/-- In every run of writes from an empty ring, whenever the packets are taken. -/
theorem runRequests_unmixed (calls : List (List UInt8))
    (hcalls : ∀ data ∈ calls, 1 ≤ data.length ∧ data.length ≤ 2047)
    {J : List (List UInt8) → Prop} {base : List (List UInt8)} {s : TxState}
    (hs : (WriteFraming.outside J base []).holds s) (c : Config TxState Unit)
    (hc : Reaches InCompletion (runRequests (calls.map .blockingWriteP), s) c) :
    ∃ packets, c.2.handed = base ++ packets ∧ Unmixed calls packets := by
  induction calls generalizing J base s with
  | nil =>
    have hret : Outline InCompletion (Sending (· = base)) (WriteFraming.outside _ base [])
        (.ret ()) fun _ => WriteFraming.outside _ base [] := .ret fun s hs => hs
    have hstart : (WriteFraming.outside (· = base) base []).holds s :=
      ⟨⟨hs.1.toTxInv, rfl, hs.1.connected, hs.1.sent, hs.1.queued⟩, hs.2⟩
    have hhanded : c.2.handed = base := (hret.invariant hstart hc).2
    exact ⟨[], by rw [hhanded, List.append_nil], unmixed_nil []⟩
  | cons data rest ih =>
    obtain ⟨⟨hlen, hfits⟩, hrest⟩ := List.forall_mem_cons.mp hcalls
    have hstart : (WriteFraming.outside (FromWrite base data) base []).holds s :=
      ⟨⟨hs.1.toTxInv, fromWrite_base, hs.1.connected, hs.1.sent, hs.1.queued⟩, hs.2⟩
    have hwrite : Outline InCompletion (Sending (FromWrite base data))
        (WriteFraming.outside (FromWrite base data) base []) (usbSerialBlockingWriteP data)
        fun _ => ended base data := usbSerialBlockingWriteP_outline hlen hfits
    rcases Reaches.of_bind hc with ⟨p, s', hp, rfl⟩ | ⟨_, s₁, hp, hlater⟩
    · obtain ⟨packets, hhanded, hprefix⟩ := (hwrite.invariant hstart hp).2
      exact ⟨packets, hhanded, .first hprefix⟩
    · obtain ⟨sent, hsent, hended⟩ := hwrite.returned hstart hp
      obtain ⟨packets, hhanded, hunmixed⟩ := ih hrest hended hlater
      exact ⟨sent ++ packets, by rw [hhanded, List.append_assoc], hunmixed.cons hsent⟩

/-- Every write from rest that is in time is one bulk transfer and can happen, and in every sequence
of writes no packet carries bytes of two of them. -/
theorem blockingWrites_framed (s : TxState) (hs : TxRest s) :
    (∀ data : List UInt8, 1 ≤ data.length → data.length ≤ 2047 →
      (∃ s', WritesInTime data s s') ∧ ∀ s', WritesInTime data s s' →
        Reaches OutsideCompletion (usbSerialBlockingWriteP data, s) (.ret (), s') ∧ TxRest s' ∧
          ∃ packets, s'.handed = s.handed ++ packets ∧ BulkTransfer data packets) ∧
      ∀ calls : List (List UInt8), (∀ data ∈ calls, 1 ≤ data.length ∧ data.length ≤ 2047) →
        ∀ c, Reaches InCompletion (runRequests (calls.map .blockingWriteP), s) c →
          ∃ packets, c.2.handed = s.handed ++ packets ∧ Unmixed calls packets := by
  refine ⟨fun data hlen hfits => ⟨writesInTime_exists hs data, fun s' h => ?_⟩, ?_⟩
  · have hreaches := h.reaches hlen
    exact ⟨hreaches, hs.of_write hlen hfits hreaches, h.bulkTransfer hs hlen hfits⟩
  · intro calls hcalls c hc
    exact runRequests_unmixed calls hcalls (hs.outside_fromWrite []) c hc

/-- A write of one full packet, and two writes of one byte. -/
theorem blockingWrites_framed_start :
    (∃ s' packets, WritesInTime (List.replicate 64 7) TxState.start s' ∧ s'.handed = packets ∧
        BulkTransfer (List.replicate 64 7) packets) ∧
      ∀ c, Reaches InCompletion
          (runRequests [.blockingWriteP [1], .blockingWriteP [2]], TxState.start) c →
        Unmixed [[1], [2]] c.2.handed := by
  have hlen : (List.replicate 64 (7 : UInt8)).length = 64 := List.length_replicate
  obtain ⟨hframed, hunmixed⟩ := blockingWrites_framed TxState.start start_txRest
  refine ⟨?_, fun c hc => ?_⟩
  · obtain ⟨⟨s', hs'⟩, hall⟩ := hframed (List.replicate 64 7) (by omega) (by omega)
    obtain ⟨-, -, packets, hhanded, htransfer⟩ := hall s' hs'
    exact ⟨s', packets, hs', hhanded, htransfer⟩
  · have hcalls : ∀ data ∈ [[(1 : UInt8)], [2]], 1 ≤ data.length ∧ data.length ≤ 2047 := by decide
    obtain ⟨packets, hhanded, h⟩ := hunmixed [[1], [2]] hcalls c hc
    rwa [hhanded]

end Not232
