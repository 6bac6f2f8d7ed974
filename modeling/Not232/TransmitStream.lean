import Not232.UsbTransmit

/-!
# The transmitted stream

While endpoint 3 is not armed no completion can fall, so the main thread loads it undisturbed. The
packets handed over and the bytes queued then make up the accepted stream whenever the main thread
is outside the driver, and the endpoint never refuses a packet.
-/

namespace Not232

open Preemption Thread TxState

structure TxInv (s : TxState) : Prop where
  txHead_lt : s.txHead < txRingSize
  txTail_lt : s.txTail < txRingSize
  uep23Mod : s.uep23Mod = uep2RxEn ||| uep3TxEn
  refused : s.refused = false
  handed : s.handed = s.taken ++ s.armedPackets

def TxState.connected (s : TxState) : Bool := s.devEnumStatus == 1 && s.devConfig != 0

/-- The packets handed over, the bytes popped for the next packet and the `q` bytes queued are the
stream `acc`. -/
structure Holding (up : Bool) (acc pkt : List UInt8) (q : ℕ) (s : TxState) : Prop
    extends TxInv s where
  connected : s.connected = up
  stream : s.handed.flatten ++ pkt ++ s.queued = acc
  length : s.queued.length = q

structure Idle (up : Bool) (acc pkt : List UInt8) (q : ℕ) (s : TxState) : Prop
    extends Holding up acc pkt q s where
  not_armed : ¬ s.Armed
  endpBusy : s.endpBusy = 0

theorem TxInv.complete {s : TxState} (hs : TxInv s) (harm : s.Armed) : TxInv (complete s) where
  txHead_lt := hs.txHead_lt
  txTail_lt := hs.txTail_lt
  uep23Mod := hs.uep23Mod
  refused := hs.refused
  handed := by
    have h : s.handed = s.taken ++ [s.packet] := armedPackets_of_armed harm ▸ hs.handed
    rw [armedPackets_of_not_armed (not_armed_complete s), List.append_nil]
    exact h

theorem Holding.complete {up : Bool} {acc pkt : List UInt8} {q : ℕ} {s : TxState}
    (hs : Holding up acc pkt q s) (harm : s.Armed) : Holding up acc pkt q (complete s) :=
  ⟨hs.toTxInv.complete harm, hs.connected, hs.stream, hs.length⟩

/-- The flags do not matter to the stream. -/
theorem Holding.mark {up : Bool} {acc pkt : List UInt8} {q : ℕ} {s : TxState}
    (hs : Holding up acc pkt q s) (busy : UInt8) (inDataUp : Bool) :
    Holding up acc pkt q { s with endpBusy := busy, inDataUp := inDataUp } :=
  ⟨⟨hs.txHead_lt, hs.txTail_lt, hs.uep23Mod, hs.refused, hs.handed⟩, hs.connected, hs.stream,
    hs.length⟩

theorem Idle.mark {up : Bool} {acc pkt : List UInt8} {q : ℕ} {s : TxState}
    (hs : Idle up acc pkt q s) (inDataUp : Bool) :
    Idle up acc pkt q { s with inDataUp := inDataUp } :=
  ⟨hs.toHolding.mark s.endpBusy inDataUp, hs.not_armed, hs.endpBusy⟩

theorem TxInv.ringCount_eq {s : TxState} (hs : TxInv s) :
    ringCount s.txHead s.txTail txRingSize = s.queued.length := by
  rw [queued, RingBuffer.length_contents, ringCount_eq_occupied hs.txTail_lt (by decide)]

theorem TxInv.ringFree_eq {s : TxState} (hs : TxInv s) :
    ringFree s.txHead s.txTail txRingSize = txRingSize - 1 - s.queued.length := by
  rw [queued, RingBuffer.length_contents, Not232.ringFree_eq hs.txHead_lt hs.txTail_lt (by decide)]

/-- The buffer of an endpoint that is not armed may be filled. -/
theorem Idle.fill {up : Bool} {acc pkt : List UInt8} {q : ℕ} {s : TxState}
    (hs : Idle up acc pkt q s) (buf : ℕ → UInt8) (len : ℕ) :
    Idle up acc pkt q { s with ep3Buf := buf, uep3TxLen := len } := by
  have hnone : s.armedPackets = [] := armedPackets_of_not_armed hs.not_armed
  have hhanded : s.handed = s.taken ++ [] := hnone ▸ hs.handed
  refine ⟨⟨⟨hs.txHead_lt, hs.txTail_lt, hs.uep23Mod, hs.refused, ?_⟩, hs.connected, hs.stream,
    hs.length⟩, hs.not_armed, hs.endpBusy⟩
  exact hhanded.trans (congrArg (s.taken ++ ·) (if_neg hs.not_armed).symm)

theorem map_range_update (buf : ℕ → UInt8) (offset : ℕ) (b : UInt8) :
    (List.range (offset + 1)).map (Function.update buf offset b) =
      (List.range offset).map buf ++ [b] := by
  rw [List.range_succ, List.map_append, List.map_singleton, Function.update_self]
  congr 1
  apply List.map_congr_left
  intro i hi
  exact Function.update_of_ne (List.mem_range.mp hi).ne _ _

/-- Arming an idle endpoint hands its packet over. -/
theorem Idle.arm {up : Bool} {acc pkt : List UInt8} {q : ℕ} {s : TxState}
    (hs : Idle up acc pkt q s) (hpkt : s.packet = pkt) (ctrl : UInt8) :
    Holding up acc [] q
      { s with
        uep3TxCtrl := (ctrl &&& ~~~uepTResMask) ||| uepTResAck
        handed := s.handed ++ [s.packet] } := by
  have harm : (ctrl &&& ~~~uepTResMask ||| uepTResAck) &&& uepTResMask = uepTResAck :=
    and_not_or_and ctrl uepTResMask uepTResAck
  have hnone : s.armedPackets = [] := armedPackets_of_not_armed hs.not_armed
  have hhanded : s.handed = s.taken := by rw [hs.handed, hnone, List.append_nil]
  refine ⟨⟨hs.txHead_lt, hs.txTail_lt, hs.uep23Mod, hs.refused, ?_⟩, hs.connected, ?_, hs.length⟩
  · exact (congrArg (· ++ [s.packet]) hhanded).trans (congrArg (s.taken ++ ·) (if_pos harm).symm)
  · rw [← hs.stream, hpkt, List.flatten_append, List.flatten_singleton, List.append_nil]
    rfl

/-- Popping a byte moves it from the ring to the packet. -/
theorem Idle.pop {up : Bool} {acc pkt : List UInt8} {q : ℕ} {s : TxState}
    (hs : Idle up acc pkt (q + 1) s) :
    Idle up acc (pkt ++ [s.txRing s.txTail]) q
      { s with txTail := uint16 ((s.txTail + 1) % txRingSize : ℕ) } := by
  have hne : s.txHead ≠ s.txTail := by
    intro h
    have hlen : s.queued.length = q + 1 := hs.length
    rw [queued, h, RingBuffer.contents_self] at hlen
    exact absurd hlen (by simp)
  have hd : s.queued = _ :: _ := RingBuffer.contents_drain hs.txHead_lt hs.txTail_lt hne
  have hlen : s.queued.length = q + 1 := hs.length
  have hstream : s.handed.flatten ++ pkt ++ s.queued = acc := hs.stream
  rw [hd, List.length_cons, Nat.add_right_cancel_iff] at hlen
  rw [hd] at hstream
  rw [uint16_next hs.txTail_lt (by decide)]
  refine ⟨⟨⟨hs.txHead_lt, RingBuffer.next_lt hs.txTail_lt, hs.uep23Mod, hs.refused, hs.handed⟩,
    hs.connected, ?_, hlen⟩, hs.not_armed, hs.endpBusy⟩
  rw [← hstream]
  simp only [List.append_assoc, List.singleton_append]
  rfl

/-- A byte stored at the head is not queued yet. -/
theorem Holding.put {up : Bool} {acc pkt : List UInt8} {q : ℕ} {s : TxState}
    (hs : Holding up acc pkt q s) (b : UInt8) :
    Holding up acc pkt q { s with txRing := Function.update s.txRing s.txHead b } := by
  have hsame : RingBuffer.contents (Function.update s.txRing s.txHead b) txRingSize s.txHead
      s.txTail = s.queued := RingBuffer.contents_update b hs.txHead_lt hs.txTail_lt
  refine ⟨⟨hs.txHead_lt, hs.txTail_lt, hs.uep23Mod, hs.refused, hs.handed⟩, hs.connected, ?_, ?_⟩
  · rw [← hs.stream]
    exact congrArg (s.handed.flatten ++ pkt ++ ·) hsame
  · rw [← hs.length]
    exact congrArg List.length hsame

/-- Storing `txHead` after a byte queues it. -/
theorem Holding.push {up : Bool} {acc : List UInt8} {q : ℕ} {s : TxState}
    (hs : Holding up acc [] q s) (hq : q < txRingSize - 1) :
    Holding up (acc ++ [s.txRing s.txHead]) [] (q + 1)
      { s with txHead := uint16 ((s.txHead + 1) % txRingSize : ℕ) } := by
  have hlen : RingBuffer.occupied txRingSize s.txHead s.txTail = q :=
    RingBuffer.length_contents.symm.trans hs.length
  have hf : RingBuffer.occupied txRingSize s.txHead s.txTail + 1 < txRingSize := by omega
  have hn : RingBuffer.contents s.txRing txRingSize (RingBuffer.next txRingSize s.txHead) s.txTail =
      s.queued ++ [s.txRing s.txHead] := RingBuffer.contents_next hs.txHead_lt hs.txTail_lt hf
  rw [uint16_next hs.txHead_lt (by decide)]
  refine ⟨⟨RingBuffer.next_lt hs.txHead_lt, hs.txTail_lt, hs.uep23Mod, hs.refused, hs.handed⟩,
    hs.connected, ?_, ?_⟩
  · rw [← hs.stream, List.append_assoc _ s.queued, ← hn]
    rfl
  · have hlen' := congrArg List.length hn
    rwa [List.length_append, hs.length, List.length_singleton] at hlen'

/-! ### Handing a packet over -/

/-- The endpoint is idle in the states `B`, whatever is in its buffer. -/
structure QuietEndpoint (I B : TxState → Prop) : Prop where
  safe : ∀ s, B s → I s
  not_armed : ∀ s, B s → ¬ s.Armed
  endpBusy : ∀ s, B s → s.endpBusy = 0
  uep23Mod : ∀ s, B s → s.uep23Mod = uep2RxEn ||| uep3TxEn
  fill : ∀ s, B s → ∀ buf len, B { s with ep3Buf := buf, uep3TxLen := len }
  enter : ∀ s, B s → B { s with inDataUp := true }

namespace QuietEndpoint

variable {I B : TxState → Prop}

/-- Nothing interferes with an idle endpoint. -/
def and (hB : QuietEndpoint I B) (F : TxState → Prop) : Assertion InCompletion I where
  holds s := B s ∧ F s
  stable s _ h hr := absurd hr.1 (hB.not_armed s h.1)
  safe s h := hB.safe s h.1

theorem memcpyEp3_outline (hB : QuietEndpoint I B) (offset : ℕ) (data copied : List UInt8) :
    Outline InCompletion I (hB.and fun s => (List.range offset).map s.ep3Buf = copied)
      (memcpyEp3 offset data) fun _ =>
      hB.and fun s => (List.range (offset + data.length)).map s.ep3Buf = copied ++ data := by
  induction data generalizing offset copied with
  | nil => exact .ret fun s hs => ⟨hs.1, by rw [List.append_nil]; exact hs.2⟩
  | cons b rest ih =>
    refine .store_bind (hB.and fun s =>
      (List.range (offset + 1)).map s.ep3Buf = copied ++ [b]) (fun s hs => ⟨?_, ?_⟩) ?_
    · exact hB.fill s hs.1 _ s.uep3TxLen
    · exact (map_range_update s.ep3Buf offset b).trans (congrArg (· ++ [b]) hs.2)
    · have hlen : offset + (b :: rest).length = offset + 1 + rest.length := by
        rw [List.length_cons]
        omega
      have h := ih (offset + 1) (copied ++ [b])
      rwa [List.append_assoc, List.singleton_append, ← hlen] at h

/-- Loading an idle endpoint arms it with the whole packet, and then sets its busy flag. -/
theorem loadAndArm_outline (hB : QuietEndpoint I B) {P Q : Assertion InCompletion I}
    {pkt : List UInt8}
    (harm : ∀ s, B s → s.packet = pkt → ∀ ctrl, P.holds
      { s with
        uep3TxCtrl := (ctrl &&& ~~~uepTResMask) ||| uepTResAck
        handed := s.handed ++ [s.packet] })
    (hbusy : ∀ s, P.holds s → Q.holds { s with endpBusy := 0x01 }) :
    Outline InCompletion I (hB.and fun _ => True) (loadAndArm pkt) fun result =>
      Q.guard (result = 0) := by
  refine .load_bind (fun mode => (hB.and fun _ => True).guard (mode = uep2RxEn ||| uep3TxEn))
    (fun s hs => ⟨hs, hB.uep23Mod s hs.1⟩) fun mode => ?_
  refine .assume (fun s hs => hs.2) fun hmode => ?_
  subst hmode
  rw [if_neg (by decide), if_pos (by decide)]
  refine Outline.bind (M := fun _ => hB.and fun s =>
    (List.range pkt.length).map s.ep3Buf = pkt) ?_ fun _ => ?_
  · have h := hB.memcpyEp3_outline 0 pkt []
    rw [Nat.zero_add, List.nil_append] at h
    exact h.weaken fun s hs => ⟨hs.1.1, rfl⟩
  refine .store_bind (hB.and fun s => s.packet = pkt)
    (fun s hs => ⟨hB.fill s hs.1 s.ep3Buf _, hs.2⟩) ?_
  refine .load_skip fun ctrl => .store_bind P (fun s hs => harm s hs.1 hs.2 ctrl) ?_
  exact .store_bind Q hbusy (.ret fun s hs => ⟨hs, rfl⟩)

theorem usbfsEndpDataUp_outline (hB : QuietEndpoint I B) {P Q : Assertion InCompletion I}
    {pkt : List UInt8}
    (harm : ∀ s, B s → s.packet = pkt → ∀ ctrl, P.holds
      { s with
        uep3TxCtrl := (ctrl &&& ~~~uepTResMask) ||| uepTResAck
        handed := s.handed ++ [s.packet] })
    (hbusy : ∀ s, P.holds s → Q.holds { s with endpBusy := 0x01 })
    (hleave : ∀ s, Q.holds s → Q.holds { s with inDataUp := false }) :
    Outline InCompletion I (hB.and fun _ => True) (usbfsEndpDataUp pkt) fun result =>
      Q.guard (result = 0) := by
  refine .store_bind (hB.and fun _ => True) (fun s hs => ⟨hB.enter s hs.1, trivial⟩) ?_
  refine .load_bind (fun busy => (hB.and fun _ => True).guard (busy = 0))
    (fun s hs => ⟨hs, hB.endpBusy s hs.1⟩) fun busy => ?_
  refine .assume (fun s hs => hs.2) fun hzero => ?_
  subst hzero
  refine Outline.bind (M := fun result => Q.guard (result = 0)) ?_ fun result => ?_
  · exact (hB.loadAndArm_outline harm hbusy).weaken fun s hs => hs.1
  · exact .store_bind (Q.guard (result = 0)) (fun s hs => ⟨hleave s hs.1, hs.2⟩)
      (.ret fun s hs => hs)

end QuietEndpoint

namespace TransmitStream

variable (up : Bool) (acc pkt : List UInt8) (q : ℕ)

/-- The main thread is inside the driver, and has armed the endpoint. -/
def handing : Assertion InCompletion TxInv where
  holds := Holding up acc [] q
  stable s s' h hr := by
    obtain ⟨harm, rfl⟩ := hr
    exact h.complete harm
  safe _ h := h.toTxInv

/-- The main thread is outside `usbfsEndpDataUp`. -/
def outside : Assertion InCompletion TxInv :=
  (handing up acc q).and (fun s => s.Armed → s.endpBusy ≠ 0) fun s s' _ _ hr harm => by
    obtain ⟨_, rfl⟩ := hr
    exact absurd harm (not_armed_complete s)

/-- The endpoint is idle, and `F` besides; nothing interferes with it. -/
def idleWith (F : TxState → Prop) : Assertion InCompletion TxInv where
  holds s := Idle up acc pkt q s ∧ F s
  stable _ _ h hr := absurd hr.1 h.1.not_armed
  safe _ h := h.1.toTxInv

def idle : Assertion InCompletion TxInv := idleWith up acc pkt q fun _ => True

/-- The main thread is outside the driver. -/
def between : Assertion InCompletion TxInv where
  holds s := ∃ q, (outside up acc q).holds s
  stable s s' h hr := by
    obtain ⟨q, hq⟩ := h
    exact ⟨q, (outside up acc q).stable s s' hq hr⟩
  safe _ h := by
    obtain ⟨q, hq⟩ := h
    exact hq.1.toTxInv

variable {up acc pkt q}

theorem outside_of_idle {s : TxState} (h : Idle up acc [] q s) : (outside up acc q).holds s :=
  ⟨h.toHolding, fun harm => absurd harm h.not_armed⟩

theorem idle_of_outside {s : TxState} (h : (outside up acc q).holds s) (hbusy : s.endpBusy = 0) :
    Idle up acc [] q s :=
  ⟨h.1, fun harm => h.2 harm hbusy, hbusy⟩

theorem quiet_idle (up : Bool) (acc pkt : List UInt8) (q : ℕ) :
    QuietEndpoint TxInv (Idle up acc pkt q) where
  safe _ hs := hs.toTxInv
  not_armed _ hs := hs.not_armed
  endpBusy _ hs := hs.endpBusy
  uep23Mod _ hs := hs.uep23Mod
  fill _ hs buf len := hs.fill buf len
  enter _ hs := hs.mark true

theorem usbfsEndpDataUp_outline :
    Outline InCompletion TxInv (idle up acc pkt q) (usbfsEndpDataUp pkt) fun result =>
      (outside up acc q).guard (result = 0) := by
  have hset : (1 : UInt8) ≠ 0 := by decide
  exact (quiet_idle up acc pkt q).usbfsEndpDataUp_outline (P := handing up acc q)
    (fun s hs hpkt ctrl => hs.arm hpkt ctrl) (fun s hs => ⟨hs.mark 1 s.inDataUp, fun _ => hset⟩)
    fun s hs => ⟨hs.1.mark s.endpBusy false, hs.2⟩

theorem popPacket_outline (n k : ℕ) :
    Outline InCompletion TxInv (idle up acc [] (n + k)) (popPacket n) fun pkt =>
      idle up acc pkt k := by
  induction n generalizing k with
  | zero => exact .ret fun s hs => by rwa [Nat.zero_add] at hs
  | succ n ih =>
    have h := ih (k + 1)
    rw [← Nat.add_assoc, Nat.add_right_comm] at h
    apply h.bind
    intro pkt
    refine .load_bind (fun tail => idleWith up acc pkt (k + 1) fun s => tail = s.txTail)
      (fun s hs => ⟨hs.1, rfl⟩) fun tail => ?_
    refine .load_bind (fun b => idleWith up acc pkt (k + 1) fun s => s.txRing s.txTail = b)
      (fun s hs => ⟨hs.1, by rw [hs.2]⟩) fun b => ?_
    refine .load_bind (fun tail => idleWith up acc pkt (k + 1) fun s =>
      tail = s.txTail ∧ s.txRing s.txTail = b) (fun s hs => ⟨hs.1, rfl, hs.2⟩) fun tail => ?_
    refine .store_bind (idle up acc (pkt ++ [b]) k) (fun s hs => ?_) (.ret fun s hs => hs)
    obtain ⟨hidle, rfl, rfl⟩ := hs
    exact ⟨hidle.pop, trivial⟩

theorem sendPacket_outline :
    Outline InCompletion TxInv (idle up acc [] q) sendPacket fun _ =>
      outside up acc (q - defUsbdFsPackSize) := by
  refine .load_bind (fun head => idleWith up acc [] q fun s => head = s.txHead)
    (fun s hs => ⟨hs.1, rfl⟩) fun head => ?_
  refine .load_bind (fun tail => (idle up acc [] q).guard (ringCount head tail txRingSize = q))
    (fun s hs => ⟨⟨hs.1, trivial⟩, ?_⟩) fun tail => ?_
  · rw [hs.2, hs.1.ringCount_eq, hs.1.length]
  refine .assume (fun s hs => hs.2) fun hcnt => ?_
  dsimp only
  rw [hcnt]
  by_cases hq : q = 0
  · subst hq
    exact .ret fun s hs => outside_of_idle hs.1.1
  rw [if_neg hq]
  have hsplit : (if q > defUsbdFsPackSize then defUsbdFsPackSize else q) +
      (q - defUsbdFsPackSize) = q := by
    split_ifs <;> omega
  have hpop : Outline InCompletion TxInv (idle up acc [] (_ + _)) (popPacket _) fun pkt =>
      idle up acc pkt _ :=
    popPacket_outline (if q > defUsbdFsPackSize then defUsbdFsPackSize else q)
      (q - defUsbdFsPackSize)
  rw [hsplit] at hpop
  refine Outline.bind (hpop.weaken fun s hs => hs.1) fun pkt => ?_
  refine usbfsEndpDataUp_outline.bind fun result => .store fun s hs => ?_
  obtain ⟨hs, rfl⟩ := hs
  refine ⟨⟨⟨hs.1.txHead_lt, hs.1.txTail_lt, hs.1.uep23Mod, ?_, hs.1.handed⟩, hs.1.connected,
    hs.1.stream, hs.1.length⟩, hs.2⟩
  exact (Bool.or_false _).trans hs.1.refused

theorem usbSerialConnected_outline {I : TxState → Prop} {P : Assertion InCompletion I}
    (hP : ∀ s, P.holds s → s.connected = up) :
    Outline InCompletion I P usbSerialConnected fun connected => P.guard (connected = up) := by
  let afterStatus (status : UInt8) : Assertion InCompletion I :=
    P.and (fun s => status = s.devEnumStatus) fun s s' _ hs hr => by
      obtain ⟨_, rfl⟩ := hr
      exact hs
  refine .load_bind afterStatus (fun s hs => ⟨hs, rfl⟩) fun status => ?_
  by_cases hstatus : status = 0x01
  · rw [if_pos hstatus]
    refine .load_bind (fun config => P.guard ((config != 0) = up)) (fun s hs => ⟨hs.1, ?_⟩)
      fun config => .ret fun s hs => hs
    rw [← hP s hs.1, TxState.connected, ← hs.2, hstatus]
    rfl
  · rw [if_neg hstatus]
    refine .ret fun s hs => ⟨hs.1, ?_⟩
    rw [← hP s hs.1, TxState.connected, ← hs.2, beq_false_of_ne hstatus, Bool.false_and]

/-- A kick leaves everything as it is or sends a packet, which it can do only on an idle endpoint of a
connected device. -/
theorem txKick_cases_outline {I : TxState → Prop} {P M Q : Assertion InCompletion I}
    (hP : ∀ s, P.holds s → s.connected = up)
    (hidle : ∀ s, P.holds s → s.endpBusy = 0 → M.holds s)
    (hsend : up = true → Outline InCompletion I M sendPacket fun _ => Q)
    (hsame : ∀ s, P.holds s → Q.holds s) : Outline InCompletion I P txKick fun _ => Q := by
  apply (usbSerialConnected_outline hP).bind
  intro connected
  refine .assume (fun s hs => hs.2) fun hconnected => ?_
  subst hconnected
  by_cases hc : connected = true
  · rw [if_pos hc]
    refine .load_bind (fun busy => if busy = 0 then M else P) (fun s hs => ?_) fun busy => ?_
    · split_ifs with hbusy
      · exact hidle s hs.1 hbusy
      · exact hs.1
    by_cases hbusy : busy = 0
    · rw [if_pos hbusy, if_pos hbusy]
      exact hsend hc
    · rw [if_neg hbusy, if_neg hbusy]
      exact .ret hsame
  · rw [if_neg hc]
    exact .ret fun s hs => hsame s hs.1

theorem txKick_outline :
    Outline InCompletion TxInv (outside up acc q) txKick fun _ => between up acc :=
  txKick_cases_outline (M := idle up acc [] q) (fun _ hs => hs.1.connected)
    (fun _ hs hbusy => ⟨idle_of_outside hs hbusy, trivial⟩)
    (fun _ => sendPacket_outline.post fun _ _ hs => ⟨_, hs⟩) fun _ hs => ⟨q, hs⟩

/-- One turn of the loop that fills the ring, where `P` knows how much of it is free. The head and
the tail are the main thread's own; a completion leaves them alone. -/
theorem enqueue_cons_outline {I : TxState → Prop} {P M : Assertion InCompletion I}
    {Q : ℕ → Assertion InCompletion I} {b : UInt8} {rest : List UInt8} {free : ℕ}
    (hfree : ∀ s, P.holds s → ringFree s.txHead s.txTail txRingSize = free)
    (hfull : free = 0 → ∀ s, P.holds s → (Q 0).holds s)
    (hput : ∀ s, P.holds s →
      P.holds { s with txRing := Function.update s.txRing s.txHead b })
    (hpush : free ≠ 0 → ∀ s, P.holds s → s.txRing s.txHead = b →
      M.holds { s with txHead := uint16 ((s.txHead + 1) % txRingSize : ℕ) })
    (hrest : free ≠ 0 → Outline InCompletion I M (enqueue rest) fun written => Q (written + 1)) :
    Outline InCompletion I P (enqueue (b :: rest)) Q := by
  let atHead (head : ℕ) : Assertion InCompletion I :=
    P.and (fun s => head = s.txHead) fun s s' _ hs hr => by
      obtain ⟨_, rfl⟩ := hr
      exact hs
  let filled : Assertion InCompletion I :=
    P.and (fun s => s.txRing s.txHead = b) fun s s' _ hs hr => by
      obtain ⟨_, rfl⟩ := hr
      exact hs
  refine .load_bind atHead (fun s hs => ⟨hs, rfl⟩) fun head => ?_
  refine .load_bind (fun tail => P.guard (ringFree head tail txRingSize = free))
    (fun s hs => ⟨hs.1, ?_⟩) fun tail => ?_
  · rw [hs.2]
    exact hfree s hs.1
  refine .assume (fun s hs => hs.2) fun heq => ?_
  rw [heq]
  by_cases hzero : free = 0
  · rw [if_pos hzero]
    exact .ret fun s hs => hfull hzero s hs.1
  rw [if_neg hzero]
  refine .load_bind atHead (fun s hs => ⟨hs.1, rfl⟩) fun head => ?_
  refine .store_bind filled (fun s hs => ?_) ?_
  · obtain ⟨hs, rfl⟩ := hs
    exact ⟨hput s hs, Function.update_self _ _ _⟩
  refine .load_bind (fun head => filled.and (fun s => head = s.txHead) fun s s' _ hs hr => by
      obtain ⟨_, rfl⟩ := hr
      exact hs) (fun s hs => ⟨hs, rfl⟩) fun head => ?_
  refine .store_bind M (fun s hs => ?_) ?_
  · obtain ⟨⟨hs, hb⟩, rfl⟩ := hs
    exact hpush hzero s hs hb
  exact (hrest hzero).bind fun written => .ret fun s hs => hs

theorem enqueue_outline (data : List UInt8) :
    Outline InCompletion TxInv (outside up acc q) (enqueue data) fun written =>
      (outside up (acc ++ data.take written) (q + written)).guard
        (written = min data.length (txRingSize - 1 - q)) := by
  induction data generalizing acc q with
  | nil =>
    refine .ret fun s hs => ⟨?_, (Nat.zero_min _).symm⟩
    rwa [List.take_nil, List.append_nil]
  | cons b rest ih =>
    have hfree : ∀ s, (outside up acc q).holds s →
        ringFree s.txHead s.txTail txRingSize = txRingSize - 1 - q := fun s hs => by
      rw [hs.1.ringFree_eq, hs.1.length]
    refine enqueue_cons_outline (M := outside up (acc ++ [b]) (q + 1)) hfree
      (fun hzero s hs => ⟨?_, ?_⟩) (fun s hs => ⟨hs.1.put b, hs.2⟩) (fun hpos s hs hb => ?_)
      fun hpos => ?_
    · rwa [List.take_zero, List.append_nil]
    · rw [hzero, Nat.min_zero]
    · subst hb
      exact ⟨hs.1.push (by omega), hs.2⟩
    · refine ih.post fun written s hs => ⟨?_, ?_⟩
      · have h := hs.1
        rwa [List.append_assoc, List.singleton_append, ← List.take_succ_cons,
          Nat.add_assoc, Nat.add_comm 1] at h
      · have h := hs.2
        rw [List.length_cons]
        omega

theorem usbSerialWriteP_outline (data : List UInt8) :
    Outline InCompletion TxInv (outside up acc q) (usbSerialWriteP data) fun written =>
      (between up (acc ++ data.take written)).guard
        (written = min data.length (txRingSize - 1 - q)) := by
  apply (enqueue_outline data).bind
  intro written
  refine .assume (fun s hs => hs.2) fun hwritten => ?_
  have hkick : Outline InCompletion TxInv (outside up (acc ++ data.take written) (q + written))
      txKick fun _ => between up (acc ++ data.take written) := txKick_outline
  refine Outline.bind (hkick.weaken fun s hs => hs.1) fun _ => .ret fun s hs => ⟨hs, hwritten⟩

theorem waitIdle_outline {I : TxState → Prop} {P : Assertion InCompletion I} (turns : ℕ) :
    Outline InCompletion I P (waitIdle turns) fun _ => P := by
  induction turns with
  | zero => exact .load_skip fun busy => .ret fun s hs => hs
  | succ turns ih =>
    refine .load_skip fun busy => ?_
    split_ifs
    · exact .ret fun s hs => hs
    · exact ih

theorem usbSerialSendZlp_outline :
    Outline InCompletion TxInv (outside up acc q) usbSerialSendZlp fun _ => outside up acc q := by
  apply (waitIdle_outline 50000).bind
  intro _
  refine .load_bind (fun busy => if busy = 0 then idle up acc [] q else outside up acc q)
    (fun s hs => ?_) fun busy => ?_
  · split_ifs with hbusy
    · exact ⟨idle_of_outside hs hbusy, trivial⟩
    · exact hs
  by_cases hbusy : busy = 0
  · rw [if_pos hbusy, if_pos hbusy]
    exact usbfsEndpDataUp_outline.bind fun _ => .ret fun s hs => hs.1
  · rw [if_neg hbusy, if_neg hbusy]
    exact .ret fun s hs => hs

end TransmitStream

/-- A call of the driver's non-blocking interface. -/
inductive TxCall
  | writeP (data : List UInt8)
  | flush
  | sendZlp

/-- Runs a call and returns the prefix of its data that it reports as accepted. -/
def TxCall.run : TxCall → Thread TxState (List UInt8)
  | writeP data => do
    let written ← usbSerialWriteP data
    pure (data.take written)
  | flush => do
    usbSerialFlush
    pure []
  | sendZlp => do
    usbSerialSendZlp
    pure []

/-- Runs the calls in order and returns their accepted prefixes, concatenated. -/
def runCalls : List TxCall → Thread TxState (List UInt8)
  | [] => pure []
  | call :: rest => do
    let accepted ← call.run
    let later ← runCalls rest
    pure (accepted ++ later)

namespace TransmitStream

variable {up : Bool} {acc : List UInt8}

theorem run_outline (call : TxCall) :
    Outline InCompletion TxInv (between up acc) call.run fun accepted =>
      between up (acc ++ accepted) := by
  refine .split (fun q => outside up acc q) (fun s hs => hs) fun q => ?_
  cases call with
  | writeP data => exact (usbSerialWriteP_outline data).bind fun _ => .ret fun s hs => hs.1
  | flush =>
    refine txKick_outline.bind fun _ => .ret fun s hs => ?_
    rwa [List.append_nil]
  | sendZlp =>
    refine usbSerialSendZlp_outline.bind fun _ => .ret fun s hs => ?_
    rw [List.append_nil]
    exact ⟨q, hs⟩

theorem runCalls_outline (calls : List TxCall) :
    Outline InCompletion TxInv (between up acc) (runCalls calls) fun accepted =>
      between up (acc ++ accepted) := by
  induction calls generalizing acc with
  | nil => exact .ret fun s hs => by rwa [List.append_nil]
  | cons call rest ih =>
    refine (run_outline call).bind fun accepted => ih.bind fun later => .ret fun s hs => ?_
    rwa [← List.append_assoc]

end TransmitStream

/-- In every run the endpoint never refuses a packet, and once the calls have returned the packets
taken, the armed packet and the ring hold what they held before and the accepted prefixes. -/
theorem taken_append_armed_append_queued (calls : List TxCall) (s : TxState) (hs : TxInv s)
    (hbusy : s.Armed → s.endpBusy ≠ 0) (c : Config TxState (List UInt8))
    (hc : Reaches InCompletion (runCalls calls, s) c) :
    c.2.refused = false ∧ ∀ accepted, c.1 = .ret accepted →
      c.2.taken.flatten ++ c.2.armedPackets.flatten ++ c.2.queued =
        s.taken.flatten ++ s.armedPackets.flatten ++ s.queued ++ accepted := by
  have hstart : (TransmitStream.between s.connected (s.handed.flatten ++ s.queued)).holds s := by
    refine ⟨s.queued.length, ⟨hs, rfl, ?_, rfl⟩, hbusy⟩
    rw [List.append_nil]
  have houtline : Outline InCompletion TxInv
      (TransmitStream.between s.connected (s.handed.flatten ++ s.queued)) (runCalls calls)
      fun accepted => TransmitStream.between s.connected (s.handed.flatten ++ s.queued ++ accepted) :=
    TransmitStream.runCalls_outline calls
  refine ⟨(houtline.invariant hstart hc).refused, fun accepted hret => ?_⟩
  obtain ⟨p, s'⟩ := c
  obtain rfl : p = .ret accepted := hret
  obtain ⟨q, hq, _⟩ := houtline.returned hstart hc
  have hstream := hq.stream
  rwa [List.append_nil, hq.handed, hs.handed, List.flatten_append, List.flatten_append] at hstream

theorem start_txInv : TxInv TxState.start := by
  have hnone : TxState.start.armedPackets = [] :=
    armedPackets_of_not_armed (not_armed_usbfsDeviceEndpInit _)
  exact ⟨by decide, by decide, rfl, rfl, by rw [hnone]; rfl⟩

def oneCall : Config TxState (List UInt8) := advance^[26] (runCalls [.writeP [7]], TxState.start)

/-- One byte written is in the armed packet. -/
theorem taken_append_armed_append_queued_writeP :
    oneCall.2.refused = false ∧
      oneCall.2.taken.flatten ++ oneCall.2.armedPackets.flatten ++ oneCall.2.queued = [7] := by
  have hreach : Reaches InCompletion (runCalls [.writeP [7]], TxState.start) oneCall :=
    reaches_iterate InCompletion 26 (runCalls [.writeP [7]], TxState.start)
  have hidle : TxState.start.Armed → TxState.start.endpBusy ≠ 0 :=
    fun h => absurd h (not_armed_usbfsDeviceEndpInit _)
  have hret : oneCall.1 = .ret [7] := rfl
  have h := taken_append_armed_append_queued [.writeP [7]] TxState.start start_txInv hidle
    oneCall hreach
  exact ⟨h.1, h.2 [7] hret⟩

end Not232
