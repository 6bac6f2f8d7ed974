import Not232.UsbTransmit

/-!
# When the busy flag of endpoint 3 is exact

`usbfsEndpDataUp` arms the endpoint before it sets the busy flag. An interrupt that disarms the
endpoint between the two stores clears a flag that is not set yet, and the flag is then set for
good. A halt request disarms the endpoint and leaves the flag alone. In runs without these two
kinds of interrupt the flag says exactly whether a packet is armed.
-/

namespace Not232

open Preemption Thread TxState

/-- What the main thread asks of the transmit half. -/
inductive TxRequest
  | writeP (data : List UInt8)
  | flush
  | sendZlp
  | blockingWriteP (data : List UInt8)

def TxRequest.run : TxRequest → Thread TxState Unit
  | writeP data => do
    let _ ← usbSerialWriteP data
    pure ()
  | flush => usbSerialFlush
  | sendZlp => usbSerialSendZlp
  | blockingWriteP data => usbSerialBlockingWriteP data

def runRequests : List TxRequest → Thread TxState Unit
  | [] => pure ()
  | request :: rest => do
    request.run
    runRequests rest

/-- Any interrupt that concerns endpoint 3, at any moment. -/
def TxInterrupt (s s' : TxState) : Prop := InCompletion s s' ∨ BusReset s s' ∨ HaltRequest s s'

/-- Completions and resets that do not fall between arming the endpoint and setting the flag, and
halt requests while no packet is armed. -/
def BenignInterrupt (s s' : TxState) : Prop :=
  (InCompletion s s' ∨ BusReset s s') ∧ (s.Armed → s.endpBusy ≠ 0) ∨ HaltRequest s s' ∧ ¬ s.Armed

def FlagExact (s : TxState) : Prop := s.endpBusy ≠ 0 ↔ s.Armed

/-- Outside `usbfsEndpDataUp` the busy flag is exact. -/
def BusyInv (s : TxState) : Prop := s.inDataUp = false → FlagExact s

theorem endpBusy_haltRequest {s s' : TxState} (h : HaltRequest s s') :
    s'.endpBusy = s.endpBusy ∧ s'.inDataUp = s.inDataUp := by
  rcases h with rfl | rfl
  · exact ⟨rfl, rfl⟩
  · exact ⟨rfl, rfl⟩

/-- A benign interrupt leaves no packet armed; it clears the flag or finds no packet armed. -/
theorem benignInterrupt_cases {s s' : TxState} (h : BenignInterrupt s s') :
    ¬ s'.Armed ∧ s'.inDataUp = s.inDataUp ∧ (s.Armed → s.endpBusy ≠ 0) ∧
      (s'.endpBusy = 0 ∨ s'.endpBusy = s.endpBusy ∧ ¬ s.Armed) := by
  rcases h with ⟨⟨_, rfl⟩ | rfl, hwin⟩ | ⟨hhalt, harm⟩
  · exact ⟨not_armed_complete s, rfl, hwin, .inl rfl⟩
  · exact ⟨not_armed_usbfsDeviceEndpInit s, rfl, hwin, .inl rfl⟩
  · obtain ⟨hbusy, hin⟩ := endpBusy_haltRequest hhalt
    exact ⟨not_armed_haltRequest hhalt, hin, fun ha => absurd ha harm, .inr ⟨hbusy, harm⟩⟩

theorem flagExact_benign {s s' : TxState} (hs : FlagExact s) (h : BenignInterrupt s s') :
    FlagExact s' := by
  rcases benignInterrupt_cases h with ⟨harm', _, _, hbusy | ⟨hbusy, harm⟩⟩
  · exact ⟨fun hne => absurd hbusy hne, fun ha => absurd ha harm'⟩
  · rw [FlagExact, hbusy]
    exact ⟨fun hne => absurd (hs.mp hne) harm, fun ha => absurd ha harm'⟩

namespace BusyFlag

/-- The main thread is outside `usbfsEndpDataUp`. -/
def outside : Assertion BenignInterrupt BusyInv where
  holds s := s.inDataUp = false ∧ FlagExact s
  stable _ _ h hr := ⟨(benignInterrupt_cases hr).2.1.trans h.1, flagExact_benign h.2 hr⟩
  safe _ h _ := h.2

/-- It is inside, and the endpoint has not been armed or the flag has been set. -/
def inside : Assertion BenignInterrupt BusyInv where
  holds s := s.inDataUp = true ∧ FlagExact s
  stable _ _ h hr := ⟨(benignInterrupt_cases hr).2.1.trans h.1, flagExact_benign h.2 hr⟩
  safe s h hout := by simp [h.1] at hout

/-- It is inside and is about to load the endpoint. -/
def idle : Assertion BenignInterrupt BusyInv where
  holds s := s.inDataUp = true ∧ s.endpBusy = 0 ∧ ¬ s.Armed
  stable s s' h hr := by
    rcases benignInterrupt_cases hr with ⟨harm', hin, _, hbusy | ⟨hbusy, _⟩⟩
    · exact ⟨hin.trans h.1, hbusy, harm'⟩
    · exact ⟨hin.trans h.1, hbusy.trans h.2.1, harm'⟩
  safe s h hout := by simp [h.1] at hout

/-- It has armed the endpoint and not yet set the flag. -/
def window : Assertion BenignInterrupt BusyInv where
  holds s := s.inDataUp = true ∧ s.endpBusy = 0 ∧ s.Armed
  stable _ _ h hr := absurd h.2.1 ((benignInterrupt_cases hr).2.2.1 h.2.2)
  safe s h hout := by simp [h.1] at hout

theorem memcpyEp3_outline (offset : ℕ) (data : List UInt8) :
    Outline BenignInterrupt BusyInv idle (memcpyEp3 offset data) fun _ => idle := by
  induction data generalizing offset with
  | nil => exact .ret fun s hs => hs
  | cons b rest ih => exact .store_bind idle (fun s hs => hs) (ih (offset + 1))

theorem loadAndArm_outline (pbuf : List UInt8) :
    Outline BenignInterrupt BusyInv idle (loadAndArm pbuf) fun _ => inside := by
  refine .load_skip fun mode => ?_
  by_cases hmode : mode >>> 4 &&& usbfsdUepTxEn = 0
  · rw [if_pos hmode]
    exact .ret fun s hs =>
      ⟨hs.1, fun hne => absurd hs.2.1 hne, fun ha => absurd ha hs.2.2⟩
  rw [if_neg hmode]
  apply (memcpyEp3_outline _ pbuf).bind
  intro _
  refine .store_bind idle (fun s hs => hs) (.load_skip fun ctrl => ?_)
  refine .store_bind window (fun s hs => ?_) ?_
  · exact ⟨hs.1, hs.2.1, and_not_or_and ctrl uepTResMask uepTResAck⟩
  have hset : (1 : UInt8) ≠ 0 := by decide
  exact .store_bind inside (fun s hs => ⟨hs.1, fun _ => hs.2.2, fun _ => hset⟩)
    (.ret fun s hs => hs)

theorem usbfsEndpDataUp_outline (pbuf : List UInt8) :
    Outline BenignInterrupt BusyInv outside (usbfsEndpDataUp pbuf) fun _ => outside := by
  refine .store_bind inside (fun s hs => ⟨rfl, hs.2⟩) ?_
  refine .load_bind (fun busy => if busy = 0 then idle else inside) (fun s hs => ?_) fun busy => ?_
  · split_ifs with hbusy
    · exact ⟨hs.1, hbusy, fun ha => hs.2.mpr ha hbusy⟩
    · exact hs
  refine Outline.bind (M := fun _ => inside) ?_ fun result =>
    .store_bind outside (fun s hs => ⟨rfl, hs.2⟩) (.ret fun s hs => hs)
  split_ifs
  · exact loadAndArm_outline pbuf
  · exact .ret fun s hs => hs

theorem popPacket_outline (n : ℕ) :
    Outline BenignInterrupt BusyInv outside (popPacket n) fun _ => outside := by
  induction n with
  | zero => exact .ret fun s hs => hs
  | succ n ih =>
    exact ih.bind fun pkt => .load_skip fun tail => .load_skip fun b => .load_skip fun tail =>
      .store_bind outside (fun s hs => hs) (.ret fun s hs => hs)

theorem sendPacket_outline :
    Outline BenignInterrupt BusyInv outside sendPacket fun _ => outside := by
  refine .load_skip fun head => .load_skip fun tail => ?_
  dsimp only
  by_cases hcnt : ringCount head tail txRingSize = 0
  · rw [if_pos hcnt]
    exact .ret fun s hs => hs
  rw [if_neg hcnt]
  exact (popPacket_outline _).bind fun pkt => (usbfsEndpDataUp_outline pkt).bind fun result =>
    .store fun s hs => hs

theorem usbSerialConnected_outline :
    Outline BenignInterrupt BusyInv outside usbSerialConnected fun _ => outside := by
  refine .load_skip fun status => ?_
  split_ifs
  · exact .load_skip fun config => .ret fun s hs => hs
  · exact .ret fun s hs => hs

theorem txKick_outline : Outline BenignInterrupt BusyInv outside txKick fun _ => outside := by
  apply usbSerialConnected_outline.bind
  intro connected
  split_ifs
  · refine .load_skip fun busy => ?_
    split_ifs
    · exact sendPacket_outline
    · exact .ret fun s hs => hs
  · exact .ret fun s hs => hs

theorem enqueue_outline (data : List UInt8) :
    Outline BenignInterrupt BusyInv outside (enqueue data) fun _ => outside := by
  induction data with
  | nil => exact .ret fun s hs => hs
  | cons b rest ih =>
    refine .load_skip fun head => .load_skip fun tail => ?_
    split_ifs
    · exact .ret fun s hs => hs
    · exact .load_skip fun head => .store_bind outside (fun s hs => hs) <|
        .load_skip fun head => .store_bind outside (fun s hs => hs) <|
          ih.bind fun written => .ret fun s hs => hs

theorem usbSerialWriteP_outline (data : List UInt8) :
    Outline BenignInterrupt BusyInv outside (usbSerialWriteP data) fun _ => outside :=
  (enqueue_outline data).bind fun _ => txKick_outline.bind fun _ => .ret fun _ hs => hs

theorem waitIdle_outline (turns : ℕ) :
    Outline BenignInterrupt BusyInv outside (waitIdle turns) fun _ => outside := by
  induction turns with
  | zero => exact .load_skip fun busy => .ret fun s hs => hs
  | succ turns ih =>
    refine .load_skip fun busy => ?_
    split_ifs
    · exact .ret fun s hs => hs
    · exact ih

theorem usbSerialSendZlp_outline :
    Outline BenignInterrupt BusyInv outside usbSerialSendZlp fun _ => outside := by
  refine (waitIdle_outline 50000).bind fun _ => .load_skip fun busy => ?_
  split_ifs
  · exact (usbfsEndpDataUp_outline []).bind fun _ => .ret fun s hs => hs
  · exact .ret fun s hs => hs

theorem drainTurn_outline :
    Outline BenignInterrupt BusyInv outside drainTurn fun _ => outside := by
  refine Outline.bind (M := fun _ => outside) ?_ fun pending => ?_
  · exact .load_skip fun head => .load_skip fun tail => .ret fun s hs => hs
  split_ifs
  · exact txKick_outline.bind fun _ => .ret fun s hs => hs
  · exact .ret fun s hs => hs

theorem drain_outline : Outline BenignInterrupt BusyInv outside drain fun _ => outside := by
  refine .whileTrue (drainTurn_outline.post fun again s hs => ?_)
  cases again <;> exact hs

theorem usbSerialBlockingWriteP_outline (data : List UInt8) :
    Outline BenignInterrupt BusyInv outside (usbSerialBlockingWriteP data) fun _ => outside := by
  refine (usbSerialWriteP_outline data).bind fun _ => drain_outline.bind fun _ => ?_
  split_ifs
  · exact usbSerialSendZlp_outline
  · exact .ret fun s hs => hs

theorem runRequests_outline (requests : List TxRequest) :
    Outline BenignInterrupt BusyInv outside (runRequests requests) fun _ => outside := by
  induction requests with
  | nil => exact .ret fun s hs => hs
  | cons request rest ih =>
    refine Outline.bind (M := fun _ => outside) ?_ fun _ => ih
    cases request with
    | writeP data => exact (usbSerialWriteP_outline data).bind fun _ => .ret fun s hs => hs
    | flush => exact txKick_outline
    | sendZlp => exact usbSerialSendZlp_outline
    | blockingWriteP data => exact usbSerialBlockingWriteP_outline data

end BusyFlag

/-- In every run whose interrupts are all benign the busy flag says, outside `usbfsEndpDataUp`,
whether a packet is armed; in particular no blocking write waits for an endpoint that is idle. -/
theorem endpBusy_iff_armed (requests : List TxRequest) (s : TxState) (hin : s.inDataUp = false)
    (hs : FlagExact s) (c : Config TxState Unit)
    (hc : Reaches BenignInterrupt (runRequests requests, s) c) (hout : c.2.inDataUp = false) :
    (c.2.endpBusy ≠ 0 ↔ c.2.Armed) ∧
      ¬ (c.2.queued ≠ [] ∧ c.2.endpBusy ≠ 0 ∧ ¬ c.2.Armed) := by
  have hexact : FlagExact c.2 :=
    (BusyFlag.runRequests_outline requests).invariant ⟨hin, hs⟩ hc hout
  exact ⟨hexact, fun h => h.2.2 (hexact.mp h.2.1)⟩

theorem start_flagExact : FlagExact TxState.start := by
  unfold FlagExact
  decide

/-- One write, up to its return. -/
def oneWrite : Config TxState Unit := advance^[24] (runRequests [.writeP [1]], TxState.start)

/-- After one write the packet is armed and the flag is set. -/
theorem endpBusy_iff_armed_writeP :
    (oneWrite.2.endpBusy ≠ 0 ↔ oneWrite.2.Armed) ∧
      ¬ (oneWrite.2.queued ≠ [] ∧ oneWrite.2.endpBusy ≠ 0 ∧ ¬ oneWrite.2.Armed) :=
  have hreach : Reaches BenignInterrupt (runRequests [.writeP [1]], TxState.start) oneWrite :=
    reaches_iterate BenignInterrupt 24 (runRequests [.writeP [1]], TxState.start)
  have hout : oneWrite.2.inDataUp = false := by decide +kernel
  endpBusy_iff_armed [.writeP [1]] TxState.start rfl start_flagExact oneWrite hreach hout

/-- Two writes; the first has just armed the endpoint. -/
def flagNotSet : Config TxState Unit :=
  advance^[22] (runRequests [.writeP [1], .blockingWriteP [2]], TxState.start)

/-- The host takes the packet there, and the second write goes on to wait. -/
def waiting : Config TxState Unit := advance^[16] (flagNotSet.1, complete flagNotSet.2)

theorem reaches_waiting :
    Reaches TxInterrupt (runRequests [.writeP [1], .blockingWriteP [2]], TxState.start) waiting := by
  have harm : flagNotSet.2.Armed := by decide +kernel
  have hfirst : Reaches TxInterrupt (runRequests [.writeP [1], .blockingWriteP [2]], TxState.start)
      flagNotSet :=
    reaches_iterate TxInterrupt 22 (runRequests [.writeP [1], .blockingWriteP [2]], TxState.start)
  have hint : Reaches TxInterrupt flagNotSet (flagNotSet.1, complete flagNotSet.2) :=
    reaches_interrupt flagNotSet.1 (.inl ⟨harm, rfl⟩)
  have hlast : Reaches TxInterrupt (flagNotSet.1, complete flagNotSet.2) waiting :=
    reaches_iterate TxInterrupt 16 (flagNotSet.1, complete flagNotSet.2)
  exact (hfirst.trans hint).trans hlast

/-- The host takes the first packet after the endpoint is armed and before the flag is set. The
second write then waits with its byte queued, the flag set and nothing armed. -/
theorem endpBusy_set_not_armed :
    ∃ c, Reaches TxInterrupt (runRequests [.writeP [1], .blockingWriteP [2]], TxState.start) c ∧
      c.2.inDataUp = false ∧ c.2.queued = [2] ∧ c.2.endpBusy ≠ 0 ∧ ¬ c.2.Armed := by
  have hout : waiting.2.inDataUp = false := by decide +kernel
  have hqueued : waiting.2.queued = [2] := by decide +kernel
  have hbusy : waiting.2.endpBusy ≠ 0 := by decide +kernel
  have harm : ¬ waiting.2.Armed := by decide +kernel
  exact ⟨waiting, reaches_waiting, hout, hqueued, hbusy, harm⟩

end Not232
