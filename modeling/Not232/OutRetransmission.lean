import Mathlib.Algebra.Group.Nat.Even
import Not232.ReceiveStream

/-!
# Retransmitted OUT packets

The host alternates the toggle of its packets and sends one again, with the same toggle, as long as
it has not seen its ACK. The peripheral acknowledges every packet and reports whether the toggle was
the expected one. The case of the interrupt handler for endpoint 2 does not ask, so that a packet
whose ACK was lost is appended to the ring again.
-/

namespace Not232

open Preemption Thread RxState

/-- The toggle that endpoint 2 expects. -/
def RxState.expected (s : RxState) : Bool := s.uep2RxCtrl &&& uepRTog != 0

/-- The status bit `USBFS_UIS_TOG_OK` of an OUT packet. -/
def togOk (toggle : Bool) (s : RxState) : Bool := toggle == s.expected

/-- The host's packet is acknowledged and its interrupt is served, whatever the status bit. -/
def serveOut (_togOk : Bool) (packet : List UInt8) (s : RxState) : RxState := acknowledge packet s

/-- The host's end of the pipe: the toggle of its next packet and the packet whose ACK it has not
seen; the packets sent and those sent again are auxiliary variables. -/
structure OutHost where
  toggle : Bool
  unacked : Option (List UInt8)
  sent : List (List UInt8)
  resent : List (List UInt8)

namespace OutHost

def begin : OutHost := ⟨false, none, [], []⟩

/-- The host can only send again the packet whose ACK it has not seen. -/
def MaySend (packet : List UInt8) (h : OutHost) : Prop :=
  h.unacked = none ∨ h.unacked = some packet

/-- A packet is sent, and its ACK arrives or is lost. -/
def send (packet : List UInt8) (ackLost : Bool) (h : OutHost) : OutHost where
  toggle := if ackLost then h.toggle else !h.toggle
  unacked := if ackLost then some packet else none
  sent := if h.unacked.isSome then h.sent else h.sent ++ [packet]
  resent := if h.unacked.isSome then h.resent ++ [packet] else h.resent

end OutHost

/-- The host, the main thread and the receive half of the driver. -/
structure OutPipe (α : Type) where
  host : OutHost
  main : Thread RxState α
  rx : RxState

/-- The main thread takes a step, or the host sends a packet that the ring has room for. -/
inductive OutStep {α : Type} : OutPipe α → OutPipe α → Prop
  | main {p p' : Thread RxState α} {s s' : RxState} (host : OutHost)
      (h : Step (fun _ _ => False) (p, s) (p', s')) : OutStep ⟨host, p, s⟩ ⟨host, p', s'⟩
  | packet (host : OutHost) (s : RxState) (p : Thread RxState α) (packet : List UInt8)
      (ackLost : Bool) (hlen : packet.length ≤ 64) (hsend : host.MaySend packet)
      (hacks : s.Ep2Acks) (hfit : packet.length ≤ ringFree s.rxHead s.rxTail rxRingSize) :
      OutStep ⟨host, p, s⟩
        ⟨host.send packet ackLost, p, serveOut (togOk host.toggle s) packet s⟩

abbrev OutReaches {α : Type} : OutPipe α → OutPipe α → Prop := Relation.ReflTransGen OutStep

/-! ### The main thread leaves the interrupt's variables alone -/

/-- What only the peripheral and the interrupt change. -/
def RxState.arrivals (s : RxState) : List UInt8 × UInt8 := (s.acked, s.uep2RxCtrl)

theorem usbSerialAvailable_keeps : Keeps arrivals usbSerialAvailable :=
  (Keeps.load _).bind fun _ => (Keeps.load _).bind fun _ => .ret _

theorem usbSerialRead_keeps : Keeps arrivals usbSerialRead := by
  refine (Keeps.load _).bind fun head => (Keeps.load _).bind fun tail => ?_
  by_cases h : head = tail
  · rw [if_pos h]
    exact .ret _
  · rw [if_neg h]
    refine (Keeps.load _).bind fun _ => (Keeps.load _).bind fun _ => (Keeps.load _).bind fun _ => ?_
    exact .act (fun _ => rfl) fun _ => .ret _

theorem usbSerialBlockingReadBytes_keeps (len : ℕ) :
    Keeps arrivals (usbSerialBlockingReadBytes len) := by
  induction len with
  | zero => exact .ret _
  | succ len ih =>
    apply ih.bind
    intro buffer
    apply (Keeps.whileTrue (usbSerialAvailable_keeps.bind fun count => .ret _)).bind
    intro _
    exact usbSerialRead_keeps.bind fun b => .ret _

theorem overUsb_keeps {α : Type} (p : Recv α) : Keeps arrivals p.overUsb := by
  induction p with
  | done a => exact .ret a
  | buffer size k ih => exact (usbSerialBlockingReadBytes_keeps size).bind fun bytes => ih bytes

/-! ### The toggle -/

theorem expected_toggle (ctrl : UInt8) :
    ((((ctrl ^^^ uepRTog) &&& ~~~uepRResMask) ||| uepRResAck) &&& uepRTog != 0) =
      !(ctrl &&& uepRTog != 0) := by
  have h : ∀ n : Fin 256, ((((UInt8.ofNat n ^^^ uepRTog) &&& ~~~uepRResMask) ||| uepRResAck) &&&
      uepRTog != 0) = !(UInt8.ofNat n &&& uepRTog != 0) := by decide +kernel
  have hctrl := h ⟨ctrl.toNat, ctrl.toNat_lt⟩
  rwa [UInt8.ofNat_toNat] at hctrl

theorem usbSerialOnEp2Out_uep2RxCtrl (packet : List UInt8) (s : RxState) :
    (usbSerialOnEp2Out packet s).uep2RxCtrl = s.uep2RxCtrl := by
  induction packet generalizing s with
  | nil => rfl
  | cons b rest ih =>
    rw [usbSerialOnEp2Out]
    split_ifs
    · rfl
    · exact ih _

/-- Every packet toggles the endpoint, also one with the wrong toggle. -/
theorem expected_serveOut (ok : Bool) (packet : List UInt8) (s : RxState) :
    (serveOut ok packet s).expected = !s.expected := by
  rw [expected, serveOut, acknowledge, irqEp2Out]
  dsimp only
  rw [usbSerialOnEp2Out_uep2RxCtrl, expected_toggle, expected]

/-! ### What a run has appended -/

/-- The acknowledged bytes are those of the packets sent and of those sent again, and only the
packets sent again can make a difference. -/
structure Accounts (host : OutHost) (s : RxState) : Prop where
  length : s.acked.length = host.sent.flatten.length + host.resent.flatten.length
  once : (∀ packet ∈ host.resent, packet = []) → s.acked = host.sent.flatten

theorem Accounts.packet {host : OutHost} {s : RxState} (h : Accounts host s) (ok : Bool)
    (packet : List UInt8) (ackLost : Bool) :
    Accounts (host.send packet ackLost) (serveOut ok packet s) := by
  obtain ⟨hlength, honce⟩ := h
  have hacked : (serveOut ok packet s).acked = s.acked ++ packet := acknowledge_acked packet s
  by_cases hnew : host.unacked.isSome = true
  · refine ⟨?_, fun hempty => ?_⟩
    · simp only [OutHost.send, if_pos hnew, hacked, List.length_append, List.flatten_append,
        List.flatten_singleton]
      omega
    · simp only [OutHost.send, if_pos hnew] at hempty ⊢
      have hpacket : packet = [] := hempty packet (by simp)
      rw [hacked, hpacket, List.append_nil]
      exact honce fun x hx => hempty x (List.mem_append_left _ hx)
  · refine ⟨?_, fun hempty => ?_⟩
    · simp only [OutHost.send, if_neg hnew, hacked, List.length_append, List.flatten_append,
        List.flatten_singleton]
      omega
    · simp only [OutHost.send, if_neg hnew] at hempty ⊢
      rw [hacked, honce hempty, List.flatten_append, List.flatten_singleton]

/-- The packets too many that endpoint 2 has been toggled for. -/
def OutHost.surplus (h : OutHost) : ℕ := h.resent.length + h.unacked.isSome.toNat

theorem togOk_send {host : OutHost} {s : RxState}
    (h : togOk host.toggle s = true ↔ Even host.surplus) (ok : Bool) (packet : List UInt8)
    (ackLost : Bool) :
    togOk (host.send packet ackLost).toggle (serveOut ok packet s) = true ↔
      Even (host.send packet ackLost).surplus := by
  obtain ⟨toggle, unacked, sent, resent⟩ := host
  have hflip : ∀ a b : Bool, (a == !b) = !(a == b) := by decide
  have hflip' : ∀ a b : Bool, (!a == !b) = (a == b) := by decide
  simp only [togOk, expected_serveOut, OutHost.surplus] at h ⊢
  cases unacked with
  | none =>
    cases ackLost with
    | true => simpa [OutHost.send, hflip, Nat.even_add_one] using not_congr h
    | false => simpa [OutHost.send, hflip'] using h
  | some pending =>
    cases ackLost with
    | true => simpa [OutHost.send, hflip, Nat.even_add_one] using not_congr h
    | false => simpa [OutHost.send, hflip'] using h

section Run

variable {α : Type} {c c' : OutPipe α}

/-- What holds along a run, besides what the main thread sees. -/
structure OutInv (c : OutPipe α) : Prop extends Accounts c.host c.rx where
  keeps : Keeps arrivals c.main
  togOk_iff : togOk c.host.toggle c.rx = true ↔ Even c.host.surplus

theorem OutInv.step (h : OutInv c) (hst : OutStep c c') : OutInv c' := by
  obtain ⟨haccounts, hkeeps, htoggle⟩ := h
  cases hst with
  | main host hmain =>
    obtain ⟨harrivals, hkeeps'⟩ := hkeeps.step hmain
    obtain ⟨hacked, hctrl⟩ := Prod.mk.inj harrivals
    refine ⟨⟨?_, ?_⟩, hkeeps', ?_⟩
    · exact hacked ▸ haccounts.length
    · exact hacked ▸ haccounts.once
    · simp only [togOk, expected] at htoggle ⊢
      rwa [hctrl]
  | packet host s p packet ackLost =>
    have hok := togOk_send htoggle (togOk host.toggle s) packet ackLost
    exact ⟨haccounts.packet (togOk host.toggle s) packet ackLost, hkeeps, hok⟩

theorem outInv_begin (p : Recv α) (ring : ℕ → UInt8) :
    OutInv ⟨OutHost.begin, p.overUsb, RxState.begin ring⟩ := by
  have hctrl : (uepRResAck &&& uepRTog != 0) = false := by decide
  have hexpected : (RxState.begin ring).expected = false := hctrl
  have htoggle : togOk OutHost.begin.toggle (RxState.begin ring) = true := by
    rw [togOk, hexpected]
    rfl
  exact ⟨⟨rfl, fun _ => rfl⟩, overUsb_keeps p, iff_of_true htoggle ⟨0, rfl⟩⟩

theorem OutInv.reaches (h : OutInv c) (hc : OutReaches c c') : OutInv c' := by
  induction hc with
  | refl => exact h
  | tail _ hst ih => exact ih.step hst

/-- To the main thread the host is one of those that only send packets that fit. -/
theorem OutStep.fits (hst : OutStep c c') :
    Step OutPacketFits (c.main, c.rx) (c'.main, c'.rx) := by
  cases hst with
  | main host h => exact h.mono fun _ _ => False.elim
  | packet host s p packet _ hlen _ hacks hfit =>
    exact .interrupt p ⟨packet, hlen, hacks, hfit, rfl⟩

theorem OutReaches.fits (hc : OutReaches c c') :
    Reaches OutPacketFits (c.main, c.rx) (c'.main, c'.rx) := by
  induction hc with
  | refl => exact .refl
  | tail _ hst ih => exact ih.tail hst.fits

end Run

/-- The status bit of the next packet is clear after an odd number of packets too many: on a packet
that is sent again, and as the toggles stay out of step, also on the packets after it. -/
theorem togOk_iff_even {α : Type} (p : Recv α) (ring : ℕ → UInt8) (c : OutPipe α)
    (hc : OutReaches ⟨OutHost.begin, p.overUsb, RxState.begin ring⟩ c) :
    togOk c.host.toggle c.rx = true ↔ Even c.host.surplus :=
  ((outInv_begin p ring).reaches hc).togOk_iff

/-- As long as the ring never fills, the bytes appended to it are those of each packet once, in
order, if and only if every packet that was sent again is empty. -/
theorem delivered_once_iff {α : Type} (p : Recv α) (ring : ℕ → UInt8) (c : OutPipe α)
    (hc : OutReaches ⟨OutHost.begin, p.overUsb, RxState.begin ring⟩ c) :
    c.rx.returned ++ c.rx.unread = c.host.sent.flatten ↔
      ∀ packet ∈ c.host.resent, packet = [] := by
  have hinv := (outInv_begin p ring).reaches hc
  have houtline := overUsb_outline outPacketFits_arrives p []
  have hfifo : Fifo c.rx := houtline.invariant ⟨begin_fifo ring, rfl⟩ hc.fits
  rw [hfifo.stream]
  constructor
  · intro hstream packet hpacket
    have hlength := hinv.length
    have hzero : c.host.resent.flatten.length = 0 := by
      rw [hstream] at hlength
      omega
    exact List.flatten_eq_nil_iff.mp (List.length_eq_zero_iff.mp hzero) packet hpacket
  · exact hinv.once

/-- One packet, acknowledged at once. -/
theorem delivered_once_iff_acked :
    ∃ c : OutPipe Unit, c.host.sent = [[7]] ∧
      (c.rx.returned ++ c.rx.unread = c.host.sent.flatten ↔
        ∀ packet ∈ c.host.resent, packet = []) := by
  have hstep := OutStep.packet OutHost.begin (RxState.begin fun _ => 0)
    ((pure () : Recv Unit).overUsb) [7] false (by decide) (.inl rfl) rfl (by decide)
  exact ⟨_, rfl, delivered_once_iff (pure ()) (fun _ => 0) _ (.single hstep)⟩

/-- A packet whose ACK is lost is appended twice. -/
theorem resent_appended_twice :
    ∃ c : OutPipe Unit,
      OutReaches ⟨OutHost.begin, (pure () : Recv Unit).overUsb, RxState.begin fun _ => 0⟩ c ∧
        c.host.sent = [[7]] ∧ c.rx.returned ++ c.rx.unread = [7, 7] := by
  have hlost := OutStep.packet OutHost.begin (RxState.begin fun _ => 0)
    ((pure () : Recv Unit).overUsb) [7] true (by decide) (.inl rfl) rfl (by decide)
  have hagain := OutStep.packet (OutHost.begin.send [7] true)
    (serveOut true [7] (RxState.begin fun _ => 0))
    ((pure () : Recv Unit).overUsb) [7] false (by decide) (.inr rfl) rfl (by decide)
  exact ⟨_, (Relation.ReflTransGen.single hlost).tail hagain, rfl, by decide⟩

end Not232
