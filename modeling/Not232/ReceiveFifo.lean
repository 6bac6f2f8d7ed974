import Not232.UsbReceive

/-!
# The receive ring is a queue

The proof outlines of this file hold under any interference that only lets packets arrive whole.
They show that the bytes returned and the bytes in the ring make up the acknowledged stream in
every reachable state, and that a handler over USB receives what it would receive on that stream.
-/

namespace Not232

open Preemption Thread RxState

/-- The bytes returned and the bytes in the ring are the acknowledged stream. -/
structure Fifo (s : RxState) : Prop extends RxInv s where
  stream : s.returned ++ s.unread = s.acked

structure Arrives (packet : List UInt8) (s s' : RxState) : Prop extends Appends packet s s' where
  acked : s'.acked = s.acked ++ packet

theorem Fifo.arrives {packet : List UInt8} {s s' : RxState} (hs : Fifo s)
    (h : Arrives packet s s') : Fifo s' where
  rxHead_lt := h.rxHead_lt
  rxTail_lt := h.rxTail ▸ hs.rxTail_lt
  stream := by rw [h.returned, h.unread, h.acked, ← List.append_assoc, hs.stream]

theorem acknowledge_arrives {packet : List UInt8} {s : RxState} (hs : RxInv s)
    (hfit : packet.length ≤ ringFree s.rxHead s.rxTail rxRingSize) :
    Arrives packet s (acknowledge packet s) := by
  have h := acknowledge_appends packet s hs
  rw [List.take_of_length_le hfit] at h
  exact ⟨h, acknowledge_acked packet s⟩

namespace Fifo

theorem ringCount_eq {s : RxState} (hs : Fifo s) :
    ringCount s.rxHead s.rxTail rxRingSize = s.unread.length := by
  rw [length_unread, ringCount_eq_occupied hs.rxTail_lt (by decide)]

theorem ringFree_add {s : RxState} (hs : Fifo s) :
    s.unread.length + ringFree s.rxHead s.rxTail rxRingSize = rxRingSize - 1 := by
  have hlt : RingBuffer.occupied rxRingSize s.rxHead s.rxTail < rxRingSize :=
    RingBuffer.occupied_lt hs.rxHead_lt
  rw [length_unread, ringFree_eq hs.rxHead_lt hs.rxTail_lt (by decide)]
  omega

theorem unread_eq_nil {s : RxState} (hs : Fifo s) : s.unread = [] ↔ s.rxHead = s.rxTail :=
  RingBuffer.contents_eq_nil hs.rxTail_lt

theorem head?_unread {s : RxState} (hs : Fifo s) (hne : s.unread ≠ []) :
    s.unread.head? = some (s.rxRing s.rxTail) := by
  have hne' : s.rxHead ≠ s.rxTail := fun h => hne (hs.unread_eq_nil.mpr h)
  rw [unread, RingBuffer.contents_drain hs.rxHead_lt hs.rxTail_lt hne', List.head?_cons]

/-- The store of `rxTail` at the end of a read takes the oldest byte. -/
theorem read {s : RxState} (hs : Fifo s) (hne : s.unread ≠ []) :
    Fifo { s with
      rxTail := uint16 ((s.rxTail + 1) % rxRingSize : ℕ)
      returned := s.returned ++ [s.rxRing s.rxTail] } := by
  have hne' : s.rxHead ≠ s.rxTail := fun h => hne (hs.unread_eq_nil.mpr h)
  have hd : s.unread = _ :: _ := RingBuffer.contents_drain hs.rxHead_lt hs.rxTail_lt hne'
  rw [uint16_next hs.rxTail_lt (by decide)]
  refine ⟨⟨hs.rxHead_lt, RingBuffer.next_lt hs.rxTail_lt⟩, ?_⟩
  rw [← hs.stream, hd, List.append_assoc]
  rfl

end Fifo

section Outlines

variable {R : RxState → RxState → Prop}
  (hR : ∀ s s', Fifo s → R s s' → ∃ packet, Arrives packet s s')

/-- `Fifo` together with a fact that arriving packets keep. -/
def fifo (F : RxState → Prop) (hF : ∀ packet s s', F s → Arrives packet s s' → F s') :
    Assertion R Fifo where
  holds s := Fifo s ∧ F s
  stable s s' h hr := by
    obtain ⟨packet, hp⟩ := hR s s' h.1 hr
    exact ⟨h.1.arrives hp, hF packet s s' h.2 hp⟩
  safe _ h := h.1

/-- The main thread has been returned `w` so far. -/
def read (w : List UInt8) : Assertion R Fifo :=
  fifo hR (fun s => s.returned = w) fun _ _ _ h hp => hp.returned.trans h

/-- Besides, at least `n` bytes are unread. -/
def readable (w : List UInt8) (n : ℕ) : Assertion R Fifo :=
  fifo hR (fun s => s.returned = w ∧ n ≤ s.unread.length) fun _ _ _ h hp => by
    refine ⟨hp.returned.trans h.1, ?_⟩
    rw [hp.unread, List.length_append]
    omega

theorem usbSerialAvailable_outline (w : List UInt8) :
    Outline R Fifo (read hR w) usbSerialAvailable (readable hR w) := by
  -- The head may be stale when the tail is loaded; packets only move the real head further.
  let afterHead (head : ℕ) : Assertion R Fifo :=
    fifo hR (fun s => s.returned = w ∧ ringCount head s.rxTail rxRingSize ≤ s.unread.length)
      fun _ _ _ h hp => by
        refine ⟨hp.returned.trans h.1, ?_⟩
        rw [hp.rxTail, hp.unread, List.length_append]
        omega
  let afterTail (head tail : ℕ) : Assertion R Fifo :=
    readable hR w (ringCount head tail rxRingSize)
  refine .load_bind afterHead (fun s hs => ?_) fun head => ?_
  · exact ⟨hs.1, hs.2, hs.1.ringCount_eq.le⟩
  exact .load_bind (afterTail head) (fun s hs => hs) fun tail => .ret fun s hs => hs

theorem waitAvailable_outline (w : List UInt8) :
    Outline R Fifo (read hR w) waitAvailable fun _ => readable hR w 1 := by
  refine .whileTrue ((usbSerialAvailable_outline hR w).bind fun count => .ret fun s hs => ?_)
  obtain ⟨hfifo, hread, hcount⟩ := hs
  rcases Nat.eq_zero_or_pos count with rfl | hpos
  · exact ⟨hfifo, hread⟩
  · rw [if_neg (by simp only [beq_iff_eq]; omega)]
    exact ⟨hfifo, hread, hpos.trans_le hcount⟩

theorem usbSerialRead_outline (w : List UInt8) :
    Outline R Fifo (readable hR w 1) usbSerialRead fun b => read hR (w ++ [b]) := by
  let afterHead (head : ℕ) : Assertion R Fifo :=
    (readable hR w 1).and (fun s => head ≠ s.rxTail) fun s s' hs hne hr => by
      obtain ⟨packet, hp⟩ := hR s s' hs.1 hr
      rwa [hp.rxTail]
  let atTail (tail : ℕ) : Assertion R Fifo :=
    (readable hR w 1).and (fun s => tail = s.rxTail) fun s s' hs ht hr => by
      obtain ⟨packet, hp⟩ := hR s s' hs.1 hr
      rwa [hp.rxTail]
  let afterByte (b : UInt8) : Assertion R Fifo :=
    (readable hR w 1).and (fun s => s.unread.head? = some b) fun s s' hs hb hr => by
      obtain ⟨packet, hp⟩ := hR s s' hs.1 hr
      rw [hp.unread, List.head?_append, hb, Option.some_or]
  let afterByteTail (b : UInt8) (tail : ℕ) : Assertion R Fifo :=
    (afterByte b).and (fun s => tail = s.rxTail) fun s s' hs ht hr => by
      obtain ⟨packet, hp⟩ := hR s s' hs.1.1 hr
      rwa [hp.rxTail]
  refine .load_bind afterHead (fun s hs => ?_) fun head => ?_
  · have hne := List.ne_nil_of_length_pos hs.2.2
    exact ⟨hs, fun he => hne (hs.1.unread_eq_nil.mpr he)⟩
  refine .load_bind (fun tail => (atTail tail).guard (head ≠ tail)) (fun s hs => ?_) fun tail => ?_
  · exact ⟨⟨hs.1, rfl⟩, hs.2⟩
  by_cases he : head = tail
  · rw [if_pos he]
    exact .ret fun s hs => absurd he hs.2
  rw [if_neg he]
  refine .load_bind atTail (fun s hs => ⟨hs.1.1, rfl⟩) fun tail => ?_
  refine .load_bind afterByte (fun s hs => ?_) fun b => ?_
  · have hne := List.ne_nil_of_length_pos hs.1.2.2
    exact ⟨hs.1, hs.2 ▸ hs.1.1.head?_unread hne⟩
  refine .load_bind (afterByteTail b) (fun s hs => ⟨hs, rfl⟩) fun tail => ?_
  refine .store_bind (read hR (w ++ [b])) (fun s hs => ?_) (.ret fun s hs => hs)
  obtain ⟨⟨⟨hfifo, hread, hlen⟩, hb⟩, rfl⟩ := hs
  have hne := List.ne_nil_of_length_pos hlen
  obtain rfl : s.rxRing s.rxTail = b := Option.some.inj ((hfifo.head?_unread hne).symm.trans hb)
  exact ⟨hfifo.read hne, congrArg (· ++ [_]) hread⟩

theorem usbSerialBlockingReadBytes_outline (w : List UInt8) (len : ℕ) :
    Outline R Fifo (read hR w) (usbSerialBlockingReadBytes len)
      fun buffer => read hR (w ++ buffer.toList) := by
  induction len with
  | zero => exact .ret fun s hs => by simpa using hs
  | succ len ih =>
    refine ih.bind fun buffer => (waitAvailable_outline hR _).bind fun _ =>
      (usbSerialRead_outline hR _).bind fun b => .ret fun s hs => ?_
    rwa [Vector.toList_push, ← List.append_assoc]

/-- What a handler has received is what it receives on the bytes that it has consumed. -/
def received {α : Type} (w : List UInt8) (p : Recv α) (a : α) : Assertion R Fifo :=
  fifo hR (fun s => ∃ u, s.returned = w ++ u ∧ p.onStream u = some (a, []))
    fun _ _ _ h hp => by rwa [hp.returned]

theorem overUsb_outline {α : Type} (p : Recv α) (w : List UInt8) :
    Outline R Fifo (read hR w) p.overUsb (received hR w p) := by
  induction p generalizing w with
  | done a => exact .ret fun s hs => ⟨hs.1, [], by simpa using hs.2, rfl⟩
  | buffer size k ih =>
    refine (usbSerialBlockingReadBytes_outline hR w size).bind fun bytes =>
      (ih bytes (w ++ bytes.toList)).post fun a s hs => ?_
    obtain ⟨hfifo, u, hu, hrecv⟩ := hs
    refine ⟨hfifo, bytes.toList ++ u, by rw [hu, List.append_assoc], ?_⟩
    have h : size ≤ (bytes.toList ++ u).length := by simp
    rw [Recv.onStream, dif_pos h, Recv.front_toList, List.drop_left' bytes.length_toList]
    exact hrecv

end Outlines
end Not232
