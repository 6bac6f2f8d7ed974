import Mathlib.Data.List.Basic
import Mathlib.Tactic

/-!
# Receiving the fields of a command

`Recv` is what a command handler asks of its transport: buffers of given sizes, in order, where a
later size may depend on the bytes of an earlier buffer. `onStream` runs a handler on a byte
stream and leaves the bytes it has not consumed; it is undefined where the handler would wait for
more. The outcome on a prefix of a stream is its outcome on the stream.
-/

namespace Not232

/-- The bytes of a word in memory, least significant first. -/
def leBytes (w : UInt32) : Vector UInt8 4 :=
  #v[.ofNat w.toNat, .ofNat (w.toNat / 256), .ofNat (w.toNat / 65536), .ofNat (w.toNat / 16777216)]

def leWord (v : Vector UInt8 4) : UInt32 :=
  .ofNat (v[0].toNat + v[1].toNat * 256 + v[2].toNat * 65536 + v[3].toNat * 16777216)

theorem leWord_leBytes (w : UInt32) : leWord (leBytes w) = w := by
  apply UInt32.toNat_inj.mp
  have hw := w.toNat_lt
  simp only [leWord, leBytes, UInt32.toNat_ofNat', Vector.getElem_mk, List.getElem_toArray,
    List.getElem_cons_zero, List.getElem_cons_succ, UInt8.toNat_ofNat']
  omega

inductive Recv (α : Type) : Type
  | done (a : α) : Recv α
  | buffer (size : ℕ) (k : Vector UInt8 size → Recv α) : Recv α

namespace Recv

variable {α β : Type}

def bind : Recv α → (α → Recv β) → Recv β
  | done a, g => g a
  | buffer size k, g => buffer size fun bytes => (k bytes).bind g

instance : Monad Recv where
  pure := done
  bind := bind

/-- The first `size` bytes of a stream. -/
def front (stream : List UInt8) (size : ℕ) (h : size ≤ stream.length) : Vector UInt8 size :=
  ⟨(stream.take size).toArray, by simpa using h⟩

def onStream : Recv α → List UInt8 → Option (α × List UInt8)
  | done a, stream => some (a, stream)
  | buffer size k, stream =>
    if h : size ≤ stream.length then (k (front stream size h)).onStream (stream.drop size)
    else none

theorem toList_front (stream : List UInt8) (size : ℕ) (h : size ≤ stream.length) :
    (front stream size h).toList = stream.take size := by simp [front, Vector.toList]

theorem front_append (stream more : List UInt8) (size : ℕ) (h : size ≤ stream.length)
    (h' : size ≤ (stream ++ more).length) :
    front (stream ++ more) size h' = front stream size h := by
  apply Vector.toList_inj.mp
  rw [toList_front, toList_front, List.take_append_of_le_length h]

theorem front_toList {size : ℕ} (v : Vector UInt8 size) (more : List UInt8)
    (h : size ≤ (v.toList ++ more).length) : front (v.toList ++ more) size h = v := by
  apply Vector.toList_inj.mp
  rw [toList_front, List.take_left' v.length_toList]

@[simp] theorem onStream_pure (a : α) (stream : List UInt8) :
    (pure a : Recv α).onStream stream = some (a, stream) := rfl

theorem onStream_bind (p : Recv α) (g : α → Recv β) (stream : List UInt8) :
    (p >>= g).onStream stream = (p.onStream stream).bind fun r => (g r.1).onStream r.2 := by
  change (p.bind g).onStream stream = _
  induction p generalizing stream with
  | done a => rfl
  | buffer size k ih =>
    simp only [bind, onStream]
    split_ifs with h
    · exact ih _ _
    · rfl

/-- Bytes that arrive behind the ones a handler consumes do not change what it receives. -/
theorem onStream_append {p : Recv α} {stream rest : List UInt8} {a : α} (more : List UInt8)
    (h : p.onStream stream = some (a, rest)) :
    p.onStream (stream ++ more) = some (a, rest ++ more) := by
  induction p generalizing stream with
  | done b =>
    obtain ⟨rfl, rfl⟩ : b = a ∧ stream = rest := by simpa [onStream] using h
    rfl
  | buffer size k ih =>
    simp only [onStream] at h ⊢
    split_ifs at h with hs
    rw [dif_pos (by simp only [List.length_append]; omega), front_append _ _ _ hs,
      List.drop_append_of_le_length hs]
    exact ih _ h

end Recv

def commsRecvBuffer (size : ℕ) : Recv (Vector UInt8 size) := .buffer size .done

def commsRecvU8 : Recv UInt8 := do
  let byte ← commsRecvBuffer 1
  pure byte[0]

def commsRecvU32 : Recv UInt32 := do
  let word ← commsRecvBuffer 4
  pure (leWord word)

def commsRecvArray : Recv ((size : UInt32) × Vector UInt8 size.toNat) := do
  let size ← commsRecvU32
  let array ← commsRecvBuffer size.toNat
  pure ⟨size, array⟩

/-- The bytes from `str` on: the array and the terminator behind it. -/
def commsRecvString : Recv (List UInt8) := do
  let array ← commsRecvArray
  pure (array.2.toList ++ [0])

@[simp] theorem onStream_commsRecvBuffer {size : ℕ} (v : Vector UInt8 size) (more : List UInt8) :
    (commsRecvBuffer size).onStream (v.toList ++ more) = some (v, more) := by
  have h : size ≤ (v.toList ++ more).length := by simp
  simp only [commsRecvBuffer, Recv.onStream, dif_pos h, Recv.front_toList,
    List.drop_left' v.length_toList]

@[simp] theorem onStream_commsRecvU32 (w : UInt32) (more : List UInt8) :
    commsRecvU32.onStream ((leBytes w).toList ++ more) = some (w, more) := by
  simp [commsRecvU32, Recv.onStream_bind, leWord_leBytes]

end Not232
