import Mathlib.Data.List.Range
import Mathlib.Logic.Function.Basic

/-!
# Ring buffers with one empty slot

A ring of `size` cells is filled at `head` and drained at `tail`. The indices are equal exactly
when the ring is empty, so at most `size - 1` cells are occupied. `contents` is the list the ring
stands for, oldest element first; filling appends to it and draining removes its head.
-/

namespace Not232.RingBuffer

variable {α : Type} {size head tail : ℕ} {cells : ℕ → α}

def next (size i : ℕ) : ℕ := (i + 1) % size

def occupied (size head tail : ℕ) : ℕ :=
  if tail ≤ head then head - tail else size - (tail - head)

def slot (size tail i : ℕ) : ℕ := (tail + i) % size

def contents (cells : ℕ → α) (size head tail : ℕ) : List α :=
  (List.range (occupied size head tail)).map fun i => cells (slot size tail i)

theorem next_eq (h : head < size) : next size head = if head + 1 < size then head + 1 else 0 := by
  unfold next
  split_ifs with hlt
  · exact Nat.mod_eq_of_lt hlt
  · have hwrap : head + 1 = size := by omega
    rw [hwrap, Nat.mod_self]

theorem slot_eq {i : ℕ} (ht : tail < size) (hi : i < size) :
    slot size tail i = if tail + i < size then tail + i else tail + i - size := by
  unfold slot
  split_ifs with hlt
  · exact Nat.mod_eq_of_lt hlt
  · rw [Nat.mod_eq_sub_mod (by omega), Nat.mod_eq_of_lt (by omega)]

theorem next_lt (h : head < size) : next size head < size := Nat.mod_lt _ (by omega)

theorem occupied_lt (hh : head < size) : occupied size head tail < size := by
  unfold occupied
  split_ifs <;> omega

@[simp] theorem occupied_self : occupied size head head = 0 := by simp [occupied]

theorem occupied_eq_zero (ht : tail < size) :
    occupied size head tail = 0 ↔ head = tail := by
  unfold occupied
  split_ifs <;> omega

theorem occupied_fill (hh : head < size) (ht : tail < size)
    (hf : occupied size head tail + 1 < size) :
    occupied size (next size head) tail = occupied size head tail + 1 := by
  rw [next_eq hh]
  unfold occupied at *
  split_ifs at * <;> omega

theorem occupied_drain (hh : head < size) (ht : tail < size)
    (hf : 0 < occupied size head tail) :
    occupied size head (next size tail) + 1 = occupied size head tail := by
  rw [next_eq ht]
  unfold occupied at *
  split_ifs at * <;> omega

theorem slot_occupied (hh : head < size) (ht : tail < size) :
    slot size tail (occupied size head tail) = head := by
  rw [slot_eq ht (occupied_lt hh)]
  unfold occupied
  split_ifs <;> omega

theorem slot_ne_head {i : ℕ} (hh : head < size) (ht : tail < size)
    (hi : i < occupied size head tail) : slot size tail i ≠ head := by
  rw [slot_eq ht (hi.trans (occupied_lt hh))]
  unfold occupied at hi
  split_ifs at * <;> omega

theorem slot_zero (ht : tail < size) : slot size tail 0 = tail := Nat.mod_eq_of_lt ht

theorem slot_next {i : ℕ} (ht : tail < size) (hi : i + 1 < size) :
    slot size (next size tail) i = slot size tail (i + 1) := by
  rw [slot_eq (next_lt ht) (by omega), slot_eq ht hi, next_eq ht]
  split_ifs <;> omega

@[simp] theorem length_contents :
    (contents cells size head tail).length = occupied size head tail := by
  simp [contents]

@[simp] theorem contents_self : contents cells size head head = [] := by simp [contents]

theorem contents_eq_nil (ht : tail < size) :
    contents cells size head tail = [] ↔ head = tail := by
  rw [← List.length_eq_zero_iff, length_contents, occupied_eq_zero ht]

/-- The free cell at `head` is not part of the contents. -/
theorem contents_update (x : α) (hh : head < size) (ht : tail < size) :
    contents (Function.update cells head x) size head tail = contents cells size head tail := by
  unfold contents
  apply List.map_congr_left
  intro i hi
  exact Function.update_of_ne (slot_ne_head hh ht (List.mem_range.mp hi)) _ _

theorem contents_next (hh : head < size) (ht : tail < size)
    (hf : occupied size head tail + 1 < size) :
    contents cells size (next size head) tail = contents cells size head tail ++ [cells head] := by
  unfold contents
  rw [occupied_fill hh ht hf, List.range_succ, List.map_append, List.map_singleton,
    slot_occupied hh ht]

theorem contents_fill (x : α) (hh : head < size) (ht : tail < size)
    (hf : occupied size head tail + 1 < size) :
    contents (Function.update cells head x) size (next size head) tail =
      contents cells size head tail ++ [x] := by
  rw [contents_next hh ht hf, contents_update x hh ht, Function.update_self]

theorem contents_drain (hh : head < size) (ht : tail < size) (hne : head ≠ tail) :
    contents cells size head tail = cells tail :: contents cells size head (next size tail) := by
  have hpos : 0 < occupied size head tail :=
    Nat.pos_of_ne_zero fun h => hne ((occupied_eq_zero ht).mp h)
  have hlt : occupied size head tail < size := occupied_lt hh
  unfold contents
  rw [← occupied_drain hh ht hpos, List.range_succ_eq_map, List.map_cons, slot_zero ht,
    List.map_map]
  congr 1
  apply List.map_congr_left
  intro i hi
  have hi' := List.mem_range.mp hi
  have hd := occupied_drain hh ht hpos
  simp only [Function.comp, Nat.succ_eq_add_one]
  rw [slot_next ht (by omega)]

end Not232.RingBuffer
