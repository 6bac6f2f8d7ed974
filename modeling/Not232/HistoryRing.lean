import Mathlib.Logic.Function.Basic
import Mathlib.Data.List.Basic
import Mathlib.Data.Nat.ModEq

/-!
# Rings that keep the newest entries of a history

Entry `i` of a history is written to cell `i % size`, over the entry that was there. The ring then
holds the last `size` entries, and what a cell holds after more entries is the newest of those that
fall on it.
-/

namespace Not232.HistoryRing

variable {α : Type} {size : ℕ} {cells : ℕ → α} {history : List α}

/-- Each of the last `size` entries is in its cell. -/
def Holds (size : ℕ) (cells : ℕ → α) (history : List α) : Prop :=
  ∀ i (h : i < history.length), history.length ≤ i + size → cells (i % size) = history[i]

theorem holds_nil (cells : ℕ → α) : Holds size cells [] := by
  intro i h
  exact absurd h (Nat.not_lt_zero i)

theorem Holds.push (h : Holds size cells history) (x : α) :
    Holds size (Function.update cells (history.length % size) x) (history ++ [x]) := by
  intro i hi hroom
  rw [List.length_append, List.length_singleton] at hi hroom
  by_cases hlast : i = history.length
  · subst hlast
    rw [Function.update_self, List.getElem_concat_length rfl]
  · have hlt : i < history.length := by omega
    have hne : i % size ≠ history.length % size := by
      intro heq
      have hdvd : size ∣ history.length - i := (Nat.modEq_iff_dvd' hlt.le).mp heq
      have hle := Nat.le_of_dvd (by omega) hdvd
      omega
    rw [Function.update_of_ne hne, List.getElem_append_left hlt]
    exact h i hlt (by omega)

/-- The newest entry of a history of the given length that falls on the cell of entry `i`. -/
def newest (size length i : ℕ) : ℕ := i + size * ((length - 1 - i) / size)

theorem newest_lt {length i : ℕ} (hi : i < length) : newest size length i < length := by
  have hle := Nat.mul_div_le (length - 1 - i) size
  unfold newest
  omega

theorem newest_add {length i : ℕ} (hsize : 0 < size) (hi : i < length) :
    length ≤ newest size length i + size := by
  have hlt := Nat.lt_mul_div_succ (length - 1 - i) hsize
  rw [Nat.mul_add, Nat.mul_one] at hlt
  unfold newest
  omega

theorem newest_mod (size length i : ℕ) : newest size length i % size = i % size :=
  Nat.add_mul_mod_self_left i size _

theorem newest_of_le {length i : ℕ} (h : length ≤ i + size) : newest size length i = i := by
  by_cases hi : i < length
  · rw [newest, Nat.div_eq_of_lt (by omega), Nat.mul_zero, Nat.add_zero]
  · have hpast : length - 1 - i = 0 := by omega
    rw [newest, hpast, Nat.zero_div, Nat.mul_zero, Nat.add_zero]

theorem Holds.getElem?_newest (h : Holds size cells history) (hsize : 0 < size) {i : ℕ}
    (hi : i < history.length) :
    history[newest size history.length i]? = some (cells (i % size)) := by
  have hlt : newest size history.length i < history.length := newest_lt hi
  rw [← newest_mod size history.length i, h _ hlt (newest_add hsize hi)]
  exact List.getElem?_eq_getElem hlt

/-- The newest of the later entries that falls on the cell of entry `i` of a history of the given
length. -/
def overwriting (size length i : ℕ) (later : List α) : Option α :=
  later[newest size later.length (i + size - length)]?

/-- A cell holds the newest later entry that falls on it, or else what the history left there. -/
theorem Holds.cell_append {later : List α} (h : Holds size cells (history ++ later)) {i : ℕ}
    (hi : i < history.length) (hroom : history.length ≤ i + size) :
    cells (i % size) = (overwriting size history.length i later).getD history[i] := by
  have hi' : i < (history ++ later).length := by
    rw [List.length_append]
    omega
  have hcell := h.getElem?_newest (by omega) hi'
  rw [List.length_append] at hcell
  unfold overwriting
  by_cases hlater : later.length ≤ i + size - history.length
  · rw [newest_of_le (by omega), List.getElem?_append_left hi, List.getElem?_eq_getElem hi] at hcell
    rw [newest_of_le (by omega), List.getElem?_eq_none hlater, Option.getD_none]
    exact (Option.some.inj hcell).symm
  · have hturn : history.length + later.length - 1 - i =
        later.length - 1 - (i + size - history.length) + size := by omega
    have hnewest : newest size (history.length + later.length) i =
        history.length + newest size later.length (i + size - history.length) := by
      unfold newest
      rw [hturn, Nat.add_div_right _ (by omega), Nat.mul_add, Nat.mul_one]
      omega
    rw [hnewest, List.getElem?_append_right (Nat.le_add_right _ _), Nat.add_sub_cancel_left]
      at hcell
    rw [hcell, Option.getD_some]

end Not232.HistoryRing
