import Mathlib.Tactic

/-!
# Lists cut into chunks

A list is cut into chunks of `n` elements from the front; the last chunk holds what is left, and
there is none for an empty rest.
-/

namespace Not232.Chunks

variable {α : Type} {n : ℕ}

def chunks (n : ℕ) (l : List α) : List (List α) :=
  if l = [] ∨ n = 0 then [] else l.take n :: chunks n (l.drop n)
termination_by l.length
decreasing_by
  rename_i h
  rw [List.length_drop]
  have hpos : 0 < l.length := List.length_pos_iff.mpr fun hnil => h (.inl hnil)
  omega

@[simp] theorem chunks_nil (n : ℕ) : chunks n ([] : List α) = [] := by
  rw [chunks, if_pos (.inl rfl)]

theorem chunks_of_ne_nil (hn : 0 < n) {l : List α} (hl : l ≠ []) :
    chunks n l = l.take n :: chunks n (l.drop n) := by
  rw [chunks, if_neg]
  rintro (h | h)
  · exact hl h
  · omega

theorem flatten_chunks (hn : 0 < n) (l : List α) : (chunks n l).flatten = l := by
  induction hlen : l.length using Nat.strong_induction_on generalizing l with
  | _ k ih =>
    by_cases hl : l = []
    · rw [hl, chunks_nil, List.flatten_nil]
    · have hpos : 0 < l.length := List.length_pos_iff.mpr hl
      have hrest := ih (l.drop n).length (by rw [List.length_drop]; omega) (l.drop n) rfl
      rw [chunks_of_ne_nil hn hl, List.flatten_cons, hrest, List.take_append_drop]

/-- The chunks are full, and a last one that is shorter and not empty follows unless `n` divides
the length. -/
theorem chunks_eq (hn : 0 < n) (l : List α) :
    ∃ full last, chunks n l = (full ++ if last = [] then [] else [last]) ∧
      (∀ c ∈ full, c.length = n) ∧ last.length < n := by
  induction hlen : l.length using Nat.strong_induction_on generalizing l with
  | _ k ih =>
    by_cases hl : l = []
    · exact ⟨[], [], by rw [hl, chunks_nil]; rfl, nofun, hn⟩
    have hpos : 0 < l.length := List.length_pos_iff.mpr hl
    by_cases hshort : l.length < n
    · refine ⟨[], l, ?_, nofun, hshort⟩
      rw [chunks_of_ne_nil hn hl, List.drop_of_length_le hshort.le, chunks_nil, if_neg hl,
        List.take_of_length_le hshort.le, List.nil_append]
    · obtain ⟨full, last, heq, hfull, hlast⟩ :=
        ih (l.drop n).length (by rw [List.length_drop]; omega) (l.drop n) rfl
      refine ⟨l.take n :: full, last, ?_, ?_, hlast⟩
      · rw [chunks_of_ne_nil hn hl, heq, List.cons_append]
      · rw [List.forall_mem_cons]
        exact ⟨List.length_take_of_le (Nat.le_of_not_lt hshort), hfull⟩

theorem length_flatten_of_forall {full : List (List α)} (h : ∀ c ∈ full, c.length = n) :
    full.flatten.length = n * full.length := by
  induction full with
  | nil => simp
  | cons c full ih =>
    rw [List.forall_mem_cons] at h
    rw [List.flatten_cons, List.length_append, h.1, ih h.2, List.length_cons, Nat.mul_succ,
      Nat.add_comm]

end Not232.Chunks
