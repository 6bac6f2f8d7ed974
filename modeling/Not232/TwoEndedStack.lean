import Mathlib.Data.List.Induction
import Mathlib.Data.List.Nodup
import Mathlib.Logic.Function.Basic

/-!
# Stacks that grow from both ends of an array

The entries of a stack are numbered in the order they are pushed, and the cell of an entry depends
on its number and on the direction it is pushed in. Nothing is overwritten as long as the cells of a
sequence of pushes are different, and popping in the reverse directions then reads the entries back
in reverse order.
-/

namespace Not232.TwoEndedStack

variable {δ α : Type}

/-- The cells of entries pushed in the given directions, the first of them with number `n`. -/
def addresses (addr : δ → ℕ → ℕ) : List δ → (n : ℕ) → List ℕ
  | [], _ => []
  | d :: rest, n => addr d n :: addresses addr rest (n + 1)

/-- The cells read by pops in the given directions from a stack of `n` entries. -/
def popAddresses (addr : δ → ℕ → ℕ) : List δ → (n : ℕ) → List ℕ
  | [], _ => []
  | d :: rest, n => addr d (n - 1) :: popAddresses addr rest (n - 1)

def pushAll (addr : δ → ℕ → ℕ) : List (δ × α) → (n : ℕ) → (ℕ → α) → ℕ → α
  | [], _, cells => cells
  | (d, x) :: rest, n, cells =>
    pushAll addr rest (n + 1) (Function.update cells (addr d n) x)

variable {addr : δ → ℕ → ℕ}

theorem mem_addresses {dirs : List δ} {n a : ℕ} (h : a ∈ addresses addr dirs n) :
    ∃ d ∈ dirs, ∃ i, n ≤ i ∧ i < n + dirs.length ∧ a = addr d i := by
  induction dirs generalizing n with
  | nil => exact absurd h List.not_mem_nil
  | cons d rest ih =>
    rw [List.length_cons]
    rcases List.mem_cons.mp h with rfl | h
    · exact ⟨d, List.mem_cons_self, n, Nat.le_refl n, by omega, rfl⟩
    · obtain ⟨e, he, i, hn, hi, rfl⟩ := ih h
      exact ⟨e, List.mem_cons_of_mem d he, i, by omega, by omega, rfl⟩

theorem addresses_concat (dirs : List δ) (d : δ) (n : ℕ) :
    addresses addr (dirs ++ [d]) n = addresses addr dirs n ++ [addr d (n + dirs.length)] := by
  induction dirs generalizing n with
  | nil => rfl
  | cons e rest ih =>
    rw [List.cons_append, addresses, ih, addresses, List.cons_append, List.length_cons,
      Nat.add_assoc, Nat.add_comm 1]

/-- Pops in the reverse directions read the cells of the pushes in reverse. -/
theorem popAddresses_reverse (dirs : List δ) :
    popAddresses addr dirs.reverse dirs.length = (addresses addr dirs 0).reverse := by
  induction dirs using List.reverseRecOn with
  | nil => rfl
  | append_singleton dirs d ih =>
    rw [List.reverse_append, List.reverse_singleton, List.singleton_append, List.length_append,
      List.length_singleton, popAddresses, Nat.add_sub_cancel, ih, addresses_concat,
      List.reverse_append, List.reverse_singleton, List.singleton_append, Nat.zero_add]

theorem pushAll_of_not_mem {entries : List (δ × α)} {n a : ℕ} {cells : ℕ → α}
    (h : a ∉ addresses addr (entries.map Prod.fst) n) :
    pushAll addr entries n cells a = cells a := by
  induction entries generalizing n cells with
  | nil => rfl
  | cons entry rest ih =>
    obtain ⟨hne, hrest⟩ := List.ne_and_not_mem_of_not_mem_cons h
    rw [pushAll, ih hrest, Function.update_of_ne hne]

/-- As long as their cells are different, every pushed entry is in its cell. -/
theorem map_pushAll {entries : List (δ × α)} {n : ℕ} {cells : ℕ → α}
    (h : (addresses addr (entries.map Prod.fst) n).Nodup) :
    (addresses addr (entries.map Prod.fst) n).map (pushAll addr entries n cells) =
      entries.map Prod.snd := by
  induction entries generalizing n cells with
  | nil => rfl
  | cons entry rest ih =>
    obtain ⟨hfree, hrest⟩ := List.nodup_cons.mp h
    rw [List.map_cons, List.map_cons, addresses, List.map_cons, pushAll, pushAll_of_not_mem hfree,
      Function.update_self, ih hrest]

theorem map_pushAll_reverse {entries : List (δ × α)} (cells : ℕ → α)
    (h : (addresses addr (entries.map Prod.fst) 0).Nodup) :
    (popAddresses addr (entries.map Prod.fst).reverse entries.length).map
        (pushAll addr entries 0 cells) = (entries.map Prod.snd).reverse := by
  rw [← List.length_map Prod.fst, popAddresses_reverse, List.map_reverse, map_pushAll h]

/-! ### Two ends -/

inductive End
  | bottom
  | top

/-- Entry `i` of an array of `size` cells. -/
def cell (size : ℕ) : End → ℕ → ℕ
  | .bottom, i => i
  | .top, i => size - 1 - i

/-- All pushes are at one end and fit into the array, or they fit into half of it. -/
def Fits (size : ℕ) (ends : List End) (n : ℕ) : Prop :=
  (∃ e, ∀ d ∈ ends, d = e) ∧ n + ends.length ≤ size ∨ 2 * (n + ends.length) ≤ size

theorem Fits.tail {size n : ℕ} {e : End} {ends : List End} (h : Fits size (e :: ends) n) :
    Fits size ends (n + 1) := by
  unfold Fits at h ⊢
  rw [List.length_cons] at h
  refine h.imp (fun h => ⟨?_, by omega⟩) fun h => by omega
  obtain ⟨⟨d, hd⟩, _⟩ := h
  exact ⟨d, fun e he => hd e (List.mem_cons_of_mem _ he)⟩

theorem cell_ne {size i j : ℕ} {d e : End} (hij : i < j) (hj : j < size)
    (h : d = e ∨ i + j + 1 < size) : cell size d i ≠ cell size e j := by
  cases d with
  | bottom =>
    cases e with
    | bottom => exact Nat.ne_of_lt hij
    | top =>
      have hsum : i + j + 1 < size := h.resolve_left End.noConfusion
      simp only [cell]
      omega
  | top =>
    cases e with
    | bottom =>
      have hsum : i + j + 1 < size := h.resolve_left End.noConfusion
      simp only [cell]
      omega
    | top =>
      simp only [cell]
      omega

theorem nodup_addresses {size n : ℕ} {ends : List End} (h : Fits size ends n) :
    (addresses (cell size) ends n).Nodup := by
  induction ends generalizing n with
  | nil => exact List.nodup_nil
  | cons d rest ih =>
    refine List.nodup_cons.mpr ⟨fun hmem => ?_, ih h.tail⟩
    obtain ⟨e, he, i, hn, hi, heq⟩ := mem_addresses hmem
    unfold Fits at h
    rw [List.length_cons] at h
    have hbefore : n < i := by omega
    refine cell_ne hbefore (by omega) ?_ heq
    rcases h with ⟨⟨c, hc⟩, _⟩ | h
    · exact .inl ((hc d List.mem_cons_self).trans (hc e (List.mem_cons_of_mem d he)).symm)
    · exact .inr (by omega)

end Not232.TwoEndedStack
