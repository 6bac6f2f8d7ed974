import Mathlib.NumberTheory.Padics.PadicVal.Basic
import Mathlib.Data.Nat.Size
import Mathlib.Tactic

/-!
# Skip lists by trailing zeros

Node `c` of such a list points back to node `c - 2 ^ k` for every `k` up to the number of trailing
zeros of `c`. A walk to an earlier node takes the longest hop that does not pass it, and arrives
within twice as many hops as the distance has binary digits. The pointers of all nodes up to `n`
are counted by the binary digits of `n` too.
-/

namespace Not232.SkipList

variable {c t k n : ℕ}

/-! ### Counting pointers -/

theorem digits_sum_succ (n : ℕ) :
    padicValNat 2 (n + 1) + (Nat.digits 2 (n + 1)).sum = (Nat.digits 2 n).sum + 1 := by
  have hfactorial : padicValNat 2 (n + 1).factorial =
      padicValNat 2 (n + 1) + padicValNat 2 n.factorial := by
    rw [Nat.factorial_succ]
    exact padicValNat.mul n.succ_ne_zero n.factorial_ne_zero
  have hlegendre := sub_one_mul_padicValNat_factorial (p := 2) n
  have hlegendre' := sub_one_mul_padicValNat_factorial (p := 2) (n + 1)
  have hle := Nat.digit_sum_le 2 n
  have hle' := Nat.digit_sum_le 2 (n + 1)
  omega

theorem digits_sum_le_size (n : ℕ) : (Nat.digits 2 n).sum ≤ Nat.size n := by
  have hbound : ∀ d ∈ Nat.digits 2 n, d ≤ 1 := fun d hd =>
    Nat.le_of_lt_succ (Nat.digits_lt_base (by decide) hd)
  have hsum := List.sum_le_card_nsmul _ 1 hbound
  rw [smul_eq_mul, mul_one] at hsum
  apply hsum.trans
  rw [Nat.digits_length_le_iff (by decide)]
  exact Nat.lt_size_self n

theorem padicValNat_lt_size (hc : c ≠ 0) : padicValNat 2 c < Nat.size c :=
  Nat.lt_size.mpr (Nat.le_of_dvd (Nat.pos_of_ne_zero hc) pow_padicValNat_dvd)

/-! ### Hops -/

/-- The level of the longest hop from `c` that does not pass `t`. -/
def hop (t c : ℕ) : ℕ := min (Nat.size (c - t) - 1) (padicValNat 2 c)

theorem hop_le (h : t < c) : t + 2 ^ hop t c ≤ c := by
  have hsize : 0 < Nat.size (c - t) := Nat.size_pos.mpr (Nat.sub_pos_of_lt h)
  have hlt : hop t c < Nat.size (c - t) := by
    unfold hop
    omega
  have hpow := Nat.lt_size.mp hlt
  omega

theorem pow_le_of_le_padicValNat (hc : c ≠ 0) (hk : k ≤ padicValNat 2 c) : 2 ^ k ≤ c :=
  Nat.le_of_dvd (Nat.pos_of_ne_zero hc)
    ((Nat.pow_dvd_pow 2 hk).trans pow_padicValNat_dvd)

/-- Below the number of trailing zeros a hop leaves as many trailing zeros as its level. -/
theorem padicValNat_sub_pow (hk : k < padicValNat 2 c) : padicValNat 2 (c - 2 ^ k) = k := by
  have hc : c ≠ 0 := by
    rintro rfl
    rw [padicValNat_zero_right] at hk
    exact Nat.not_lt_zero k hk
  have hnext := pow_le_of_le_padicValNat hc (Nat.succ_le_of_lt hk)
  have hpow : 2 ^ (k + 1) = 2 * 2 ^ k := pow_succ' 2 k
  have hpos : 0 < 2 ^ k := Nat.two_pow_pos k
  have hne : c - 2 ^ k ≠ 0 := by omega
  have hdvd : 2 ^ (k + 1) ∣ c := (Nat.pow_dvd_pow 2 hk).trans pow_padicValNat_dvd
  apply le_antisymm
  · by_contra hlt
    have hdvd' : 2 ^ (k + 1) ∣ c - 2 ^ k :=
      (Nat.pow_dvd_pow 2 (Nat.lt_of_not_le hlt)).trans pow_padicValNat_dvd
    have hself : 2 ^ (k + 1) ∣ 2 ^ k := by
      have hsub := Nat.dvd_sub hdvd hdvd'
      rwa [Nat.sub_sub_self (by omega)] at hsub
    have hle := Nat.le_of_dvd hpos hself
    omega
  · rw [← padicValNat_dvd_iff_le hne]
    exact Nat.dvd_sub ((pow_dvd_pow 2 k.le_succ).trans hdvd) (dvd_refl _)

/-- A hop over all trailing zeros leaves more of them. -/
theorem lt_padicValNat_sub_pow (hne : c - 2 ^ padicValNat 2 c ≠ 0) :
    padicValNat 2 c < padicValNat 2 (c - 2 ^ padicValNat 2 c) := by
  have hc : c ≠ 0 := by
    rintro rfl
    exact hne (Nat.zero_sub _)
  obtain ⟨m, hm⟩ := pow_padicValNat_dvd (p := 2) (n := c)
  have hodd : ¬ 2 ∣ m := by
    rintro ⟨q, rfl⟩
    have hdvd : 2 ^ (padicValNat 2 c + 1) ∣ c := by
      refine ⟨q, ?_⟩
      rw [pow_succ, mul_assoc]
      exact hm
    rw [padicValNat_dvd_iff_le hc] at hdvd
    exact absurd hdvd (Nat.not_succ_le_self _)
  obtain ⟨q, hq⟩ : 2 ∣ m - 1 := by omega
  have hsub : c - 2 ^ padicValNat 2 c = 2 ^ (padicValNat 2 c + 1) * q := by
    calc c - 2 ^ padicValNat 2 c = 2 ^ padicValNat 2 c * m - 2 ^ padicValNat 2 c := by rw [← hm]
      _ = 2 ^ padicValNat 2 c * (m - 1) := by rw [Nat.mul_sub, Nat.mul_one]
      _ = 2 ^ (padicValNat 2 c + 1) * q := by rw [hq, pow_succ, mul_assoc]
  rw [← Nat.succ_le_iff, ← padicValNat_dvd_iff_le hne, hsub]
  exact Dvd.intro q rfl

/-- A bound on the hops that are left. First they use up the trailing zeros, which grow; then each
of them halves the distance. -/
def hopsLeft (t c : ℕ) : ℕ :=
  if padicValNat 2 c < Nat.size (c - t) then 2 * Nat.size (c - t) - padicValNat 2 c
  else Nat.size (c - t)

theorem hopsLeft_le (t c : ℕ) : hopsLeft t c ≤ 2 * Nat.size (c - t) := by
  unfold hopsLeft
  split <;> omega

theorem size_le_hopsLeft (t c : ℕ) : Nat.size (c - t) ≤ hopsLeft t c := by
  unfold hopsLeft
  split <;> omega

theorem hopsLeft_hop (h : t < c) : hopsLeft t (c - 2 ^ hop t c) < hopsLeft t c := by
  have hsize : 0 < Nat.size (c - t) := Nat.size_pos.mpr (Nat.sub_pos_of_lt h)
  have hle := hop_le h
  by_cases hphase : padicValNat 2 c < Nat.size (c - t)
  · have hhop : hop t c = padicValNat 2 c := by
      unfold hop
      omega
    have hshrinks : Nat.size (c - 2 ^ padicValNat 2 c - t) ≤ Nat.size (c - t) :=
      Nat.size_le_size (Nat.sub_le_sub_right (Nat.sub_le _ _) t)
    rw [hhop] at hle ⊢
    have hbefore : hopsLeft t c = 2 * Nat.size (c - t) - padicValNat 2 c := if_pos hphase
    by_cases hzero : c - 2 ^ padicValNat 2 c = 0
    · have hdone : hopsLeft t (c - 2 ^ padicValNat 2 c) = 0 := by
        rw [hzero]
        simp [hopsLeft]
      omega
    · have hgrows := lt_padicValNat_sub_pow hzero
      unfold hopsLeft at hbefore ⊢
      split <;> omega
  · have hhop : hop t c = Nat.size (c - t) - 1 := by
      unfold hop
      omega
    have hbefore : hopsLeft t c = Nat.size (c - t) := if_neg hphase
    have hlevel : padicValNat 2 (c - 2 ^ hop t c) = hop t c := padicValNat_sub_pow (by omega)
    have hhalves : Nat.size (c - 2 ^ hop t c - t) ≤ hop t c := by
      rw [Nat.size_le]
      have hdistance := Nat.lt_size_self (c - t)
      have hpow : 2 ^ Nat.size (c - t) = 2 * 2 ^ hop t c := by
        rw [hhop, ← pow_succ', Nat.sub_add_cancel hsize]
      omega
    have hafter : hopsLeft t (c - 2 ^ hop t c) = Nat.size (c - 2 ^ hop t c - t) :=
      if_neg (by omega)
    omega

end Not232.SkipList
