import Mathlib.Analysis.Convex.Jensen
import Mathlib.Analysis.SpecialFunctions.Log.Base
import Mathlib.Analysis.SpecialFunctions.Log.NegMulLog

/-!
# Shannon entropy

A distribution on a finite set of outcomes, each of them possible, and its
entropy in bits: the mean of log₂ (1 / p).

* `entropy_nonneg`, `entropy_le`: 0 ≤ H ≤ log₂ k, for k outcomes.
* `entropy_eq_iff`: H = log₂ k exactly when all outcomes are equally likely.
* `entropy_eq_zero_iff`: H = 0 exactly when there is one outcome.
* `empirical`: the relative frequencies of the values of a list.

The upper bound is Jensen's inequality for `Real.negMulLog` with equal weights,
and its equality case is that of a strictly concave function.
-/

namespace Shannon

open Real

/-- The logarithm to the base 2. -/
noncomputable def log2 (x : ℝ) : ℝ := logb 2 x

theorem log2_pow (x : ℝ) (n : Nat) : log2 (x ^ n) = n * log2 x := logb_pow 2 x n

theorem log2_two_pow (n : Nat) : log2 (2 ^ n) = n := by
  rw [log2_pow, log2, logb_self_eq_one one_lt_two, mul_one]

theorem log2_inv (x : ℝ) : log2 x⁻¹ = -log2 x := logb_inv 2 x

theorem log2_le_log2 {x y : ℝ} (hx : 0 < x) (h : x ≤ y) : log2 x ≤ log2 y :=
  logb_le_logb_of_le one_lt_two hx h

theorem log2_lt_log2 {x y : ℝ} (hx : 0 < x) (h : x < y) : log2 x < log2 y :=
  logb_lt_logb one_lt_two hx h

variable {α : Type}

structure Distribution (s : Finset α) where
  prob : α → ℝ
  pos : ∀ x ∈ s, 0 < prob x
  sum_eq_one : ∑ x ∈ s, prob x = 1

namespace Distribution

variable {s : Finset α}

theorem nonempty (P : Distribution s) : s.Nonempty := by
  rw [Finset.nonempty_iff_ne_empty]
  rintro rfl
  have h := P.sum_eq_one
  rw [Finset.sum_empty] at h
  exact zero_ne_one h

theorem card_pos (P : Distribution s) : (0 : ℝ) < s.card := Nat.cast_pos.mpr P.nonempty.card_pos

variable (P : Distribution s)

/-- The entropy, in bits. -/
noncomputable def entropy : ℝ := ∑ x ∈ s, P.prob x * log2 (1 / P.prob x)

theorem prob_le_one {x : α} (hx : x ∈ s) : P.prob x ≤ 1 := by
  rw [← P.sum_eq_one]
  exact Finset.single_le_sum (fun y hy => (P.pos y hy).le) hx

/-- With an outcome of probability 1 there is no other. -/
theorem eq_of_prob_eq_one {x y : α} (hx : x ∈ s) (hy : y ∈ s) (h : P.prob x = 1) : y = x := by
  classical
  by_contra hne
  have hle : P.prob y + P.prob x ≤ ∑ z ∈ s, P.prob z := by
    rw [← Finset.sum_pair hne]
    refine Finset.sum_le_sum_of_subset_of_nonneg ?_ fun z hz _ => (P.pos z hz).le
    exact Finset.insert_subset hy (Finset.singleton_subset_iff.mpr hx)
  have hpos := P.pos y hy
  rw [P.sum_eq_one, h] at hle
  linarith only [hle, hpos]

/-! ## The least value -/

theorem term_nonneg {x : α} (hx : x ∈ s) : 0 ≤ P.prob x * log2 (1 / P.prob x) := by
  refine mul_nonneg (P.pos x hx).le (logb_nonneg one_lt_two ?_)
  rw [one_le_div (P.pos x hx)]
  exact P.prob_le_one hx

theorem term_eq_zero_iff {x : α} (hx : x ∈ s) :
    P.prob x * log2 (1 / P.prob x) = 0 ↔ P.prob x = 1 := by
  have hpos := P.pos x hx
  constructor
  · intro h
    rcases mul_eq_zero.mp h with h0 | h0
    · exact absurd h0 hpos.ne'
    · by_contra hne
      have hlt : 1 < 1 / P.prob x := by
        rw [one_lt_div hpos]
        exact lt_of_le_of_ne (P.prob_le_one hx) hne
      exact absurd h0 (logb_pos one_lt_two hlt).ne'
  · intro h
    rw [h, div_one, log2, logb_one, mul_zero]

theorem entropy_nonneg : 0 ≤ P.entropy := Finset.sum_nonneg fun _ hx => P.term_nonneg hx

theorem entropy_eq_zero_iff : P.entropy = 0 ↔ s.card = 1 := by
  rw [entropy, Finset.sum_eq_zero_iff_of_nonneg fun x hx => P.term_nonneg hx, Finset.card_eq_one]
  constructor
  · intro h
    obtain ⟨x, hx⟩ := P.nonempty
    have hone : P.prob x = 1 := (P.term_eq_zero_iff hx).mp (h x hx)
    refine ⟨x, Finset.eq_singleton_iff_unique_mem.mpr ⟨hx, fun y hy => ?_⟩⟩
    exact P.eq_of_prob_eq_one hx hy hone
  · rintro ⟨x, rfl⟩ y hy
    obtain rfl := Finset.mem_singleton.mp hy
    rw [P.term_eq_zero_iff hy, ← P.sum_eq_one, Finset.sum_singleton]

/-! ## The greatest value -/

/-- The two sides of Jensen's inequality with the weights 1 / k: the mean of the terms .. -/
theorem mean_negMulLog :
    ∑ x ∈ s, (s.card : ℝ)⁻¹ • negMulLog (P.prob x) = (s.card : ℝ)⁻¹ * log 2 * P.entropy := by
  have hlog : log 2 ≠ 0 := (log_pos one_lt_two).ne'
  rw [entropy, Finset.mul_sum]
  refine Finset.sum_congr rfl fun x _ => ?_
  rw [smul_eq_mul, negMulLog, one_div, log2_inv, log2, logb]
  field_simp

/-- .. and the term of the mean. -/
theorem negMulLog_mean :
    negMulLog (∑ x ∈ s, (s.card : ℝ)⁻¹ • P.prob x) = (s.card : ℝ)⁻¹ * log 2 * log2 s.card := by
  have hlog : log 2 ≠ 0 := (log_pos one_lt_two).ne'
  have hmean : ∑ x ∈ s, (s.card : ℝ)⁻¹ • P.prob x = (s.card : ℝ)⁻¹ := by
    rw [← Finset.smul_sum, P.sum_eq_one, smul_eq_mul, mul_one]
  rw [hmean, negMulLog, log_inv, log2, logb]
  field_simp

theorem sum_weights (hcard : (0 : ℝ) < s.card) : ∑ _x ∈ s, (s.card : ℝ)⁻¹ = 1 := by
  rw [Finset.sum_const, nsmul_eq_mul, mul_inv_cancel₀ hcard.ne']

theorem scale_pos (hcard : (0 : ℝ) < s.card) : 0 < (s.card : ℝ)⁻¹ * log 2 :=
  mul_pos (inv_pos.mpr hcard) (log_pos one_lt_two)

theorem entropy_le : P.entropy ≤ log2 s.card := by
  have hcard := P.card_pos
  have hjensen := concaveOn_negMulLog.le_map_sum (fun _ _ => (inv_pos.mpr hcard).le)
    (sum_weights hcard) fun x hx => Set.mem_Ici.mpr (P.pos x hx).le
  rw [P.mean_negMulLog, P.negMulLog_mean] at hjensen
  exact le_of_mul_le_mul_left hjensen (scale_pos hcard)

theorem entropy_eq_iff :
    P.entropy = log2 s.card ↔ ∀ x ∈ s, ∀ y ∈ s, P.prob x = P.prob y := by
  have hcard := P.card_pos
  have hjensen := strictConcaveOn_negMulLog.map_sum_eq_iff_of_pos (fun _ _ => inv_pos.mpr hcard)
    (sum_weights hcard) fun x hx => Set.mem_Ici.mpr (P.pos x hx).le
  rw [P.mean_negMulLog, P.negMulLog_mean] at hjensen
  rw [eq_comm, ← mul_right_inj' (scale_pos hcard).ne', hjensen]

end Distribution

/-! ## Frequencies -/

theorem length_ne_zero {xs : List α} (h : xs ≠ []) : (xs.length : ℝ) ≠ 0 :=
  Nat.cast_ne_zero.mpr (List.length_pos_of_ne_nil h).ne'

section
variable [DecidableEq α] (xs : List α) (h : xs ≠ [])

theorem sum_count : ∑ x ∈ xs.toFinset, xs.count x = xs.length := by
  have hsum := Multiset.toFinset_sum_count_eq (xs : Multiset α)
  simpa only [List.toFinset_coe, Multiset.coe_count, Multiset.coe_card] using hsum

/-- The relative frequencies of the values that occur in a list. -/
noncomputable def empirical : Distribution xs.toFinset where
  prob x := xs.count x / xs.length
  pos x hx := by
    have hcount : 0 < xs.count x := List.count_pos_iff.mpr (List.mem_toFinset.mp hx)
    have hlength : 0 < xs.length := List.length_pos_of_ne_nil h
    positivity
  sum_eq_one := by
    rw [← Finset.sum_div, ← Nat.cast_sum, sum_count, div_self (length_ne_zero h)]

theorem empirical_prob (x : α) : (empirical xs h).prob x = xs.count x / xs.length := rfl

/-- The entropy of a list is greatest when its values occur equally often. -/
theorem empirical_entropy_eq_iff :
    (empirical xs h).entropy = log2 xs.toFinset.card ↔
      ∀ x ∈ xs, ∀ y ∈ xs, xs.count x = xs.count y := by
  simp only [Distribution.entropy_eq_iff, List.mem_toFinset, empirical_prob,
    div_left_inj' (length_ne_zero h), Nat.cast_inj]

end

end Shannon
