import Mathlib.Data.List.Sort

/-!
# Indices and slices of a Python list

`l[index]` and `l[start:stop:step]` as the language reference has them: the
positions selected, among those there are.

* `progression_eq_filter`: counting up from the first position finds the same.
* `progression_eq_filter_reverse`: so does counting down.
-/

namespace Py

variable {α : Type}

/-- The position that `[index]` names of `n`. -/
def indexPosition (n : Nat) (index : Int) : Option Nat :=
  if 0 ≤ index ∧ index < n then some index.toNat
  else if index < 0 ∧ 0 ≤ index + n then some (index + n).toNat
  else none

/-- `l[index]`, which has no value out of range. -/
def listItem (l : List α) (index : Int) : Option α :=
  (indexPosition l.length index).bind fun p => l[p]?

/-- A negative bound of a slice counts from the end. -/
def fromEnd (n : Nat) (i : Int) : Int := if i < 0 then i + n else i

/-- The positions that `[start:stop:step]` selects of `n`, in order. -/
def slicePositions (n : Nat) (start stop : Option Int) (step : Int) : List Nat :=
  if 0 < step then
    let first := start.elim 0 fun i => max (fromEnd n i) 0
    let limit := stop.elim (n : Int) (fromEnd n)
    (List.range n).filter fun p : Nat =>
      decide (first ≤ p ∧ (p : Int) < limit ∧ step ∣ p - first)
  else
    let first := start.elim (n - 1 : Int) fun i => min (fromEnd n i) (n - 1)
    let limit := stop.elim (-1) (fromEnd n)
    (List.range n).reverse.filter fun p : Nat =>
      decide ((p : Int) ≤ first ∧ limit < p ∧ step ∣ first - p)

/-- `l[start:stop:step]`, which has no value for the step 0. -/
def listSlice (l : List α) (start stop step : Option Int) : Option (List α) :=
  if step = some 0 then none
  else some ((slicePositions l.length start stop (step.getD 1)).filterMap fun p => l[p]?)

/-- Every third of ten, back from the last but one. -/
example : listSlice (List.range 10) (some (-2)) none (some (-3)) = some [8, 5, 2] := by decide

theorem indexPosition_lt {n : Nat} {index : Int} {p : Nat} (h : indexPosition n index = some p) :
    p < n := by
  unfold indexPosition at h
  split at h
  · cases h
    omega
  · split at h
    · cases h
      omega
    · cases h

theorem slicePositions_lt {n : Nat} {start stop : Option Int} {step : Int} {p : Nat}
    (h : p ∈ slicePositions n start stop step) : p < n := by
  unfold slicePositions at h
  split at h
  · exact List.mem_range.mp (List.mem_filter.mp h).1
  · exact List.mem_range.mp (List.mem_reverse.mp (List.mem_filter.mp h).1)

/-! ## Arithmetic progressions -/

def progression (start step : Int) (count : Nat) : List Int :=
  (List.range count).map fun i : Nat => start + step * (i : Int)

theorem mem_progression {start step x : Int} {count : Nat} :
    x ∈ progression start step count ↔ ∃ i : Nat, i < count ∧ x = start + step * i := by
  rw [progression, List.mem_map]
  constructor
  · rintro ⟨i, hi, rfl⟩
    exact ⟨i, List.mem_range.mp hi, rfl⟩
  · rintro ⟨i, hi, rfl⟩
    exact ⟨i, List.mem_range.mpr hi, rfl⟩

theorem progression_sorted {start step : Int} (h : 0 < step) (count : Nat) :
    (progression start step count).Pairwise (· < ·) := by
  rw [progression, List.pairwise_map]
  refine List.pairwise_lt_range.imp fun {i j} hij => ?_
  have hlt : step * (i : Int) < step * j := Int.mul_lt_mul_of_pos_left (by omega) h
  omega

/-- The terms from `a` below `b`, for a step up. -/
theorem mem_progression_up {a b k x : Int} (hk : 0 < k) :
    x ∈ progression a k ((b - a + k - 1) / k).toNat ↔ a ≤ x ∧ x < b ∧ k ∣ x - a := by
  rw [mem_progression]
  constructor
  · rintro ⟨i, hi, rfl⟩
    have hle : (i : Int) + 1 ≤ (b - a + k - 1) / k := by omega
    rw [Int.le_ediv_iff_mul_le hk, Int.add_mul, Int.mul_comm (i : Int)] at hle
    have hpos : 0 ≤ k * (i : Int) := Int.mul_nonneg (by omega) (by omega)
    refine ⟨by omega, by omega, ?_⟩
    rw [show a + k * (i : Int) - a = k * i by omega]
    exact Int.dvd_mul_right k i
  · rintro ⟨hax, hxb, c, hc⟩
    have hnonneg : 0 ≤ c := by
      by_contra hneg
      have hlt : k * c < 0 := Int.mul_neg_of_pos_of_neg hk (by omega)
      omega
    have hle : c + 1 ≤ (b - a + k - 1) / k := by
      rw [Int.le_ediv_iff_mul_le hk, Int.add_mul, Int.mul_comm c]
      omega
    refine ⟨c.toNat, by omega, ?_⟩
    rw [Int.toNat_of_nonneg hnonneg]
    omega

theorem progression_neg (a k : Int) (count : Nat) :
    progression a k count = (progression (-a) (-k) count).map fun x => -x := by
  rw [progression, progression, List.map_map]
  refine List.map_congr_left fun i _ => ?_
  show a + k * i = -(-a + -k * i)
  rw [Int.neg_mul]
  omega

/-- **Counting up** finds the positions that qualify. -/
theorem progression_eq_filter {a b k : Int} {n : Nat} (hk : 0 < k) (ha : 0 ≤ a) (hb : b ≤ n) :
    progression a k ((b - a + k - 1) / k).toNat =
      ((List.range n).filter fun p : Nat => decide (a ≤ p ∧ (p : Int) < b ∧ k ∣ p - a)).map Int.ofNat := by
  have hsorted : (((List.range n).filter fun p : Nat =>
      decide (a ≤ p ∧ (p : Int) < b ∧ k ∣ p - a)).map Int.ofNat).Pairwise (· < ·) := by
    rw [List.pairwise_map]
    exact (List.pairwise_lt_range.sublist List.filter_sublist).imp Int.ofNat_lt.mpr
  refine (progression_sorted hk _).eq_of_mem_iff hsorted fun x => ?_
  rw [mem_progression_up hk, List.mem_map]
  constructor
  · rintro ⟨hax, hxb, hdvd⟩
    have hx : ((x.toNat : Nat) : Int) = x := Int.toNat_of_nonneg (by omega)
    refine ⟨x.toNat, List.mem_filter.mpr ⟨List.mem_range.mpr (by omega), ?_⟩, hx⟩
    rw [decide_eq_true_iff, hx]
    exact ⟨hax, hxb, hdvd⟩
  · rintro ⟨p, hp, rfl⟩
    exact of_decide_eq_true (List.mem_filter.mp hp).2

/-- **Counting down** finds them, in the opposite order. -/
theorem progression_eq_filter_reverse {a b k : Int} {n : Nat} (hk : k < 0) (ha : a ≤ n - 1)
    (hb : -1 ≤ b) :
    progression a k ((a - b - k - 1) / -k).toNat =
      ((List.range n).reverse.filter fun p : Nat =>
        decide ((p : Int) ≤ a ∧ b < p ∧ k ∣ a - p)).map Int.ofNat := by
  have hcount : a - b - k - 1 = -b - -a + -k - 1 := by omega
  have hneg : (progression a k ((a - b - k - 1) / -k).toNat).Pairwise (· > ·) := by
    rw [progression_neg, List.pairwise_map]
    exact (progression_sorted (by omega) _).imp fun h => by omega
  have hsorted : (((List.range n).reverse.filter fun p : Nat =>
      decide ((p : Int) ≤ a ∧ b < p ∧ k ∣ a - p)).map Int.ofNat).Pairwise (· > ·) := by
    rw [List.pairwise_map]
    have hrev : (List.range n).reverse.Pairwise (· > ·) :=
      List.pairwise_reverse.mpr List.pairwise_lt_range
    exact (hrev.sublist List.filter_sublist).imp fun h => Int.ofNat_lt.mpr h
  refine hneg.eq_of_mem_iff hsorted fun x => ?_
  have hmem : x ∈ progression a k ((a - b - k - 1) / -k).toNat ↔ x ≤ a ∧ b < x ∧ k ∣ a - x := by
    rw [progression_neg, hcount, List.mem_map]
    constructor
    · rintro ⟨y, hy, rfl⟩
      obtain ⟨h1, h2, h3⟩ := (mem_progression_up (by omega)).mp hy
      refine ⟨by omega, by omega, ?_⟩
      rwa [Int.neg_dvd, show y - -a = a - -y by omega] at h3
    · rintro ⟨h1, h2, h3⟩
      refine ⟨-x, (mem_progression_up (by omega)).mpr ⟨by omega, by omega, ?_⟩, Int.neg_neg x⟩
      rwa [Int.neg_dvd, show -x - -a = a - x by omega]
  rw [hmem, List.mem_map]
  constructor
  · rintro ⟨hxa, hbx, hdvd⟩
    have hx : ((x.toNat : Nat) : Int) = x := Int.toNat_of_nonneg (by omega)
    refine ⟨x.toNat, List.mem_filter.mpr ⟨?_, ?_⟩, hx⟩
    · exact List.mem_reverse.mpr (List.mem_range.mpr (by omega))
    · rw [decide_eq_true_iff, hx]
      exact ⟨hxa, hbx, hdvd⟩
  · rintro ⟨p, hp, rfl⟩
    exact of_decide_eq_true (List.mem_filter.mp hp).2

end Py
