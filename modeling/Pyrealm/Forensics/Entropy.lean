import Mathlib.Data.FinEnum
import Pyrealm.Forensics.Analyze
import Pyrealm.Pool.Shannon

/-!
# The byte entropy of a headerless file

`_sample_entropy` with `+`, `/` and `log2` read as operations on the reals:
the instance `exactMeasures` of the parameter of `_analyze`.

    sampleEntropy exactMeasures data = (empirical (entropySample data) _).entropy

* `entropySample_eq`: the sample takes each of its positions once, in order.
* `sampleEntropy_shannon`: the estimate is between 0 and log₂ of the number of
  byte values in the sample, with both equality cases, and what this means for
  the classification.
-/

namespace Pyrealm

open Py Shannon

/-! ## Algorithm -/

noncomputable def ENCRYPTED_ENTROPY_THRESHOLD : ℝ := 7.5

/-- The end of `_sample_entropy`, from `counts = Counter(sample)`. -/
noncomputable def exactEstimate (sample : Bytes) : ℝ :=
  let counts := Dict.counter sample
  let total := sample.length
  let entropy := -(counts.values.map fun count : Nat =>
    (count / total : ℝ) * log2 (count / total)).sum
  if 0 < entropy then entropy else 0

noncomputable def exactMeasures : Measures ℝ where
  zero := 0
  estimate := exactEstimate
  high entropy := decide (ENCRYPTED_ENTROPY_THRESHOLD ≤ entropy)

/-! ## The sample -/

/-- All positions of `n` bytes, or the first and the last 2^19. -/
def samplePositions (n : Nat) : List Nat :=
  if n ≤ 2 ^ 20 then List.range' 0 n
  else List.range' 0 (2 ^ 19) ++ List.range' (n - 2 ^ 19) (2 ^ 19)

theorem mem_samplePositions (n i : Nat) :
    i ∈ samplePositions n ↔ i < n ∧ (n ≤ 2 ^ 20 ∨ i < 2 ^ 19 ∨ n ≤ i + 2 ^ 19) := by
  unfold samplePositions
  split
  · rw [List.mem_range'_1]
    omega
  · rw [List.mem_append, List.mem_range'_1, List.mem_range'_1]
    omega

/-- The two ends of a large file do not meet. -/
theorem samplePositions_pairwise (n : Nat) : (samplePositions n).Pairwise (· < ·) := by
  unfold samplePositions
  split
  · exact List.pairwise_lt_range'
  · rw [List.pairwise_append]
    refine ⟨List.pairwise_lt_range', List.pairwise_lt_range', fun a ha b hb => ?_⟩
    rw [List.mem_range'_1] at ha hb
    omega

/-- A slice inside the data, byte by byte. -/
theorem slice_eq_map (data : Bytes) (a k : Nat) (h : a + k ≤ data.length) :
    slice data a (a + k) = (List.range' a k).map (data.getD · 0) := by
  apply List.ext_getElem?
  intro i
  rw [getElem?_slice, List.getElem?_map]
  by_cases hi : i < k
  · rw [if_pos (by omega), List.getElem?_range' hi, Nat.one_mul, Option.map_some, List.getD,
      List.getElem?_eq_getElem (by omega), Option.getD_some]
  · rw [if_neg (by omega), List.getElem?_eq_none (by rw [List.length_range']; omega),
      Option.map_none]

theorem entropySample_eq (data : Bytes) :
    entropySample data = (samplePositions data.length).map (data.getD · 0) := by
  have hall : slice data 0 data.length = data := by
    rw [slice, List.take_length, List.drop_zero]
  unfold entropySample samplePositions
  by_cases h : data.length ≤ 2 ^ 20
  · rw [if_pos h, ← slice_eq_map data 0 data.length (by omega), Nat.zero_add, hall]
    exact if_pos (by omega)
  · have hmin : min data.length (1024 * 1024) = 2 ^ 20 := by omega
    have hfirst := slice_eq_map data 0 (2 ^ 19) (by omega)
    have hlast := slice_eq_map data (data.length - 2 ^ 19) (2 ^ 19) (by omega)
    rw [Nat.sub_add_cancel (by omega), slice, List.take_length] at hlast
    rw [Nat.zero_add, slice, List.drop_zero] at hfirst
    rw [if_neg h, hmin, List.map_append, ← hfirst, ← hlast]
    exact if_neg (by omega)

theorem entropySample_ne_nil {data : Bytes} (h : data ≠ []) : entropySample data ≠ [] := by
  have hpos : 0 < data.length := List.length_pos_of_ne_nil h
  have hmem : 0 ∈ samplePositions data.length := (mem_samplePositions _ _).mpr (by omega)
  rw [entropySample_eq]
  exact List.ne_nil_of_mem (List.mem_map_of_mem hmem)

/-! ## The estimate is the entropy of the sample -/

/-- The values of a counter, summed: one term for each value of the list. -/
theorem sum_values_counter (xs : Bytes) (f : Nat → ℝ) :
    ((Dict.counter xs).values.map f).sum = ∑ x ∈ xs.toFinset, f (xs.count x) := by
  have hset : xs.eraseDups.toFinset = xs.toFinset := by
    ext x
    rw [List.mem_toFinset, List.mem_toFinset, List.mem_eraseDups]
  have hnodup : xs.eraseDups.Nodup := by
    rw [← Dict.keys_counter]
    exact (Dict.counter xs).nodup_keys
  rw [Dict.values_counter, List.map_map, ← hset, List.sum_toFinset _ hnodup]
  rfl

theorem exactEstimate_eq {sample : Bytes} (h : sample ≠ []) :
    exactEstimate sample = (empirical sample h).entropy := by
  have hentropy : -((Dict.counter sample).values.map fun count : Nat =>
      (count / sample.length : ℝ) * log2 (count / sample.length)).sum =
        (empirical sample h).entropy := by
    rw [sum_values_counter sample fun count : Nat =>
      (count / sample.length : ℝ) * log2 (count / sample.length),
      ← Finset.sum_neg_distrib, Distribution.entropy]
    refine Finset.sum_congr rfl fun x _ => ?_
    rw [empirical_prob, one_div, log2_inv, mul_neg]
  have hnonneg := (empirical sample h).entropy_nonneg
  simp only [exactEstimate, hentropy]
  split
  · rfl
  · next hle => exact le_antisymm hnonneg (not_lt.mp hle)

theorem sampleEntropy_eq {data : Bytes} (h : data ≠ []) :
    sampleEntropy exactMeasures data =
      (empirical (entropySample data) (entropySample_ne_nil h)).entropy := by
  rw [sampleEntropy, if_neg h]
  exact exactEstimate_eq _

/-! ## Byte values -/

theorem card_byte : Fintype.card UInt8 = 256 :=
  FinEnum.card_eq_fintypeCard.symm.trans FinEnum.card_UInt8

theorem card_values_pos {sample : Bytes} (h : sample ≠ []) : 0 < sample.toFinset.card :=
  (empirical sample h).nonempty.card_pos

theorem card_values_le (sample : Bytes) : sample.toFinset.card ≤ 256 :=
  (Finset.card_le_univ _).trans_eq card_byte

/-- When all bytes are equally frequent, all occur. -/
theorem card_values_of_equal {sample : Bytes} (h : sample ≠ [])
    (hequal : ∀ x y : UInt8, sample.count x = sample.count y) : sample.toFinset.card = 256 := by
  obtain ⟨x, hx⟩ := List.exists_mem_of_ne_nil sample h
  have huniv : sample.toFinset = Finset.univ := by
    rw [Finset.eq_univ_iff_forall]
    intro y
    rw [List.mem_toFinset, ← List.count_pos_iff, hequal y x]
    exact List.count_pos_iff.mpr hx
  rw [huniv, Finset.card_univ, card_byte]

theorem log2_256 : log2 (256 : Nat) = 8 := by
  have hpow : ((256 : Nat) : ℝ) = 2 ^ 8 := by norm_num
  rw [hpow, log2_two_pow, Nat.cast_ofNat]

theorem log2_values_le {k : Nat} (hpos : 0 < k) (h : k ≤ 256) : log2 k ≤ 8 := by
  rw [← log2_256]
  exact log2_le_log2 (Nat.cast_pos.mpr hpos) (Nat.cast_le.mpr h)

/-- 181² is below 2^15: that many values cannot reach 7.5 bits. -/
theorem values_of_threshold {k : Nat} (hpos : 0 < k)
    (h : ENCRYPTED_ENTROPY_THRESHOLD ≤ log2 k) : 182 ≤ k := by
  by_contra hlt
  have hsquare : (k : ℝ) ^ 2 < 2 ^ 15 := by
    have hk : k ^ 2 ≤ 181 ^ 2 := Nat.pow_le_pow_left (by omega) 2
    exact_mod_cast hk.trans_lt (by decide)
  have hlog := log2_lt_log2 (pow_pos (Nat.cast_pos.mpr hpos) 2) hsquare
  rw [log2_two_pow, log2_pow] at hlog
  rw [ENCRYPTED_ENTROPY_THRESHOLD] at h
  norm_num at hlog h
  linarith only [hlog, h]

/-! ## The law of the estimate -/

/-- `H` is the entropy of `sample`, which holds the bytes of `data` or of its two
ends; the bounds of `H`, and when it meets them. -/
structure ShannonLaw (data sample : Bytes) (H : ℝ) : Prop where
  taken : ∃ positions : List Nat, positions.Pairwise (· < ·) ∧
    (∀ i, i ∈ positions ↔ i < data.length ∧
      (data.length ≤ 2 ^ 20 ∨ i < 2 ^ 19 ∨ data.length ≤ i + 2 ^ 19)) ∧
    sample = positions.map (data.getD · 0)
  entropy : ∃ h : sample ≠ [], H = (empirical sample h).entropy
  nonneg : 0 ≤ H
  le_values : H ≤ log2 sample.toFinset.card
  values_le : log2 sample.toFinset.card ≤ 8
  greatest : H = log2 sample.toFinset.card ↔
    ∀ x ∈ sample, ∀ y ∈ sample, sample.count x = sample.count y
  least : H = 0 ↔ sample.toFinset.card = 1

theorem sampleEntropy_law {data : Bytes} (h : data ≠ []) :
    ShannonLaw data (entropySample data) (sampleEntropy exactMeasures data) := by
  have hs := entropySample_ne_nil h
  rw [sampleEntropy_eq h]
  exact {
    taken := ⟨samplePositions data.length, samplePositions_pairwise _, mem_samplePositions _,
      entropySample_eq data⟩
    entropy := ⟨hs, rfl⟩
    nonneg := (empirical _ hs).entropy_nonneg
    le_values := (empirical _ hs).entropy_le
    values_le := log2_values_le (card_values_pos hs) (card_values_le _)
    greatest := empirical_entropy_eq_iff _ hs
    least := (empirical _ hs).entropy_eq_zero_iff }

theorem classifyHeaderless_possible_iff (resolved digest : String) (data : Bytes) (entropy : ℝ) :
    (classifyHeaderless exactMeasures resolved digest data entropy).classification =
        .possibleEncryptedOrUnsupportedRealm ↔
      ENCRYPTED_ENTROPY_THRESHOLD ≤ entropy ∧ data.length % ENCRYPTION_BLOCK_SIZE = 0 := by
  simp only [classifyHeaderless, exactMeasures]
  by_cases he : ENCRYPTED_ENTROPY_THRESHOLD ≤ entropy <;>
    by_cases hl : data.length % ENCRYPTION_BLOCK_SIZE = 0 <;> simp [he, hl]

/-- **The estimate is the Shannon entropy of the sample**, and what a headerless
file must and need only contain to be reported as possibly encrypted. -/
theorem sampleEntropy_shannon {data : Bytes} (hne : data ≠ []) :
    ShannonLaw data (entropySample data) (sampleEntropy exactMeasures data) ∧
    (parseHeader data = .ok none → ∀ isprintable resolved digest minimumString,
      ∃ analysis, analyzeMapping exactMeasures isprintable resolved digest data minimumString =
          .ok (analysis, []) ∧
        (analysis.classification = .possibleEncryptedOrUnsupportedRealm →
          data.length % 4096 = 0 ∧ 182 ≤ (entropySample data).toFinset.card) ∧
        (data.length % 4096 = 0 →
          (∀ x y : UInt8, (entropySample data).count x = (entropySample data).count y) →
          analysis.classification = .possibleEncryptedOrUnsupportedRealm)) := by
  have hlaw := sampleEntropy_law hne
  refine ⟨hlaw, fun hheader isprintable resolved digest minimumString =>
    ⟨classifyHeaderless exactMeasures resolved digest data (sampleEntropy exactMeasures data),
      ?_, ?_, ?_⟩⟩
  · rw [analyzeMapping, hheader]
    rfl
  · rw [classifyHeaderless_possible_iff]
    rintro ⟨hhigh, hblocks⟩
    obtain ⟨hs, -⟩ := hlaw.entropy
    exact ⟨hblocks, values_of_threshold (card_values_pos hs) (hhigh.trans hlaw.le_values)⟩
  · intro hblocks hequal
    rw [classifyHeaderless_possible_iff]
    obtain ⟨hs, -⟩ := hlaw.entropy
    have hmax := hlaw.greatest.mpr fun x _ y _ => hequal x y
    rw [card_values_of_equal hs hequal, log2_256] at hmax
    refine ⟨?_, hblocks⟩
    rw [hmax, ENCRYPTED_ENTROPY_THRESHOLD]
    norm_num

/-- Two different bytes: one bit, and too few values for the threshold. -/
theorem sampleEntropy_shannon_two :
    sampleEntropy exactMeasures [0, 1] = 1 ∧
      ∃ analysis, analyzeMapping exactMeasures Char.isAlpha "/a.realm" "" [0, 1] none =
        .ok (analysis, []) ∧ analysis.classification ≠ .possibleEncryptedOrUnsupportedRealm := by
  have hne : ([0, 1] : Bytes) ≠ [] := by decide
  obtain ⟨hlaw, hclass⟩ := sampleEntropy_shannon hne
  have hsample : entropySample [0, 1] = [0, 1] := by decide
  have hcard : (entropySample [0, 1]).toFinset.card = 2 := by decide
  have hmax := hlaw.greatest.mpr (by simp [hsample])
  rw [hcard, Nat.cast_ofNat, ← pow_one (2 : ℝ), log2_two_pow, Nat.cast_one] at hmax
  obtain ⟨analysis, hrun, honly, -⟩ := hclass (by decide) Char.isAlpha "/a.realm" "" none
  refine ⟨hmax, analysis, hrun, fun hpossible => ?_⟩
  have hvalues := (honly hpossible).2
  rw [hcard] at hvalues
  omega

end Pyrealm
