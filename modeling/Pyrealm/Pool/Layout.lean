import Mathlib.Algebra.BigOperators.Group.List.Lemmas
import Mathlib.Algebra.BigOperators.Ring.List
import Pyrealm.Pool.PyBytes

/-!
# Bytes laid out one after another

The way a file is written: blocks follow each other, block `i` begins where the
sizes before it end (`blockStart`), and is read back there (`slice_flatten`).
Integers are written by `int.to_bytes` (`toLittle`, `toBig24`).
-/

namespace Py

/-! ## Blocks -/

/-- Where block `i` of blocks of these sizes begins. -/
def blockStart (sizes : List Nat) (i : Nat) : Nat := (sizes.take i).sum

theorem blockStart_succ (sizes : List Nat) {i : Nat} (h : i < sizes.length) :
    blockStart sizes (i + 1) = blockStart sizes i + sizes[i] := by
  rw [blockStart, List.take_succ_eq_append_getElem h, List.sum_append, List.sum_singleton, blockStart]

theorem blockStart_cons (size : Nat) (sizes : List Nat) (i : Nat) :
    blockStart (size :: sizes) (i + 1) = size + blockStart sizes i := by
  rw [blockStart, List.take_succ_cons, List.sum_cons, blockStart]

theorem blockStart_mono (sizes : List Nat) {i j : Nat} (h : i ≤ j) :
    blockStart sizes i ≤ blockStart sizes j := by
  have e : sizes.take i = (sizes.take j).take i := by rw [List.take_take, Nat.min_eq_left h]
  have hsum := congrArg List.sum (List.take_append_drop i (sizes.take j))
  rw [List.sum_append, ← e] at hsum
  unfold blockStart
  omega

theorem blockStart_length (sizes : List Nat) : blockStart sizes sizes.length = sizes.sum := by
  rw [blockStart, List.take_length]

/-- A block ends within the whole. -/
theorem blockStart_add_le (sizes : List Nat) {i : Nat} (h : i < sizes.length) :
    blockStart sizes i + sizes[i] ≤ sizes.sum := by
  rw [← blockStart_succ sizes h, ← blockStart_length sizes]
  exact blockStart_mono sizes h

/-- Blocks that are not empty begin at different places. -/
theorem blockStart_ne (sizes : List Nat) {i j : Nat} (h : i < sizes.length) (hpos : 0 < sizes[i])
    (hij : i < j) : blockStart sizes i ≠ blockStart sizes j := by
  have hmono := blockStart_mono sizes (show i + 1 ≤ j from hij)
  rw [blockStart_succ sizes h] at hmono
  omega

theorem dvd_blockStart {sizes : List Nat} {k : Nat} (h : ∀ size ∈ sizes, k ∣ size) (i : Nat) :
    k ∣ blockStart sizes i :=
  List.dvd_sum fun size hsize => h size (List.mem_of_mem_take hsize)

theorem blockStart_const {sizes : List Nat} {k : Nat} (h : ∀ size ∈ sizes, size = k) {i : Nat}
    (hi : i ≤ sizes.length) : blockStart sizes i = i * k := by
  induction i with
  | zero => rw [blockStart, List.take_zero, List.sum_nil, Nat.zero_mul]
  | succ i ih => rw [blockStart_succ sizes hi, ih (Nat.le_of_succ_le hi), h _ (List.getElem_mem _),
      Nat.succ_mul]

/-- **A block is read back at its place.** -/
theorem slice_flatten (blocks : List Bytes) {i : Nat} (h : i < blocks.length) :
    slice blocks.flatten (blockStart (blocks.map List.length) i)
      (blockStart (blocks.map List.length) i + blocks[i].length) = blocks[i] := by
  have hsucc := blockStart_succ (blocks.map List.length) (i := i) (by rwa [List.length_map])
  rw [List.getElem_map] at hsucc
  rw [← hsucc]
  exact List.drop_take_succ_flatten_eq_getElem blocks i h

/-- A block of equally long ones. -/
theorem slice_flatMap_const {α : Type} (f : α → Bytes) {k : Nat} (l : List α)
    (h : ∀ a ∈ l, (f a).length = k) {i : Nat} (hi : i < l.length) :
    slice (l.flatMap f) (i * k) (i * k + k) = f l[i] := by
  have hsizes : ∀ size ∈ (l.map f).map List.length, size = k := by
    intro size hsize
    simp only [List.mem_map, exists_exists_and_eq_and] at hsize
    obtain ⟨a, ha, rfl⟩ := hsize
    exact h a ha
  have hblock := slice_flatten (l.map f) (i := i) (by rwa [List.length_map])
  rwa [blockStart_const hsizes (by rw [List.length_map, List.length_map]; omega), List.getElem_map,
    h _ (List.getElem_mem hi), ← List.flatMap_def] at hblock

/-! ## Integers -/

/-- `n.to_bytes(k, "little")`, of an `n` that fits. -/
def toLittle : Nat → Nat → Bytes
  | 0, _ => []
  | k + 1, n => UInt8.ofNat n :: toLittle k (n / 256)

@[simp] theorem length_toLittle (k n : Nat) : (toLittle k n).length = k := by
  induction k generalizing n with
  | zero => rfl
  | succ k ih => rw [toLittle, List.length_cons, ih]

theorem fromLittle_toLittle {k n : Nat} (h : n < 256 ^ k) : fromLittle (toLittle k n) = n := by
  induction k generalizing n with
  | zero =>
    rw [Nat.pow_zero] at h
    rw [toLittle, fromLittle]
    omega
  | succ k ih =>
    rw [Nat.pow_succ] at h
    rw [toLittle, fromLittle, ih (by omega), UInt8.toNat_ofNat']
    omega

/-- `n.to_bytes(3, "big")`, of an `n` that fits. -/
def toBig24 (n : Nat) : Bytes := [UInt8.ofNat (n / 65536), UInt8.ofNat (n / 256), UInt8.ofNat n]

theorem fromBig_toBig24 {n : Nat} (h : n < 2 ^ 24) : fromBig (toBig24 n) = n := by
  simp only [fromBig, toBig24, List.foldl_cons, List.foldl_nil, UInt8.toNat_ofNat']
  omega

end Py
