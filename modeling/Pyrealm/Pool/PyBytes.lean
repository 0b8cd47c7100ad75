import Mathlib.Data.List.Basic
import Mathlib.Tactic.Ring

/-!
# Python byte strings

The built-in operations a byte-level parser uses, with Python's own failures:
slicing (bounds are clamped, nothing raises), indexing (`IndexError`),
`int.from_bytes`, `struct.unpack_from` (`struct.error`) and `find`.

* `foldlM_eq_ok`, `mapM_eq_ok`: a loop none of whose iterations raises.
* `forall₂_of_mapM`: a loop that returned.  `RaisesOnly`: what one that did not may raise.
* `slice_slice`, `slice_take`: a slice of a slice, a slice of a prefix.
* `Agree data data' a b`: the two byte strings carry the same bytes on `[a, b)`;
  every read inside `[a, b)` then has one result (`Agree.slice`, `Agree.getElem?`).
* `find_eq_some_iff`, `find_eq_none_iff`: the least match, or none.
-/

namespace Py

/-- The exception classes the modelled code raises or lets through.
`outOfFuel` is no Python exception: the bound on a modelled loop was reached. -/
inductive Exc where
  | osError
  | fileExistsError
  | valueError
  | unicodeError
  | runtimeError
  | overflowError
  | keyError
  | indexError
  | typeError
  | structError
  | outOfFuel
deriving DecidableEq, Repr

/-- `isinstance(e, OSError)` -/
def Exc.isOSError : Exc → Bool
  | .osError | .fileExistsError => true
  | _ => false

/-- `isinstance(e, ValueError)`: the Unicode errors are subclasses. -/
def Exc.isValueError : Exc → Bool
  | .valueError | .unicodeError => true
  | _ => false

@[simp] theorem ok_bind {ε α β : Type} (a : α) (f : α → Except ε β) :
    (Except.ok a >>= f) = f a := rfl

@[simp] theorem error_bind {ε α β : Type} (e : ε) (f : α → Except ε β) :
    ((Except.error e : Except ε α) >>= f) = .error e := rfl

theorem bind_eq_ok_iff {ε α β : Type} (x : Except ε α) (f : α → Except ε β) (b : β) :
    (x >>= f) = .ok b ↔ ∃ a, x = .ok a ∧ f a = .ok b := by
  cases x <;> simp

/-- A loop none of whose iterations raises. -/
theorem foldlM_eq_ok {α β ε : Type} (f : β → α → Except ε β) (g : β → α → β) (l : List α)
    (h : ∀ b, ∀ a ∈ l, f b a = .ok (g b a)) (b : β) : l.foldlM f b = .ok (l.foldl g b) := by
  induction l generalizing b with
  | nil => rfl
  | cons a l ih =>
    rw [List.foldlM_cons, h b a List.mem_cons_self, ok_bind,
      ih (fun b a ha => h b a (List.mem_cons_of_mem _ ha)), List.foldl_cons]

theorem mapM_eq_ok {α β ε : Type} (f : α → Except ε β) (g : α → β) (l : List α)
    (h : ∀ a ∈ l, f a = .ok (g a)) : l.mapM f = .ok (l.map g) := by
  induction l with
  | nil => rfl
  | cons a l ih =>
    rw [List.mapM_cons, h a List.mem_cons_self, ok_bind,
      ih (fun a ha => h a (List.mem_cons_of_mem _ ha)), ok_bind]
    rfl

theorem forall₂_of_mapM {α β ε : Type} {f : α → Except ε β} {l : List α} {l' : List β}
    (h : l.mapM f = .ok l') : List.Forall₂ (fun a b => f a = .ok b) l l' := by
  induction l generalizing l' with
  | nil =>
    cases h
    exact .nil
  | cons a l ih =>
    rw [List.mapM_cons, bind_eq_ok_iff] at h
    obtain ⟨b, hb, h⟩ := h
    rw [bind_eq_ok_iff] at h
    obtain ⟨bs, hbs, h⟩ := h
    cases h
    exact .cons hb (ih hbs)

/-- Whatever it raises is such an exception. -/
def RaisesOnly {ε α : Type} (Q : ε → Prop) (x : Except ε α) : Prop := ∀ e, x = .error e → Q e

section
variable {ε α β : Type} {Q : ε → Prop}

theorem RaisesOnly.ok (a : α) : RaisesOnly Q (.ok a) := by
  intro e he
  cases he

theorem RaisesOnly.error {e : ε} (h : Q e) : RaisesOnly Q (.error e : Except ε α) := by
  intro e' he
  cases he
  exact h

theorem RaisesOnly.bind {x : Except ε α} {f : α → Except ε β} (h : RaisesOnly Q x)
    (hf : ∀ a, RaisesOnly Q (f a)) : RaisesOnly Q (x >>= f) := by
  cases x with
  | error e => exact .error (h e rfl)
  | ok a => exact hf a

theorem RaisesOnly.mapM {f : α → Except ε β} (h : ∀ a, RaisesOnly Q (f a)) (l : List α) :
    RaisesOnly Q (l.mapM f) := by
  induction l with
  | nil => exact .ok _
  | cons a l ih =>
    rw [List.mapM_cons]
    exact (h a).bind fun b => ih.bind fun bs => .ok _

end

/-- Appending the values that pass a test, one by one, is a filter. -/
theorem foldl_append_if {α β : Type} (v : α → β) (p : β → Bool) (l : List α) (acc : List β) :
    l.foldl (fun acc a => if p (v a) then acc ++ [v a] else acc) acc =
      acc ++ (l.map v).filter p := by
  induction l generalizing acc with
  | nil => simp
  | cons a l ih =>
    rw [List.foldl_cons, ih, List.map_cons]
    by_cases hp : p (v a) = true
    · rw [if_pos hp, List.filter_cons_of_pos hp, List.append_assoc, List.singleton_append]
    · rw [if_neg hp, List.filter_cons_of_neg hp]

/-- A `str`: its code points. -/
abbrev PyStr := List Char

abbrev Bytes := List UInt8

/-! ## Slices -/

/-- `data[start:stop]` for `0 ≤ start`, `0 ≤ stop`. -/
def slice (data : Bytes) (start stop : Nat) : Bytes := (data.take stop).drop start

@[simp] theorem length_slice (data : Bytes) (a b : Nat) :
    (slice data a b).length = min b data.length - a := by
  simp [slice]

theorem length_slice_of_le (data : Bytes) (a b : Nat) (hb : b ≤ data.length) :
    (slice data a b).length = b - a := by
  rw [length_slice, Nat.min_eq_left hb]

theorem getElem?_slice (data : Bytes) (a b i : Nat) :
    (slice data a b)[i]? = if a + i < b then data[a + i]? else none := by
  simp [slice, List.getElem?_drop, List.getElem?_take]

theorem slice_slice (data : Bytes) (a b i j : Nat) (h : a + j ≤ b) :
    slice (slice data a b) i j = slice data (a + i) (a + j) := by
  apply List.ext_getElem?
  intro k
  simp only [getElem?_slice]
  by_cases hk : i + k < j
  · rw [if_pos hk, if_pos (by omega), if_pos (by omega), Nat.add_assoc]
  · rw [if_neg hk, if_neg (by omega)]

theorem slice_take (data : Bytes) (n a b : Nat) (h : b ≤ n) :
    slice (data.take n) a b = slice data a b := by
  rw [slice, List.take_take, Nat.min_eq_left h, slice]

theorem slice_append (data : Bytes) (a b c : Nat) (hab : a ≤ b) (hbc : b ≤ c) :
    slice data a b ++ slice data b c = slice data a c := by
  apply List.ext_getElem?
  intro k
  rw [List.getElem?_append, length_slice]
  simp only [getElem?_slice]
  split
  · rw [if_pos (by omega), if_pos (by omega)]
  · next hk =>
    by_cases hlen : b ≤ data.length
    · rw [Nat.min_eq_left hlen] at hk ⊢
      rw [show b + (k - (b - a)) = a + k by omega]
    · rw [Nat.min_eq_right (by omega)] at hk ⊢
      rw [List.getElem?_eq_none (l := data) (i := a + k) (by omega),
        List.getElem?_eq_none (by omega)]
      simp

theorem slice_eq_nil (data : Bytes) (a b : Nat) (h : b ≤ a) : slice data a b = [] := by
  apply List.eq_nil_of_length_eq_zero
  rw [length_slice]
  omega

/-- A way to take `data[start:stop]`. -/
abbrev Slicer := Bytes → Nat → Nat → Except Exc Bytes

/-- Python's: the bounds are clamped, nothing raises. -/
def clampSlice : Slicer := fun data start stop => .ok (slice data start stop)

/-- The audit of it: raises where clamping would shorten the slice, so a run that
completes with `exactSlice` has read no truncated slice. -/
def exactSlice : Slicer := fun data start stop =>
  if stop ≤ data.length then .ok (slice data start stop) else .error .indexError

/-- A slicer that is right wherever the slice lies inside the data. -/
def ExactInside (sl : Slicer) : Prop :=
  ∀ (data : Bytes) (a b : Nat), b ≤ data.length → sl data a b = .ok (slice data a b)

theorem exactInside_clampSlice : ExactInside clampSlice := fun _ _ _ _ => rfl

theorem exactInside_exactSlice : ExactInside exactSlice := fun _ _ _ h => if_pos h

/-! ## Indexing and integers -/

/-- `data[i]` -/
def index (data : Bytes) (i : Nat) : Except Exc Nat :=
  match data[i]? with
  | some b => .ok b.toNat
  | none => .error .indexError

theorem index_of_lt (data : Bytes) (i : Nat) (h : i < data.length) :
    index data i = .ok data[i].toNat := by
  rw [index, List.getElem?_eq_getElem h]

/-- The byte at `i`, as the total function of which `index` is the checked form. -/
def byteAt (data : Bytes) (i : Nat) : Nat := (data.getD i 0).toNat

theorem index_eq_byteAt (data : Bytes) (i : Nat) (h : i < data.length) :
    index data i = .ok (byteAt data i) := by
  rw [index_of_lt data i h, byteAt, List.getD_eq_getElem?_getD, List.getElem?_eq_getElem h]
  rfl

/-- `int.from_bytes(bs, "little")` -/
def fromLittle : Bytes → Nat
  | [] => 0
  | b :: bs => b.toNat + 256 * fromLittle bs

/-- `int.from_bytes(bs, "big")` -/
def fromBig (bs : Bytes) : Nat := bs.foldl (fun n b => n * 256 + b.toNat) 0

theorem fromLittle_lt (bs : Bytes) : fromLittle bs < 256 ^ bs.length := by
  induction bs with
  | nil => simp [fromLittle]
  | cons b bs ih =>
    rw [fromLittle, List.length_cons, Nat.pow_succ]
    have hb := b.toNat_lt
    omega

theorem fromLittle_append (xs ys : Bytes) :
    fromLittle (xs ++ ys) = fromLittle xs + 256 ^ xs.length * fromLittle ys := by
  induction xs with
  | nil => simp [fromLittle]
  | cons b xs ih =>
    rw [List.cons_append, fromLittle, ih, fromLittle, List.length_cons, Nat.pow_succ]
    ring

/-- The bytes `[a, a + k)` of a little-endian integer, as its digits to base `256`. -/
theorem fromLittle_slice (bs : Bytes) (a k : Nat) (h : a + k ≤ bs.length) :
    fromLittle (slice bs a (a + k)) = fromLittle bs / 256 ^ a % 256 ^ k := by
  have h1 : bs = slice bs 0 a ++ (slice bs a (a + k) ++ slice bs (a + k) bs.length) := by
    rw [slice_append bs _ _ _ (by omega) h, slice_append bs _ _ _ (by omega) (by omega)]
    simp [slice]
  have hpre : (slice bs 0 a).length = a := by rw [length_slice_of_le _ _ _ (by omega), Nat.sub_zero]
  have hmid : (slice bs a (a + k)).length = k := by
    rw [length_slice_of_le _ _ _ h, Nat.add_sub_cancel_left]
  have hlt := fromLittle_lt (slice bs 0 a)
  have hlt' := fromLittle_lt (slice bs a (a + k))
  rw [hpre] at hlt
  rw [hmid] at hlt'
  conv => rhs; rw [h1, fromLittle_append, fromLittle_append, hpre, hmid]
  rw [Nat.add_mul_div_left _ _ (Nat.pow_pos (by omega)), Nat.div_eq_of_lt hlt, Nat.zero_add,
    Nat.add_mul_mod_self_left, Nat.mod_eq_of_lt hlt']

/-- Unsigned little-endian 64-bit integer at `offset`. -/
def u64 (data : Bytes) (offset : Nat) : Nat := fromLittle (slice data offset (offset + 8))

/-- `struct.unpack_from("<QQ", data, offset)` -/
def unpackQQ (data : Bytes) (offset : Nat) : Except Exc (Nat × Nat) :=
  if offset + 16 ≤ data.length then .ok (u64 data offset, u64 data (offset + 8))
  else .error .structError

theorem unpackQQ_of_le (data : Bytes) (offset : Nat) (h : offset + 16 ≤ data.length) :
    unpackQQ data offset = .ok (u64 data offset, u64 data (offset + 8)) := if_pos h

/-! ## Agreement on a range -/

/-- `data'` holds the bytes `[a, b)` of `data`, all of them. -/
structure Agree (data data' : Bytes) (a b : Nat) : Prop where
  le : b ≤ data'.length
  eq : Py.slice data' a b = Py.slice data a b

theorem Agree.slice {data data' : Bytes} {a b c d : Nat} (h : Agree data data' a b)
    (hac : a ≤ c) (hdb : d ≤ b) : slice data' c d = slice data c d := by
  by_cases hcd : c ≤ d
  · have key : ∀ xs : Bytes, Py.slice xs c d = Py.slice (Py.slice xs a b) (c - a) (d - a) := by
      intro xs
      rw [slice_slice xs a b _ _ (by omega), Nat.add_sub_cancel' hac,
        Nat.add_sub_cancel' (by omega)]
    rw [key data', key data, h.eq]
  · rw [slice_eq_nil _ _ _ (by omega), slice_eq_nil _ _ _ (by omega)]

theorem Agree.getElem? {data data' : Bytes} {a b i : Nat} (h : Agree data data' a b)
    (hai : a ≤ i) (hib : i < b) : data'[i]? = data[i]? := by
  have e := congrArg (fun xs => xs[0]?) (h.slice hai (Nat.succ_le_of_lt hib))
  simpa [getElem?_slice] using e

theorem Agree.byteAt {data data' : Bytes} {a b i : Nat} (h : Agree data data' a b)
    (hai : a ≤ i) (hib : i < b) : byteAt data' i = byteAt data i := by
  simp only [Py.byteAt, List.getD_eq_getElem?_getD, h.getElem? hai hib]

theorem Agree.refl (data : Bytes) (a b : Nat) (h : b ≤ data.length) : Agree data data a b := ⟨h, rfl⟩

theorem Agree.mono {data data' : Bytes} {a b c d : Nat} (h : Agree data data' a b)
    (hac : a ≤ c) (hdb : d ≤ b) : Agree data data' c d :=
  ⟨Nat.le_trans hdb h.le, h.slice hac hdb⟩

theorem agree_take (data : Bytes) (n a b : Nat) (hb : b ≤ n) (hn : n ≤ data.length) :
    Agree data (data.take n) a b :=
  ⟨by rw [List.length_take, Nat.min_eq_left hn]; exact hb, slice_take data n a b hb⟩

/-! ## Searching -/

/-- `data.find(sub, start)` for a non-empty `sub`; `none` is Python's `-1`. -/
def find (data sub : Bytes) (start : Nat) : Option Nat :=
  (List.range' start (data.length - start)).find? fun i => slice data i (i + sub.length) == sub

theorem find_eq_some_iff (data sub : Bytes) (start i : Nat) :
    find data sub start = some i ↔
      start ≤ i ∧ i < data.length ∧ slice data i (i + sub.length) = sub ∧
        ∀ j, start ≤ j → j < i → slice data j (j + sub.length) ≠ sub := by
  rw [find, List.find?_range'_eq_some]
  simp only [beq_iff_eq, List.mem_range'_1, Bool.not_eq_true', beq_eq_false_iff_ne]
  constructor
  · rintro ⟨h1, h2, h3⟩
    exact ⟨h2.1, by omega, h1, h3⟩
  · rintro ⟨h1, h2, h3, h4⟩
    exact ⟨h3, ⟨h1, by omega⟩, h4⟩

theorem find_eq_none_iff (data sub : Bytes) (start : Nat) :
    find data sub start = none ↔
      ∀ j, start ≤ j → j < data.length → slice data j (j + sub.length) ≠ sub := by
  rw [find, List.find?_range'_eq_none]
  simp only [Bool.not_eq_true', beq_eq_false_iff_ne]
  constructor
  · intro h j h1 h2
    exact h j h1 (by omega)
  · intro h j h1 h2
    exact h j h1 (by omega)

end Py
