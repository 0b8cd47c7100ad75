import Mathlib.Data.List.Forall2
import Mathlib.Data.List.Nodup
import Mathlib.Data.List.Perm.Subperm
import Pyrealm.Pool.PyDict

/-!
# Indexes of a list by a key

Two ways to index a list whose keys may repeat: a table that keeps the first
entry of a key (`unordered_map::emplace`) and one that keeps the last (a `dict`
comprehension).

* `firstOf`, `lastOf`: what each finds.  `firstOf_eq_lastOf`: the same, if keys
  do not repeat.
* `Positions`: a table of positions finds the first entry
  (`Positions.firstOf_of_some`); `Positions.emplace`: what one round of its loop keeps.
* `get?_foldl_set_key`: a `dict` comprehension finds the last entry.
* `firstOf_rel`, `lastOf_rel`: related lists find related entries.
-/

namespace Indexes

open Py

variable {α β κ : Type} [DecidableEq κ]

/-! ## The first and the last entry of a key -/

def firstOf (key : α → κ) (k : κ) (l : List α) : Option α := l.find? fun a => decide (key a = k)

def lastOf (key : α → κ) (k : κ) (l : List α) : Option α := firstOf key k l.reverse

section
variable {key : α → κ} {k : κ} {l : List α} {a : α}

theorem key_of_firstOf (h : firstOf key k l = some a) : key a = k := by
  unfold firstOf at h
  simpa using List.find?_some h

theorem key_of_lastOf (h : lastOf key k l = some a) : key a = k := key_of_firstOf h

theorem mem_of_firstOf (h : firstOf key k l = some a) : a ∈ l := List.mem_of_find?_eq_some h

theorem mem_of_lastOf (h : lastOf key k l = some a) : a ∈ l :=
  List.mem_reverse.mp (mem_of_firstOf h)

theorem firstOf_eq_none_iff : firstOf key k l = none ↔ ∀ a ∈ l, key a ≠ k := by
  simp [firstOf]

theorem lastOf_eq_none_iff : lastOf key k l = none ↔ ∀ a ∈ l, key a ≠ k := by
  simp [lastOf, firstOf_eq_none_iff]

theorem exists_firstOf (h : a ∈ l) : ∃ b, firstOf key (key a) l = some b := by
  cases hf : firstOf key (key a) l with
  | some b => exact ⟨b, rfl⟩
  | none => exact absurd rfl (firstOf_eq_none_iff.mp hf a h)

theorem exists_lastOf (h : a ∈ l) : ∃ b, lastOf key (key a) l = some b :=
  exists_firstOf (List.mem_reverse.mpr h)

theorem firstOf_cons (key : α → κ) (k : κ) (a : α) (l : List α) :
    firstOf key k (a :: l) = if key a = k then some a else firstOf key k l := by
  rw [firstOf, List.find?_cons]
  by_cases h : key a = k
  · simp [h]
  · simp [h, firstOf]

/-- **Keys that do not repeat**: both ways find the one entry. -/
theorem firstOf_eq_lastOf (h : ∀ a ∈ l, ∀ b ∈ l, key a = key b → a = b) :
    firstOf key k l = lastOf key k l := by
  cases hf : firstOf key k l with
  | none => exact (lastOf_eq_none_iff.mpr (firstOf_eq_none_iff.mp hf)).symm
  | some a =>
    have ha := mem_of_firstOf hf
    obtain ⟨b, hb⟩ : ∃ b, lastOf key (key a) l = some b := exists_lastOf ha
    have hsame := h a ha b (mem_of_lastOf hb) (key_of_lastOf hb).symm
    rw [← key_of_firstOf hf, hb, hsame]

end

/-! ## Related lists -/

theorem forall₂_mem_left {R : α → β → Prop} {l : List α} {l' : List β}
    (h : List.Forall₂ R l l') {a : α} (ha : a ∈ l) : ∃ b ∈ l', R a b := by
  induction h with
  | nil => cases ha
  | @cons x y xs ys hr _ ih =>
    rcases List.mem_cons.mp ha with rfl | ha
    · exact ⟨y, List.mem_cons_self, hr⟩
    · obtain ⟨b, hb, hr'⟩ := ih ha
      exact ⟨b, List.mem_cons_of_mem _ hb, hr'⟩

theorem forall₂_mem_right {R : α → β → Prop} {l : List α} {l' : List β}
    (h : List.Forall₂ R l l') {b : β} (hb : b ∈ l') : ∃ a ∈ l, R a b :=
  forall₂_mem_left (List.Forall₂.flip h) hb

theorem firstOf_rel {R : α → β → Prop} {key : α → κ} {κ' : Type} [DecidableEq κ'] {key' : β → κ'}
    {k : κ} {k' : κ'} {l : List α} {l' : List β}
    (h : List.Forall₂ (fun a b => (key a = k ↔ key' b = k') ∧ R a b) l l') :
    Option.Rel R (firstOf key k l) (firstOf key' k' l') := by
  induction h with
  | nil => exact .none
  | @cons a b l l' hab _ ih =>
    rw [firstOf_cons, firstOf_cons]
    by_cases hk : key a = k
    · rw [if_pos hk, if_pos (hab.1.mp hk)]
      exact .some hab.2
    · rw [if_neg hk, if_neg (mt hab.1.mpr hk)]
      exact ih

theorem lastOf_rel {R : α → β → Prop} {key : α → κ} {κ' : Type} [DecidableEq κ'] {key' : β → κ'}
    {k : κ} {k' : κ'} {l : List α} {l' : List β}
    (h : List.Forall₂ (fun a b => (key a = k ↔ key' b = k') ∧ R a b) l l') :
    Option.Rel R (lastOf key k l) (lastOf key' k' l') :=
  firstOf_rel (List.forall₂_reverse_iff.mpr h)

/-- A list that lists the elements of another once is as long only if these do not repeat. -/
theorem nodup_iff_length_eq {l l' : List α} (hl' : l'.Nodup) (h : ∀ a, a ∈ l ↔ a ∈ l') :
    l.Nodup ↔ l'.length = l.length := by
  constructor
  · intro hl
    exact ((List.perm_ext_iff_of_nodup hl hl').mpr h).length_eq.symm
  · intro hlen
    have hsub : List.Subperm l' l := List.subperm_of_subset hl' fun a ha => (h a).mpr ha
    exact (hsub.perm_of_length_le (Nat.le_of_eq hlen.symm)).nodup_iff.mp hl'

/-! ## Tables that keep the last entry -/

theorem lookupItem_eq_firstOf (k : κ) (l : List (κ × α)) :
    Dict.lookupItem k l = (firstOf Prod.fst k l).map Prod.snd := by
  induction l with
  | nil => rfl
  | cons e l ih =>
    obtain ⟨k', a⟩ := e
    rw [Dict.lookupItem, firstOf_cons, ih]
    split
    · rfl
    · rfl

omit [DecidableEq κ] in
theorem keys_eq_of_forall₂ {l : List (κ × α)} {l' : List (κ × β)}
    (h : List.Forall₂ (fun x y => x.1 = y.1) l l') : l.map Prod.fst = l'.map Prod.fst := by
  induction h with
  | nil => rfl
  | cons hxy _ ih => rw [List.map_cons, List.map_cons, ih, hxy]

/-- Entries that agree in their keys agree in what a key finds. -/
theorem lookupItem_rel {R : α → β → Prop} {l : List (κ × α)} {l' : List (κ × β)}
    (h : List.Forall₂ (fun x y => x.1 = y.1 ∧ R x.2 y.2) l l') (k : κ) :
    Option.Rel R (Dict.lookupItem k l) (Dict.lookupItem k l') := by
  have hrel : Option.Rel (fun x y => R x.2 y.2) (firstOf Prod.fst k l) (firstOf Prod.fst k l') :=
    firstOf_rel (h.imp fun x y hxy => ⟨by rw [hxy.1], hxy.2⟩)
  rw [lookupItem_eq_firstOf, lookupItem_eq_firstOf]
  generalize firstOf Prod.fst k l = found at hrel
  generalize firstOf Prod.fst k l' = found' at hrel
  cases hrel with
  | none => exact .none
  | some hr => exact .some hr

/-- Setting entry by entry keeps the last of a key. -/
theorem get?_foldl_set (l : List (κ × α)) (d : Dict κ α) (k : κ) :
    (l.foldl (fun d e => d.set e.1 e.2) d).get? k =
      ((lastOf Prod.fst k l).map Prod.snd).or (d.get? k) := by
  rw [Dict.get?_foldl_set, lookupItem_eq_firstOf, lastOf]

/-- `{key(a): a for a in l}` -/
theorem get?_foldl_set_key (key : α → κ) (l : List α) (k : κ) :
    (l.foldl (fun d a => d.set (key a) a) Dict.empty).get? k = lastOf key k l := by
  have hmap : l.foldl (fun d a => d.set (key a) a) Dict.empty =
      (l.map fun a => (key a, a)).foldl (fun d e => d.set e.1 e.2) Dict.empty := by
    rw [List.foldl_map]
  rw [hmap, get?_foldl_set, Dict.get?_empty, Option.or_none, lastOf, lastOf, ← List.map_reverse,
    firstOf, firstOf, List.find?_map, Option.map_map]
  exact Option.map_id'

/-! ## Tables of positions that keep the first entry -/

/-- `unordered_map::emplace`: a present key keeps its value. -/
def emplace (d : Dict κ α) (k : κ) (a : α) : Dict κ α := if k ∈ d then d else d.set k a

theorem get?_emplace (d : Dict κ α) (k k' : κ) (a : α) :
    (emplace d k a).get? k' = (d.get? k').or (if k' = k then some a else none) := by
  unfold emplace
  by_cases hm : k ∈ d
  · rw [if_pos hm]
    by_cases hk : k' = k
    · subst hk
      obtain ⟨v, hv⟩ := (Dict.mem_iff_get? _ _).mp hm
      rw [hv, Option.some_or]
    · rw [if_neg hk, Option.or_none]
  · rw [if_neg hm, Dict.get?_set]
    by_cases hk : k' = k
    · subst hk
      cases hv : d.get? k' with
      | none => rw [if_pos rfl, Option.none_or]
      | some v => exact absurd (Dict.mem_of_get? hv) hm
    · rw [if_neg hk, if_neg hk, Option.or_none]

/-- `d` has the first position of every key of `l`. -/
def Positions (key : α → κ) (l : List α) (d : Dict κ Nat) : Prop :=
  ∀ k, d.get? k = l.findIdx? fun a => decide (key a = k)

theorem positions_empty (key : α → κ) : Positions key [] Dict.empty := fun _ => rfl

theorem Positions.emplace {key : α → κ} {l : List α} {d : Dict κ Nat} (h : Positions key l d)
    (a : α) : Positions key (l ++ [a]) (Indexes.emplace d (key a) l.length) := by
  intro k
  rw [get?_emplace, h k, List.findIdx?_append, List.findIdx?_singleton]
  congr 1
  by_cases hk : key a = k
  · simp [hk]
  · simp [hk, Ne.symm hk]

theorem Positions.lt {key : α → κ} {l : List α} {d : Dict κ Nat} (h : Positions key l d) {k : κ}
    {i : Nat} (hi : d.get? k = some i) : i < l.length := by
  rw [h k, List.findIdx?_eq_some_iff_getElem] at hi
  obtain ⟨hlt, -⟩ := hi
  exact hlt

theorem Positions.find {key : α → κ} {l : List α} {d : Dict κ Nat} (h : Positions key l d) (k : κ) :
    (d.get? k).bind (fun i => l[i]?) = firstOf key k l := by
  rw [h k]
  clear h
  induction l with
  | nil => rfl
  | cons a l ih =>
    rw [List.findIdx?_cons, firstOf_cons, ← ih]
    by_cases hk : key a = k
    · simp [hk]
    · simp only [hk, decide_false, Bool.false_eq_true, if_false]
      rw [Option.bind_map]
      rfl

/-- **A table of first positions finds the first entry**, -/
theorem Positions.firstOf_of_some {key : α → κ} {l : List α} {d : Dict κ Nat}
    (h : Positions key l d) {k : κ} {i : Nat} (hi : d.get? k = some i) :
    firstOf key k l = some (l.get ⟨i, h.lt hi⟩) := by
  have hfind := h.find k
  rw [hi, Option.bind_some, List.getElem?_eq_getElem (h.lt hi)] at hfind
  exact hfind.symm

/-- and nothing where there is no position. -/
theorem Positions.firstOf_of_none {key : α → κ} {l : List α} {d : Dict κ Nat}
    (h : Positions key l d) {k : κ} (hi : d.get? k = none) : firstOf key k l = none := by
  have hfind := h.find k
  rw [hi] at hfind
  exact hfind.symm

end Indexes
