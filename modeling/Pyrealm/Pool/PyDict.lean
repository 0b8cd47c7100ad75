import Mathlib.Data.List.Nodup
import Pyrealm.Pool.PyBytes

/-!
# Python dictionaries

A `dict` keeps its entries in insertion order; assigning to a present key
replaces the value in place.  The keys of a `Dict` are distinct by
construction, so no invariant has to be carried by its users.

* `get?_set`, `keys_set`, `get?_erase`, `items_mapVals`: what each operation does.
* `get?_eq_some_iff`: look-up is membership of the entry.
* `get?_foldl_set`: a dictionary built entry by entry keeps the last value of a key.
* `foldlM_set`: so does a loop that may raise.
* `keys_fromkeys`: `tuple(dict.fromkeys(xs))` is `xs` without its repetitions.
* `values_counter`: the values of a `Counter` are the multiplicities.
-/

namespace Py

structure Dict (κ ν : Type) where
  items : List (κ × ν)
  nodup : (items.map Prod.fst).Nodup
deriving Repr

namespace Dict

variable {κ ν μ : Type}

def empty : Dict κ ν := ⟨[], List.nodup_nil⟩

def keys (d : Dict κ ν) : List κ := d.items.map Prod.fst

instance : Membership κ (Dict κ ν) := ⟨fun d k => k ∈ d.keys⟩

/-- `d.values()` -/
def values (d : Dict κ ν) : List ν := d.items.map Prod.snd

theorem mem_def (d : Dict κ ν) (k : κ) : k ∈ d ↔ k ∈ d.keys := Iff.rfl

theorem nodup_keys (d : Dict κ ν) : d.keys.Nodup := d.nodup

@[simp] theorem not_mem_empty (k : κ) : k ∉ (empty : Dict κ ν) := List.not_mem_nil

theorem ext_items (d e : Dict κ ν) (h : d.items = e.items) : d = e := by
  cases d; cases e; cases h; rfl

/-! ## Values by key, in a dictionary whose values are rewritten -/

/-- `{k: f(k, v) for k, v in d.items()}` -/
def mapVals (f : κ → ν → μ) (d : Dict κ ν) : Dict κ μ where
  items := d.items.map fun e => (e.1, f e.1 e.2)
  nodup := by
    rw [List.map_map]
    exact d.nodup

theorem items_mapVals (f : κ → ν → μ) (d : Dict κ ν) :
    (d.mapVals f).items = d.items.map fun e => (e.1, f e.1 e.2) := rfl

@[simp] theorem keys_mapVals (f : κ → ν → μ) (d : Dict κ ν) : (d.mapVals f).keys = d.keys := by
  simp [keys, mapVals]

@[simp] theorem mem_mapVals (f : κ → ν → μ) (d : Dict κ ν) (k : κ) : k ∈ d.mapVals f ↔ k ∈ d := by
  rw [mem_def, keys_mapVals, mem_def]

variable [DecidableEq κ]

instance (k : κ) (d : Dict κ ν) : Decidable (k ∈ d) := inferInstanceAs (Decidable (k ∈ d.keys))

/-! ## Look-up -/

def lookupItem (k : κ) : List (κ × ν) → Option ν
  | [] => none
  | (k', v) :: rest => if k' = k then some v else lookupItem k rest

/-- `d.get(k)` -/
def get? (d : Dict κ ν) (k : κ) : Option ν := lookupItem k d.items

/-- `d[k]` -/
def getItem (d : Dict κ ν) (k : κ) : Except Exc ν :=
  match d.get? k with
  | some v => .ok v
  | none => .error .keyError

theorem lookupItem_eq_some_iff (k : κ) (v : ν) (l : List (κ × ν)) (h : (l.map Prod.fst).Nodup) :
    lookupItem k l = some v ↔ (k, v) ∈ l := by
  induction l with
  | nil => simp [lookupItem]
  | cons e l ih =>
    obtain ⟨k', v'⟩ := e
    rw [List.map_cons, List.nodup_cons] at h
    unfold lookupItem
    split
    · next hk =>
      subst hk
      rw [List.mem_cons, Option.some.injEq, Prod.mk.injEq]
      constructor
      · rintro rfl; exact Or.inl ⟨rfl, rfl⟩
      · rintro (⟨-, rfl⟩ | hm)
        · rfl
        · exact absurd (List.mem_map_of_mem hm) h.1
    · next hk =>
      rw [ih h.2, List.mem_cons, Prod.mk.injEq]
      constructor
      · exact Or.inr
      · rintro (⟨rfl, -⟩ | hm)
        · exact absurd rfl hk
        · exact hm

theorem get?_eq_some_iff (d : Dict κ ν) (k : κ) (v : ν) : d.get? k = some v ↔ (k, v) ∈ d.items :=
  lookupItem_eq_some_iff k v d.items d.nodup

theorem mem_iff_get? (d : Dict κ ν) (k : κ) : k ∈ d ↔ ∃ v, d.get? k = some v := by
  rw [mem_def, keys, List.mem_map]
  constructor
  · rintro ⟨⟨k', v⟩, hm, rfl⟩
    exact ⟨v, (d.get?_eq_some_iff _ _).mpr hm⟩
  · rintro ⟨v, hv⟩
    exact ⟨(k, v), (d.get?_eq_some_iff _ _).mp hv, rfl⟩

theorem mem_of_get? {d : Dict κ ν} {k : κ} {v : ν} (h : d.get? k = some v) : k ∈ d :=
  (d.mem_iff_get? k).mpr ⟨v, h⟩

theorem getItem_of_get? {d : Dict κ ν} {k : κ} {v : ν} (h : d.get? k = some v) :
    d.getItem k = .ok v := by
  rw [getItem, h]

@[simp] theorem get?_empty (k : κ) : (empty : Dict κ ν).get? k = none := rfl

theorem lookupItem_map (f : κ → ν → μ) (k : κ) (l : List (κ × ν)) :
    lookupItem k (l.map fun e => (e.1, f e.1 e.2)) = (lookupItem k l).map (f k) := by
  induction l with
  | nil => rfl
  | cons e l ih =>
    obtain ⟨k', v⟩ := e
    rw [List.map_cons, lookupItem, lookupItem]
    split
    · next hk => subst hk; rfl
    · exact ih

@[simp] theorem get?_mapVals (f : κ → ν → μ) (d : Dict κ ν) (k : κ) :
    (d.mapVals f).get? k = (d.get? k).map (f k) :=
  lookupItem_map f k d.items

/-! ## Assignment -/

def setItems (k : κ) (v : ν) : List (κ × ν) → List (κ × ν)
  | [] => [(k, v)]
  | (k', v') :: rest => if k' = k then (k', v) :: rest else (k', v') :: setItems k v rest

theorem map_fst_setItems (k : κ) (v : ν) (l : List (κ × ν)) :
    (setItems k v l).map Prod.fst =
      if k ∈ l.map Prod.fst then l.map Prod.fst else l.map Prod.fst ++ [k] := by
  induction l with
  | nil => simp [setItems]
  | cons e l ih =>
    obtain ⟨k', v'⟩ := e
    unfold setItems
    split
    · next hk => subst hk; simp
    · next hk =>
      simp only [List.map_cons, ih]
      have hk' : ¬ k = k' := fun h => hk h.symm
      by_cases hm : k ∈ l.map Prod.fst
      · rw [if_pos hm, if_pos (List.mem_cons_of_mem _ hm)]
      · rw [if_neg hm, if_neg (by simpa [hk'] using hm), List.cons_append]

/-- `d[k] = v` -/
def set (d : Dict κ ν) (k : κ) (v : ν) : Dict κ ν where
  items := setItems k v d.items
  nodup := by
    rw [map_fst_setItems]
    split
    · exact d.nodup
    · next h => exact List.nodup_append.mpr ⟨d.nodup, List.nodup_singleton k, by
        rintro a ha b hb rfl
        rw [List.mem_singleton] at hb
        exact h (hb ▸ ha)⟩

theorem keys_set (d : Dict κ ν) (k : κ) (v : ν) :
    (d.set k v).keys = if k ∈ d then d.keys else d.keys ++ [k] :=
  map_fst_setItems k v d.items

@[simp] theorem mem_set (d : Dict κ ν) (k k' : κ) (v : ν) : k' ∈ d.set k v ↔ k' = k ∨ k' ∈ d := by
  rw [mem_def, keys_set]
  split
  · next h =>
    constructor
    · exact Or.inr
    · rintro (rfl | h')
      · exact h
      · exact h'
  · rw [List.mem_append, List.mem_singleton, mem_def, or_comm]

theorem lookupItem_setItems (k k' : κ) (v : ν) (l : List (κ × ν)) :
    lookupItem k' (setItems k v l) = if k' = k then some v else lookupItem k' l := by
  induction l with
  | nil => simp [setItems, lookupItem, eq_comm]
  | cons e l ih =>
    obtain ⟨k₁, v₁⟩ := e
    by_cases hk : k₁ = k
    · subst hk
      rw [setItems, if_pos rfl, lookupItem, lookupItem]
      by_cases h' : k₁ = k'
      · rw [if_pos h', if_pos h'.symm]
      · rw [if_neg h', if_neg (Ne.symm h'), if_neg h']
    · rw [setItems, if_neg hk, lookupItem, lookupItem, ih]
      by_cases h' : k₁ = k'
      · subst h'
        rw [if_pos rfl, if_neg hk, if_pos rfl]
      · rw [if_neg h', if_neg h']

@[simp] theorem get?_set (d : Dict κ ν) (k k' : κ) (v : ν) :
    (d.set k v).get? k' = if k' = k then some v else d.get? k' :=
  lookupItem_setItems k k' v d.items

theorem items_set_of_not_mem (d : Dict κ ν) (k : κ) (v : ν) (h : k ∉ d) :
    (d.set k v).items = d.items ++ [(k, v)] := by
  have key : ∀ l : List (κ × ν), k ∉ l.map Prod.fst → setItems k v l = l ++ [(k, v)] := by
    intro l
    induction l with
    | nil => intro _; rfl
    | cons e l ih =>
      intro hl
      rw [List.map_cons, List.mem_cons, not_or] at hl
      obtain ⟨k', v'⟩ := e
      rw [setItems, if_neg (Ne.symm hl.1), ih hl.2, List.cons_append]
  exact key d.items h

/-! ## Removal -/

/-- `d` without the key `k`. -/
def erase (d : Dict κ ν) (k : κ) : Dict κ ν where
  items := d.items.filter (fun e => e.1 ≠ k)
  nodup := d.nodup.sublist (List.filter_sublist.map Prod.fst)

/-- `d.pop(k)`, its effect on the dictionary: a missing key raises `KeyError`. -/
def pop (d : Dict κ ν) (k : κ) : Except Exc (Dict κ ν) :=
  if k ∈ d then .ok (d.erase k) else .error .keyError

theorem keys_erase (d : Dict κ ν) (k : κ) : (d.erase k).keys = d.keys.filter (· ≠ k) := by
  rw [keys, keys, List.filter_map]
  rfl

@[simp] theorem mem_erase (d : Dict κ ν) (k k' : κ) : k' ∈ d.erase k ↔ k' ∈ d ∧ k' ≠ k := by
  rw [mem_def, keys_erase, List.mem_filter, decide_eq_true_iff, mem_def]

@[simp] theorem get?_erase (d : Dict κ ν) (k k' : κ) :
    (d.erase k).get? k' = if k' = k then none else d.get? k' := by
  apply Option.ext
  intro v
  rw [get?_eq_some_iff, erase, List.mem_filter]
  by_cases hk : k' = k
  · simp [hk]
  · rw [if_neg hk, get?_eq_some_iff]
    simp [hk]

theorem pop_of_mem (d : Dict κ ν) (k : κ) (h : k ∈ d) : d.pop k = .ok (d.erase k) := if_pos h

/-! ## Dictionaries built entry by entry -/

theorem lookupItem_append (k : κ) (l l' : List (κ × ν)) :
    lookupItem k (l ++ l') = (lookupItem k l).or (lookupItem k l') := by
  induction l with
  | nil => rfl
  | cons e l ih =>
    obtain ⟨k', v⟩ := e
    rw [List.cons_append, lookupItem, lookupItem, ih]
    split
    · rfl
    · rfl

theorem get?_foldl_set (l : List (κ × ν)) (d : Dict κ ν) (k : κ) :
    (l.foldl (fun d e => d.set e.1 e.2) d).get? k =
      (lookupItem k l.reverse).or (d.get? k) := by
  induction l generalizing d with
  | nil => rfl
  | cons e l ih =>
    obtain ⟨k', v⟩ := e
    rw [List.foldl_cons, ih, get?_set, List.reverse_cons, lookupItem_append, lookupItem,
      Option.or_assoc]
    congr 1
    by_cases hk : k = k'
    · rw [if_pos hk, if_pos hk.symm]; rfl
    · rw [if_neg hk, if_neg (Ne.symm hk)]; rfl

theorem mem_foldl_set (l : List (κ × ν)) (d : Dict κ ν) (k : κ) :
    k ∈ l.foldl (fun d e => d.set e.1 e.2) d ↔ k ∈ l.map Prod.fst ∨ k ∈ d := by
  induction l generalizing d with
  | nil => simp
  | cons e l ih =>
    rw [List.foldl_cons, ih, mem_set, List.map_cons, List.mem_cons]
    tauto

theorem mem_of_lookupItem {k : κ} {v : ν} {l : List (κ × ν)} (h : lookupItem k l = some v) :
    (k, v) ∈ l := by
  induction l with
  | nil => cases h
  | cons e l ih =>
    obtain ⟨k', v'⟩ := e
    rw [lookupItem] at h
    split at h
    · next hk =>
      subst hk
      cases h
      exact List.mem_cons_self
    · exact List.mem_cons_of_mem _ (ih h)

theorem mem_keys_iff_lookupItem (k : κ) (l : List (κ × ν)) :
    k ∈ l.map Prod.fst ↔ (lookupItem k l).isSome := by
  induction l with
  | nil => simp [lookupItem]
  | cons e l ih =>
    obtain ⟨k', v⟩ := e
    rw [List.map_cons, List.mem_cons, lookupItem]
    by_cases hk : k' = k
    · rw [if_pos hk]
      simp [hk]
    · rw [if_neg hk, ih]
      simp [Ne.symm hk]

/-- A key set in the loop has one of the values set. -/
theorem mem_of_get?_foldl_set {l : List (κ × ν)} {d : Dict κ ν} {k : κ} {v : ν}
    (h : (l.foldl (fun d e => d.set e.1 e.2) d).get? k = some v) :
    (k, v) ∈ l ∨ d.get? k = some v := by
  rw [get?_foldl_set, Option.or_eq_some_iff] at h
  rcases h with h | ⟨-, h⟩
  · exact Or.inl (List.mem_reverse.mp (mem_of_lookupItem h))
  · exact Or.inr h

theorem get?_foldl_set_of_not_mem {l : List (κ × ν)} {k : κ} (h : k ∉ l.map Prod.fst)
    (d : Dict κ ν) : (l.foldl (fun d e => d.set e.1 e.2) d).get? k = d.get? k := by
  rw [get?_foldl_set]
  cases hl : lookupItem k l.reverse with
  | none => rfl
  | some v => exact absurd (List.mem_map_of_mem (List.mem_reverse.mp (mem_of_lookupItem hl))) h

/-- A fallible loop each of whose rounds sets one entry. -/
theorem foldlM_set {α ε : Type} {step : Dict κ ν → α → Except ε (Dict κ ν)} {R : α → κ × ν → Prop}
    (hstep : ∀ d a d', step d a = .ok d' → ∃ e, R a e ∧ d' = d.set e.1 e.2) {l : List α}
    {d d' : Dict κ ν} (h : l.foldlM step d = .ok d') :
    ∃ entries, List.Forall₂ R l entries ∧ d' = entries.foldl (fun d e => d.set e.1 e.2) d := by
  induction l generalizing d with
  | nil =>
    cases h
    exact ⟨[], .nil, rfl⟩
  | cons a l ih =>
    rw [List.foldlM_cons, bind_eq_ok_iff] at h
    obtain ⟨next, hnext, hrest⟩ := h
    obtain ⟨e, hr, rfl⟩ := hstep d a next hnext
    obtain ⟨entries, h1, h2⟩ := ih hrest
    exact ⟨e :: entries, .cons hr h1, h2⟩

/-- Setting every key of `d` afresh, in order, rewrites its values. -/
theorem foldl_set_items (f : κ → ν → μ) (d : Dict κ ν) :
    (d.items.map fun e => (e.1, f e.1 e.2)).foldl (fun d e => d.set e.1 e.2) empty =
      d.mapVals f := by
  have key : ∀ (l : List (κ × μ)) (a : Dict κ μ), (a.keys ++ l.map Prod.fst).Nodup →
      (l.foldl (fun d e => d.set e.1 e.2) a).items = a.items ++ l := by
    intro l
    induction l with
    | nil => intro a _; simp
    | cons e l ih =>
      intro a hn
      rw [List.map_cons] at hn
      have he : e.1 ∉ a := fun hm =>
        (List.nodup_append.mp hn).2.2 _ hm _ List.mem_cons_self rfl
      rw [List.foldl_cons, ih, items_set_of_not_mem _ _ _ he, List.append_assoc,
        List.singleton_append]
      rw [keys_set, if_neg he, List.append_assoc]
      exact hn
  apply ext_items
  exact key (d.mapVals f).items empty (d.mapVals f).nodup

/-! ## `dict.fromkeys` -/

/-- `dict.fromkeys(xs)` -/
def fromkeys (xs : List κ) : Dict κ Unit := xs.foldl (fun d x => d.set x ()) empty

/-- Assignments in a loop, whatever the values: new keys in the order of their first occurrence. -/
theorem keys_foldl_set_map {α : Type} (key : α → κ) (f : Dict κ ν → α → ν) (l : List α)
    (d : Dict κ ν) :
    (l.foldl (fun d a => d.set (key a) (f d a)) d).keys =
      d.keys ++ ((l.map key).filter (· ∉ d.keys)).eraseDups := by
  induction l generalizing d with
  | nil => simp
  | cons a l ih =>
    rw [List.foldl_cons, ih, keys_set, List.map_cons]
    by_cases hx : key a ∈ d
    · rw [if_pos hx, List.filter_cons_of_neg (by simpa [mem_def] using hx)]
    · rw [if_neg hx, List.filter_cons_of_pos (by simpa [mem_def] using hx), List.eraseDups_cons,
        List.append_assoc, List.singleton_append, List.filter_filter]
      congr 3
      apply List.filter_congr
      intro y _
      by_cases hy : y ∈ d.keys <;> by_cases hyx : y = key a <;> simp [hy, hyx]

theorem keys_foldl_set (f : Dict κ ν → κ → ν) (xs : List κ) (d : Dict κ ν) :
    (xs.foldl (fun d x => d.set x (f d x)) d).keys =
      d.keys ++ (xs.filter (· ∉ d.keys)).eraseDups := by
  have h := keys_foldl_set_map id f xs d
  rwa [List.map_id] at h

theorem keys_fromkeys (xs : List κ) : (fromkeys xs).keys = xs.eraseDups := by
  rw [fromkeys, keys_foldl_set fun _ _ => ()]
  simp [empty, keys]

/-- `Counter(xs)` -/
def counter (xs : List κ) : Dict κ Nat :=
  xs.foldl (fun d x => d.set x ((d.get? x).getD 0 + 1)) empty

theorem keys_counter (xs : List κ) : (counter xs).keys = xs.eraseDups := by
  rw [counter, keys_foldl_set fun d x => (d.get? x).getD 0 + 1]
  simp [empty, keys]

theorem getD_foldl_count (xs : List κ) (d : Dict κ Nat) (k : κ) :
    ((xs.foldl (fun d x => d.set x ((d.get? x).getD 0 + 1)) d).get? k).getD 0 =
      (d.get? k).getD 0 + xs.count k := by
  induction xs generalizing d with
  | nil => rfl
  | cons x xs ih =>
    rw [List.foldl_cons, ih, get?_set]
    by_cases hx : k = x
    · subst hx
      rw [if_pos rfl, List.count_cons_self, Option.getD_some]
      omega
    · rw [if_neg hx, List.count_cons_of_ne (Ne.symm hx)]

/-- A counter holds each value once, with its multiplicity. -/
theorem values_counter (xs : List κ) : (counter xs).values = xs.eraseDups.map (xs.count ·) := by
  rw [values, ← keys_counter, keys, List.map_map]
  apply List.map_congr_left
  intro e he
  have hcount := getD_foldl_count xs empty e.1
  rw [← counter, ((counter xs).get?_eq_some_iff e.1 e.2).mpr he, get?_empty, Option.getD_some,
    Option.getD_none, Nat.zero_add] at hcount
  exact hcount

end Dict

/-- Dropping repetitions commutes with a filter. -/
theorem eraseDups_filter {α : Type} [DecidableEq α] (p : α → Bool) (xs : List α) :
    (xs.filter p).eraseDups = xs.eraseDups.filter p := by
  induction hn : xs.length using Nat.strongRecOn generalizing xs with
  | _ n ih =>
    cases xs with
    | nil => rfl
    | cons x xs =>
      have hlt : (xs.filter fun b => !b == x).length < n := by
        have h := List.length_filter_le (fun b => !b == x) xs
        rw [List.length_cons] at hn
        omega
      have hrec := ih _ hlt (xs.filter fun b => !b == x) rfl
      rw [List.eraseDups_cons]
      by_cases hp : p x = true
      · rw [List.filter_cons_of_pos hp, List.filter_cons_of_pos hp, List.eraseDups_cons, ← hrec,
          List.filter_filter, List.filter_filter]
        simp only [Bool.and_comm]
      · rw [List.filter_cons_of_neg hp, List.filter_cons_of_neg hp, ← hrec, List.filter_filter]
        congr 1
        apply List.filter_congr
        intro y _
        by_cases hy : y = x
        · subst hy; simp [hp]
        · simp [hy]

end Py
