import Pyrealm.Pool.PyList
import Pyrealm.Reader.Iteration
import Pyrealm.Reader.Schema

/-!
# `Results` as a sequence

Indices are resolved by `NativeResults::get`, slices by `range` and `indices`,
and both read through the record cache.

    results[…] = list(results)[…]        (results_like_list)

* `rangeItems_slice`: the range of a slice has the positions that the slice selects.
* `nativeGet_index`: the native index arithmetic.
-/

namespace Pyrealm.Reader

open Py Effects Interning

/-! ## Slices -/

theorem rangeItems_up (a b : Int) {k : Int} (h : 0 < k) :
    rangeItems (a, b, k) = progression a k ((b - a + k - 1) / k).toNat := by
  unfold rangeItems
  simp only [h, if_true, List.bind_eq_flatMap, List.pure_def]
  rw [← List.map_eq_flatMap, List.map_map]
  rfl

theorem rangeItems_down (a b : Int) {k : Int} (h : ¬ 0 < k) :
    rangeItems (a, b, k) = progression a k ((a - b - k - 1) / -k).toNat := by
  unfold rangeItems
  simp only [h, if_false, List.bind_eq_flatMap, List.pure_def]
  rw [← List.map_eq_flatMap, List.map_map]
  rfl

/-- How `indices` brings a bound into the range, counting up. -/
theorem clamp_up (n : Nat) (i : Int) :
    (if i < 0 then max (i + n) 0 else min i n) = min (max (fromEnd n i) 0) n := by
  unfold fromEnd
  split
  · omega
  · omega

/-- How it does, counting down. -/
theorem clamp_down (n : Nat) (i : Int) :
    (if i < 0 then max (i + n) (-1) else min i (n - 1)) = max (min (fromEnd n i) (n - 1)) (-1) := by
  unfold fromEnd
  split
  · omega
  · omega

section
variable {start stop step : Option Int} {n : Nat} {k : Int}

theorem slice_up (hk : 0 < k) :
    rangeItems (start.elim (0 : Int) fun i => if i < 0 then max (i + n) 0 else min i n,
      stop.elim (n : Int) fun i => if i < 0 then max (i + n) 0 else min i n, k) =
      (slicePositions n start stop k).map Int.ofNat := by
  simp only [clamp_up]
  have hfirst : (start.elim (0 : Int) fun i => min (max (fromEnd n i) 0) n) =
      min (start.elim (0 : Int) fun i => max (fromEnd n i) 0) n := by
    cases start with
    | none => exact (min_eq_left (Int.natCast_nonneg n)).symm
    | some i => rfl
  have hlimit : (stop.elim (n : Int) fun i => min (max (fromEnd n i) 0) n) =
      min (max (stop.elim (n : Int) (fromEnd n)) 0) n := by
    cases stop with
    | none =>
      show (n : Int) = min (max (n : Int) 0) n
      omega
    | some i => rfl
  have hnonneg : 0 ≤ start.elim (0 : Int) fun i => max (fromEnd n i) 0 := by
    cases start with
    | none => exact Int.le_refl 0
    | some i => exact Int.le_max_right _ _
  rw [hfirst, hlimit, rangeItems_up _ _ hk, progression_eq_filter (n := n) hk (by omega) (by omega),
    slicePositions, if_pos hk]
  generalize (start.elim (0 : Int) fun i => max (fromEnd n i) 0) = first at hnonneg
  generalize stop.elim (n : Int) (fromEnd n) = limit
  congr 1
  refine List.filter_congr fun p hp => decide_eq_decide.mpr ?_
  rw [List.mem_range] at hp
  by_cases hle : first ≤ n
  · rw [min_eq_left hle]
    exact and_congr_right fun _ => and_congr_left fun _ => by omega
  · exact iff_of_false (fun h => by omega) fun h => by omega

theorem slice_down (hk : k < 0) :
    rangeItems (start.elim (n - 1 : Int) fun i => if i < 0 then max (i + n) (-1) else min i (n - 1),
      stop.elim (-1 : Int) fun i => if i < 0 then max (i + n) (-1) else min i (n - 1), k) =
      (slicePositions n start stop k).map Int.ofNat := by
  have hup : ¬ 0 < k := by omega
  simp only [clamp_down]
  have hfirst : (start.elim (n - 1 : Int) fun i => max (min (fromEnd n i) (n - 1)) (-1)) =
      max (start.elim (n - 1 : Int) fun i => min (fromEnd n i) (n - 1)) (-1) := by
    cases start with
    | none =>
      show (n - 1 : Int) = max (n - 1 : Int) (-1)
      omega
    | some i => rfl
  have hlimit : (stop.elim (-1 : Int) fun i => max (min (fromEnd n i) (n - 1)) (-1)) =
      max (min (stop.elim (-1 : Int) (fromEnd n)) (n - 1)) (-1) := by
    cases stop with
    | none =>
      show (-1 : Int) = max (min (-1 : Int) (n - 1)) (-1)
      omega
    | some i => rfl
  have hbound : (start.elim (n - 1 : Int) fun i => min (fromEnd n i) (n - 1)) ≤ n - 1 := by
    cases start with
    | none => exact Int.le_refl _
    | some i => exact Int.min_le_right _ _
  rw [hfirst, hlimit, rangeItems_down _ _ hup,
    progression_eq_filter_reverse (n := n) hk (by omega) (by omega), slicePositions, if_neg hup]
  generalize (start.elim (n - 1 : Int) fun i => min (fromEnd n i) (n - 1)) = first at hbound
  generalize stop.elim (-1 : Int) (fromEnd n) = limit
  congr 1
  refine List.filter_congr fun p hp => decide_eq_decide.mpr ?_
  rw [List.mem_reverse, List.mem_range] at hp
  by_cases hle : -1 ≤ first
  · rw [max_eq_left hle]
    exact and_congr_right fun _ => and_congr_left fun _ => by omega
  · exact iff_of_false (fun h => by omega) fun h => by omega

theorem sliceIndices_zero (start stop : Option Int) (n : Nat) :
    sliceIndices start stop (some 0) n = .error .valueError := rfl

/-- **The range of a slice** has the positions that the slice selects. -/
theorem rangeItems_slice (h : step ≠ some 0) :
    ∃ bounds, sliceIndices start stop step n = .ok bounds ∧
      rangeItems bounds = (slicePositions n start stop (step.getD 1)).map Int.ofNat := by
  have hne : step.getD 1 ≠ 0 := by
    cases step with
    | none => decide
    | some k => exact fun hk => h (congrArg some hk)
  unfold sliceIndices
  generalize step.getD 1 = k at hne
  simp only [if_neg hne]
  refine ⟨_, rfl, ?_⟩
  by_cases hk : 0 < k
  · have hlt : ¬ k < 0 := by omega
    simp only [hlt, if_false]
    exact slice_up hk
  · have hlt : k < 0 := by omega
    simp only [hlt, if_true]
    exact slice_down hlt

end

/-! ## The native index -/

/-- Representable as `std::int64_t`. -/
def InInt64 (i : Int) : Prop := -2 ^ 63 ≤ i ∧ i < 2 ^ 63

section
variable (decodeReplace : Bytes → PyStr) (schema : NativeSchema) (native : NativeResults)

/-- The object at an index is the one at the position that Python's index names. -/
theorem object_index {index : Int} (hi : InInt64 index) :
    native.object index = (indexPosition native.count index).elim (.error .indexError)
      native.results.getObject := by
  have hrange : -2 ^ 63 ≤ index ∧ index < 2 ^ 63 := hi
  unfold NativeResults.object indexPosition
  rw [if_pos hrange]
  dsimp only
  by_cases hneg : index < 0
  · rw [if_pos hneg, if_neg (fun h => absurd hneg (by omega) : ¬ (0 ≤ index ∧ index < native.count))]
    by_cases hpos : 0 ≤ (native.count : Int) + index
    · rw [if_neg (by omega), if_pos ⟨hneg, by omega⟩, Option.elim_some]
    · rw [if_pos (Or.inl (by omega)), if_neg (by omega), Option.elim_none]
  · rw [if_neg hneg]
    by_cases hlt : index < native.count
    · rw [if_neg (by omega), if_pos ⟨by omega, hlt⟩, Option.elim_some]
    · rw [if_pos (Or.inr (by omega)), if_neg fun h => hlt h.2, if_neg fun h => hneg h.1,
        Option.elim_none]

/-- **The native index arithmetic** names the position that Python's does. -/
theorem nativeGet_index (hn : native.count < 2 ^ 63) {index : Int} (hi : InInt64 index) :
    nativeGet decodeReplace schema native index =
      (indexPosition native.count index).elim (.error .indexError) fun p =>
        nativeGet decodeReplace schema native p := by
  unfold nativeGet
  rw [object_index native hi]
  cases hp : indexPosition native.count index with
  | none => rfl
  | some p =>
    have hlt := indexPosition_lt hp
    have hi' : InInt64 p := ⟨by omega, by omega⟩
    have hsame : indexPosition native.count p = some p := by
      rw [indexPosition, if_pos ⟨by omega, by omega⟩, Int.toNat_natCast]
    rw [Option.elim_some, Option.elim_some, object_index native hi', hsame, Option.elim_some]

end

/-! ## Reading several entries -/

section
variable {parseDecimal : PyStr → Option PyStr} {results count : Nat} {item : Int → RawAnswer}
  {identity : Nat → Int × Int} {s : Memory}

/-- The list has the record of every position. -/
theorem wp_readItems_named (h : Inv parseDecimal s) (positions : List Nat)
    (hread : ∀ p ∈ positions, surface (item p) = .ok (identity p)) :
    wp (serving results count item) (readItems results (positions.map Int.ofNat))
      (fun rs t => (∃ new, Stage parseDecimal s new none t) ∧
        List.Forall₂ (fun p r => Yields t r (identity p)) positions rs) (fun _ _ => False) s := by
  induction positions generalizing s with
  | nil => exact ⟨⟨[], h.start⟩, .nil⟩
  | cons p positions ih =>
    have hp := hread p List.mem_cons_self
    rw [List.map_cons, readItems, wp_bind]
    refine wp_mono (wp_readItem h (Int.ofNat p)) ?_ ?_
    · rintro r t ⟨ht, id, hid, hy⟩
      rw [Int.ofNat_eq_natCast, hp] at hid
      cases hid
      rw [wp_bind]
      refine wp_mono (ih ht.inv fun q hq => hread q (List.mem_cons_of_mem _ hq)) ?_ fun _ _ => id
      rintro rs u ⟨⟨new, hu⟩, hrs⟩
      exact ⟨⟨_, ht.trans hu⟩, .cons (hy.kept hu.kept) hrs⟩
    · rintro e t ⟨-, he⟩
      rw [Int.ofNat_eq_natCast, hp] at he
      cases he

theorem answered_of_named
    (h : ∀ p : Nat, p < count → ∃ raw, item p = .ok raw ∧ Names raw (identity p)) (p : Nat)
    (hp : p < count) : Answered (item p) :=
  Or.inl ((h p hp).imp fun _ hraw => hraw.1)

theorem stopsAt_of_named
    (h : ∀ p : Nat, p < count → ∃ raw, item p = .ok raw ∧ Names raw (identity p)) :
    StopsAt count item count :=
  ⟨fun p hp => (h p hp).imp fun _ hraw => ⟨_, hraw⟩, Or.inl rfl⟩

/-- The records that `next` gave. -/
def recordsOf : List (Memory × Except Error Resumed) → List Nat
  | [] => []
  | (_, .ok (.yielded r _)) :: events => r :: recordsOf events
  | _ :: events => recordsOf events

/-- **`list(results)`** has the record of every position. -/
theorem drives_lists {g g' : Option Generator} {events : List (Memory × Except Error Resumed)}
    {t : Memory} (h : Drives (serving results count item) Eq advance s g events t g')
    (hread : ∀ p : Nat, p < count → ∃ raw, item p = .ok raw ∧ Names raw (identity p)) {i : Nat}
    (hg : Stands results count count i g) (hend : g' = none) (hs : Inv parseDecimal s) :
    (∃ new, Stage parseDecimal s new none t) ∧
      List.Forall₂ (fun p r => Yields t r (identity p)) (List.range' i (count - i))
        (recordsOf events) := by
  induction h generalizing i with
  | stay s g =>
    rw [hend] at hg
    have hle : count - i = 0 := by
      have heq : i = count + 1 := hg
      omega
    rw [hle]
    exact ⟨⟨[], hs.start⟩, .nil⟩
  | @next s t u v g g' out events hrun hb hrest ih =>
    subst hb
    obtain ⟨⟨new, ht⟩, hv, hstands⟩ :=
      advance_run hs (answered_of_named hread) (stopsAt_of_named hread) hg hrun
    obtain ⟨⟨new', hu⟩, hall⟩ := ih hstands hend ht.inv
    refine ⟨⟨_, ht.trans hu⟩, ?_⟩
    cases hv with
    | @record _ raw identity' r hi hraw hn hy =>
      obtain ⟨raw', hraw', hn'⟩ := hread i hi
      rw [hraw] at hraw'
      cases hraw'
      cases hn.inj hn'
      rw [show count - i = count - (i + 1) + 1 by omega, List.range'_succ]
      exact .cons (hy.kept hu.kept) hall
    | damaged hi hbad hd =>
      obtain ⟨raw, hraw, hn⟩ := hread i hi
      rw [hraw] at hbad
      exact absurd hn (hbad _)
    | stopped hi =>
      rw [show count - i = 0 by omega]
      rw [show count - (i + 1) = 0 by omega] at hall
      exact hall

/-! ## Records that somebody holds -/

/-- Anything may happen, but the caller keeps these records. -/
def Holding (parseDecimal : PyStr → Option PyStr) (rs : List Nat) (s t : Memory) : Prop :=
  Moves parseDecimal s t ∧ ∀ r ∈ rs, r ∈ t.heap.roots

theorem Moves.yields {t : Memory} (h : Moves parseDecimal s t) (hs : Inv parseDecimal s) {r : Nat}
    {identity : Int × Int} (hy : Yields s r identity) (hr : r ∈ t.heap.roots) :
    Yields t r identity := by
  obtain ⟨record, hl, hi⟩ := hy.live
  cases h with
  | op op hop hrun =>
    obtain ⟨new, hlaw⟩ := (hs.law hop hrun).2
    obtain ⟨identity', hy', ht, -⟩ := hlaw.held r hy.held
    obtain ⟨record', hl', hi'⟩ := hy'.live
    rw [hl] at hl'
    cases hl'
    rw [← hi, hi']
    exact ht
  | release roots hroots => exact ⟨hr, record, hl, hi⟩
  | collect hc => exact ⟨hr, record, (hc.shrunk.held r hy.held).trans hl, hi⟩

theorem Moves.yields_all {t : Memory} (h : Moves parseDecimal s t) (hs : Inv parseDecimal s)
    {rs : List Nat} {ids : List (Int × Int)} (hall : List.Forall₂ (Yields s) rs ids)
    (hroots : ∀ r ∈ rs, r ∈ t.heap.roots) : List.Forall₂ (Yields t) rs ids := by
  induction hall with
  | nil => exact .nil
  | cons hy _ ih =>
    exact .cons (h.yields hs hy (hroots _ List.mem_cons_self))
      (ih fun r hr => hroots r (List.mem_cons_of_mem _ hr))

/-- The records stay what they are. -/
theorem holding_yields {rs : List Nat} {t : Memory}
    (h : Relation.ReflTransGen (Holding parseDecimal rs) s t) (hs : Inv parseDecimal s)
    {ids : List (Int × Int)} (hall : List.Forall₂ (Yields s) rs ids) :
    Inv parseDecimal t ∧ List.Forall₂ (Yields t) rs ids := by
  induction h with
  | refl => exact ⟨hs, hall⟩
  | tail _ hm ih => exact ⟨hm.1.inv ih.1, hm.1.yields_all ih.1 ih.2 hm.2⟩

/-- Where a record of this identity is held, no other is yielded. -/
theorem Yields.eq {t : Memory} (ht : Inv parseDecimal t) {r r' : Nat} {identity : Int × Int}
    (hy : Yields t r identity) (hy' : Yields t r' identity) : r' = r := by
  obtain ⟨record, hl, hi⟩ := hy'.live
  exact hy.unique ht hl hi

end

/-! ## The list of the records -/

section
variable {parseDecimal : PyStr → Option PyStr} {decodeReplace : Bytes → PyStr}
  {schema : NativeSchema} {native : NativeResults} {identity : Nat → Int × Int} {s : Memory}

/-- A result set of an open realm. -/
def servingResults (decodeReplace : Bytes → PyStr) (schema : NativeSchema) (native : NativeResults)
    (results : Nat) : Memory → (c : Command) → Except Error (Answer c) → Memory → Prop :=
  serving results native.count (nativeGet decodeReplace schema native)

/-- Every record reads, and is that of this identity. -/
def ReadsAll (decodeReplace : Bytes → PyStr) (schema : NativeSchema) (native : NativeResults)
    (identity : Nat → Int × Int) : Prop :=
  ∀ p : Nat, p < native.count →
    ∃ raw, nativeGet decodeReplace schema native p = .ok raw ∧ Names raw (identity p)

theorem ReadsAll.surface_eq (h : ReadsAll decodeReplace schema native identity) {p : Nat}
    (hp : p < native.count) :
    surface (nativeGet decodeReplace schema native p) = .ok (identity p) := by
  obtain ⟨raw, hraw, hn⟩ := h p hp
  rw [hraw]
  exact (recordIdentity_eq_ok raw _).mpr hn

/-- `list(results)` returns. -/
theorem exists_list (h : ReadsAll decodeReplace schema native identity) (hs : Inv parseDecimal s)
    (results : Nat) : ∃ events t, Drives (servingResults decodeReplace schema native results) Eq
      advance s (some ⟨results, none⟩) events t none :=
  exists_drives (fun _ => rfl) (serving_serial _ _ _)
    (advance_keeps (answered_of_named h) (stopsAt_of_named h))
    ⟨Nat.zero_le _, Or.inr ⟨rfl, rfl⟩⟩ hs

/-- The list of the records that somebody holds. -/
structure Lists (native : NativeResults) (identity : Nat → Int × Int) (s : Memory) (rs : List Nat) :
    Prop where
  length : rs.length = native.count
  yields : ∀ p r, rs[p]? = some r → Yields s r (identity p)

theorem lists_of_forall₂ {rs : List Nat}
    (h : List.Forall₂ (Yields s) rs ((List.range native.count).map identity)) :
    Lists native identity s rs where
  length := by rw [h.length_eq, List.length_map, List.length_range]
  yields := by
    intro p r hr
    obtain ⟨hp, rfl⟩ := List.getElem?_eq_some_iff.mp hr
    have hlt : p < ((List.range native.count).map identity).length := h.length_eq ▸ hp
    have hy := h.get hp hlt
    rwa [List.get_eq_getElem, List.get_eq_getElem, List.getElem_map, List.getElem_range] at hy

theorem Lists.found {rs : List Nat} (h : Lists native identity s rs) {p : Nat}
    (hp : p < native.count) : ∃ r, rs[p]? = some r ∧ Yields s r (identity p) := by
  have hr : rs[p]? = some (rs.get ⟨p, h.length ▸ hp⟩) := List.getElem?_eq_getElem _
  exact ⟨_, hr, h.yields p _ hr⟩

/-- **`results[index]`** is `rs[index]`. -/
theorem getItem_lists (hn : native.count < 2 ^ 63)
    (hreads : ReadsAll decodeReplace schema native identity) (hs : Inv parseDecimal s)
    {rs : List Nat} (hl : Lists native identity s rs) (results : Nat) {index : Int}
    (hi : InInt64 index) :
    Returns (servingResults decodeReplace schema native results) s (getItem results index)
      ((listItem rs index).elim (.error .indexError) .ok) := by
  refine returns_of_wp (serving_serial _ _ _) ?_
  have hget := nativeGet_index decodeReplace schema native hn hi
  have hitem : listItem rs index = (indexPosition native.count index).bind fun p => rs[p]? := by
    rw [listItem, hl.length]
  refine wp_mono (wp_getItem hs index) ?_ ?_
  · rintro r t ⟨ht, id, hid, hy⟩
    rw [hitem]
    cases hp : indexPosition native.count index with
    | none =>
      rw [hget, hp] at hid
      cases hid
    | some p =>
      have hlt := indexPosition_lt hp
      rw [hget, hp, Option.elim_some, hreads.surface_eq hlt] at hid
      cases hid
      obtain ⟨r', hr, hy'⟩ := hl.found hlt
      rw [Option.bind_some, hr]
      exact congrArg Except.ok ((hy'.kept ht.kept).eq ht.inv hy)
  · rintro e t ⟨-, he⟩
    rw [hitem]
    cases hp : indexPosition native.count index with
    | none =>
      rw [hget, hp] at he
      cases he
      rfl
    | some p =>
      rw [hget, hp, Option.elim_some, hreads.surface_eq (indexPosition_lt hp)] at he
      cases he

/-- **`results[start:stop:step]`** is `rs[start:stop:step]`. -/
theorem getSlice_lists (hreads : ReadsAll decodeReplace schema native identity)
    (hs : Inv parseDecimal s) {rs : List Nat} (hl : Lists native identity s rs) (results : Nat)
    (start stop step : Option Int) :
    Returns (servingResults decodeReplace schema native results) s
      (getSlice results start stop step)
      ((listSlice rs start stop step).elim (.error .valueError) .ok) := by
  refine returns_of_wp (serving_serial _ _ _) ?_
  rw [getSlice, withNativeErrors, wp_tryCatch, wp_bind]
  refine wp_len hs fun t ht => ?_
  by_cases hstep : step = some 0
  · rw [hstep, sliceIndices_zero, listSlice, if_pos rfl]
    exact rfl
  · obtain ⟨bounds, hbounds, hrange⟩ := rangeItems_slice (n := native.count) hstep
    rw [hbounds, listSlice, if_neg hstep]
    show wp _ (readItems results (rangeItems bounds)) _ _ t
    rw [hrange]
    refine wp_mono (wp_readItems_named ht.inv _ fun p hp =>
      hreads.surface_eq (slicePositions_lt hp)) ?_ fun _ _ hno => hno.elim
    rintro rs' u ⟨⟨new, hu⟩, hall⟩
    rw [hl.length]
    -- each record read is the one in the list
    have hsame : ∀ {positions : List Nat} {rs' : List Nat},
        (∀ p ∈ positions, p < native.count) →
        List.Forall₂ (fun p r => Yields u r (identity p)) positions rs' →
        rs' = positions.filterMap fun p => rs[p]? := by
      intro positions rs' hlt hall
      induction hall with
      | nil => rfl
      | @cons p r positions rs' hy _ ih =>
        obtain ⟨r', hr, hy'⟩ := hl.found (hlt p List.mem_cons_self)
        rw [List.filterMap_cons_some hr, ((hy'.kept ht.kept).kept hu.kept).eq hu.inv hy,
          ih fun q hq => hlt q (List.mem_cons_of_mem _ hq)]
    exact congrArg Except.ok (hsame (fun p hp => slicePositions_lt hp) hall)

/-- **`Results` is the list of its records**: for every index of 64 bits and every
slice, at any later time at which the list is still held, whatever else was done
in between.  `len` has no answer from 2^63 on. -/
theorem results_like_list (hn : native.count < 2 ^ 63)
    (hreads : ReadsAll decodeReplace schema native identity) (hs : Reachable parseDecimal s)
    (results : Nat) :
    (∃ events t, Drives (servingResults decodeReplace schema native results) Eq advance s
      (some ⟨results, none⟩) events t none) ∧
    ∀ events t, Drives (servingResults decodeReplace schema native results) Eq advance s
        (some ⟨results, none⟩) events t none →
      List.Forall₂ (Yields t) (recordsOf events) ((List.range native.count).map identity) ∧
      ∀ u, Relation.ReflTransGen (Holding parseDecimal (recordsOf events)) t u →
        (∀ index, InInt64 index →
          Returns (servingResults decodeReplace schema native results) u (getItem results index)
              ((listItem (recordsOf events) index).elim (.error .indexError) .ok) ∧
            (index < 0 → InInt64 ((native.count : Int) + index))) ∧
        ∀ start stop step,
          Returns (servingResults decodeReplace schema native results) u
              (getSlice results start stop step)
              ((listSlice (recordsOf events) start stop step).elim (.error .valueError) .ok) ∧
            ∀ p ∈ slicePositions native.count start stop (step.getD 1), InInt64 p := by
  have hinv := reachable_inv hs
  refine ⟨exists_list hreads hinv results, ?_⟩
  intro events t h
  obtain ⟨⟨new, ht⟩, hall⟩ := drives_lists h hreads ⟨Nat.zero_le _, Or.inr ⟨rfl, rfl⟩⟩ rfl hinv
  rw [Nat.sub_zero, ← List.range_eq_range'] at hall
  have hyields : List.Forall₂ (Yields t) (recordsOf events)
      ((List.range native.count).map identity) :=
    List.forall₂_map_right_iff.mpr hall.flip
  refine ⟨hyields, fun u hu => ?_⟩
  obtain ⟨hinv', hheld⟩ := holding_yields hu ht.inv hyields
  have hlists := lists_of_forall₂ hheld
  constructor
  · intro index hi
    exact ⟨getItem_lists hn hreads hinv' hlists results hi, fun hneg =>
      ⟨by have hlow := hi.1; omega, by omega⟩⟩
  · intro start stop step
    refine ⟨getSlice_lists hreads hinv' hlists results start stop step, fun p hp => ?_⟩
    have hlt := slicePositions_lt hp
    exact ⟨by omega, by omega⟩

end

/-- The objects 0 and 1 of table 5. -/
def twoNodes : NativeResults where
  results := ⟨.ok 2, fun p => .ok ⟨5, ⟨p, fun _ => .ok .null, fun _ => .ok [], fun _ => .ok [],
    fun _ => .ok []⟩⟩⟩
  count := 2

def nodeSchema : NativeSchema := loadSchema [⟨[], [], 5, false, false, []⟩]

theorem results_like_list_two : ∃ events t,
    Drives (servingResults (fun _ => []) nodeSchema twoNodes 0) Eq advance Memory.initial
      (some ⟨0, none⟩) events t none ∧
    List.Forall₂ (Yields t) (recordsOf events) [(5, 0), (5, 1)] ∧
    Returns (servingResults (fun _ => []) nodeSchema twoNodes 0) t (getItem 0 (-1))
      ((listItem (recordsOf events) (-1)).elim (.error .indexError) .ok) := by
  have hreads : ReadsAll (fun _ => []) nodeSchema twoNodes fun p => (5, (p : Int)) := by
    intro p hp
    have hlt : p < 2 := hp
    have hi : InInt64 p := ⟨by omega, by omega⟩
    have hpos : indexPosition twoNodes.count p = some p := by
      rw [indexPosition, if_pos ⟨by omega, by omega⟩, Int.toNat_natCast]
    refine ⟨(Dict.empty.set TABLE_KEY (.int 5)).set OBJECT_KEY (.int p), ?_, rfl, rfl⟩
    rw [nativeGet, object_index twoNodes hi, hpos]
    rfl
  have hs : Reachable (fun _ => none) Memory.initial := .refl
  obtain ⟨⟨events, t, h⟩, hlist⟩ := results_like_list (by decide) hreads hs 0
  obtain ⟨hyields, hlater⟩ := hlist events t h
  have hindex : InInt64 (-1) := ⟨by decide, by decide⟩
  exact ⟨events, t, h, hyields, ((hlater t .refl).1 (-1) hindex).1⟩

end Pyrealm.Reader
