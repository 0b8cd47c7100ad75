import Mathlib.Data.List.Range
import Mathlib.Order.Bounds.Defs
import Pyrealm.Forensics.Header

/-!
# `_scan_array_candidates`

The search loop jumps from one occurrence of the signature to the next and
keeps the occurrences that pass alignment, sizing and file bounds.

    scanArrayCandidates data = .ok (scanned data)       (scanArrayCandidates_eq)

where `scanned data` lists, in offset order, the offsets that hold an array
(`arrayAt`, `IsArray`).  Whether an array sits at `o`, and which, depends only
on the bytes it covers: `IsArray.agree`; in a prefix, `isArray_take`.
`scan_candidates_exact` says the same against the format: sizes as least
multiples of 8, and header bytes that the fields encode back to.
-/

namespace Pyrealm

open Py

/-! ## Algorithm -/

/-- `n & ~7` -/
def clearLow3 (n : Nat) : Nat := n - (n &&& 7)

/-- `(byte_size, payload_size, width)`, or `none` for the reserved scheme. -/
def arraySize (flags elementCount : Nat) : Except Exc (Option (Nat × Nat × Nat)) := do
  let widthScheme := (flags >>> 3) &&& 0x03
  let width ← tupleItem WIDTHS (flags &&& 0x07)
  let payloadSize? :=
    if widthScheme = 0 then some ((elementCount * width + 7) / 8)
    else if widthScheme = 1 then some (elementCount * width)
    else if widthScheme = 2 then some elementCount
    else none
  match payloadSize? with
  | none => .ok none
  | some payloadSize =>
    let payloadSize := clearLow3 (payloadSize + 7)
    .ok (some (ARRAY_HEADER_SIZE + payloadSize, payloadSize, width))

/-- The `ArrayNode(...)` of a candidate. -/
def makeNode (offset flags elementCount byteSize payloadSize width : Nat) : ArrayNode where
  offset := offset
  byteSize := byteSize
  payloadSize := payloadSize
  elementCount := elementCount
  width := width
  widthScheme := (flags >>> 3) &&& 0x03
  hasRefs := flags &&& 0x40 != 0
  innerBptree := flags &&& 0x80 != 0
  contextFlag := flags &&& 0x20 != 0
  childRefs := []
  reachability := .orphan

/-- The loop body: a signature was found at `offset`. -/
def scanCandidate (sl : Slicer) (data : Bytes) (offset : Nat) (candidates : Dict Nat ArrayNode) :
    Except Exc (Dict Nat ArrayNode) :=
  if offset % 8 = 0 ∧ offset + ARRAY_HEADER_SIZE ≤ data.length then do
    let flags ← index data (offset + 4)
    let count ← sl data (offset + 5) (offset + 8)
    let elementCount := fromBig count
    let sizing ← arraySize flags elementCount
    match sizing with
    | none => .ok candidates
    | some (byteSize, payloadSize, width) =>
      if byteSize ≥ ARRAY_HEADER_SIZE ∧ offset + byteSize ≤ data.length then
        .ok (candidates.set offset
          (makeNode offset flags elementCount byteSize payloadSize width))
      else .ok candidates
  else .ok candidates

/-- `while offset != -1` -/
def scanLoop (sl : Slicer) (data : Bytes) :
    Nat → Option Nat → Dict Nat ArrayNode → Except Exc (Dict Nat ArrayNode)
  | _, none, candidates => .ok candidates
  | 0, some _, _ => .error .outOfFuel
  | fuel + 1, some offset, candidates => do
    let candidates ← scanCandidate sl data offset candidates
    scanLoop sl data fuel (find data ARRAY_SIGNATURE (offset + 1)) candidates

/-- `_scan_array_candidates`, with the way slices are taken as a parameter. -/
def scanArrayCandidatesVia (sl : Slicer) (data : Bytes) : Except Exc (Dict Nat ArrayNode) :=
  scanLoop sl data data.length (find data ARRAY_SIGNATURE FILE_HEADER_SIZE) Dict.empty

def scanArrayCandidates (data : Bytes) : Except Exc (Dict Nat ArrayNode) :=
  scanArrayCandidatesVia clampSlice data

/-! ## Sizes -/

/-- Bytes the elements take, before rounding; `none` for the reserved scheme. -/
def contentSize (widthScheme width elementCount : Nat) : Option Nat :=
  if widthScheme = 0 then some ((elementCount * width + 7) / 8)
  else if widthScheme = 1 then some (elementCount * width)
  else if widthScheme = 2 then some elementCount
  else none

/-- `n` rounded up to a multiple of 8. -/
def roundUp8 (n : Nat) : Nat := (n + 7) / 8 * 8

theorem clearLow3_add_seven (n : Nat) : clearLow3 (n + 7) = roundUp8 n := by
  have h : (n + 7) &&& 7 = (n + 7) % 8 := Nat.and_two_pow_sub_one_eq_mod _ 3
  rw [clearLow3, h, roundUp8]
  omega

theorem le_roundUp8 (n : Nat) : n ≤ roundUp8 n := by
  unfold roundUp8
  omega

def widthOf (flags : Nat) : Nat := WIDTHS.getD (flags % 8) 0
def schemeOf (flags : Nat) : Nat := flags / 8 % 4

theorem scheme_eq (flags : Nat) : (flags >>> 3) &&& 0x03 = schemeOf flags := by
  have h : (flags >>> 3) &&& 0x03 = (flags >>> 3) % 4 := Nat.and_two_pow_sub_one_eq_mod _ 2
  rw [h, Nat.shiftRight_eq_div_pow]
  rfl

theorem arraySize_eq (flags elementCount : Nat) :
    arraySize flags elementCount = .ok ((contentSize (schemeOf flags) (widthOf flags) elementCount).map
      fun n => (8 + roundUp8 n, roundUp8 n, widthOf flags)) := by
  have hlow : flags &&& 0x07 = flags % 8 := Nat.and_two_pow_sub_one_eq_mod _ 3
  have hw : tupleItem WIDTHS (flags % 8) = .ok (widthOf flags) := by
    have hlt : flags % 8 < WIDTHS.length := Nat.mod_lt _ (by decide)
    rw [tupleItem, widthOf, List.getD_eq_getElem?_getD, List.getElem?_eq_getElem hlt]
    rfl
  rw [arraySize, hlow, hw, scheme_eq]
  simp only [ok_bind]
  show (match contentSize (schemeOf flags) (widthOf flags) elementCount with
    | none => _ | some payloadSize => _) = _
  cases contentSize (schemeOf flags) (widthOf flags) elementCount with
  | none => rfl
  | some n => simp only [clearLow3_add_seven, ARRAY_HEADER_SIZE, Option.map_some]

/-! ## Arrays of a file -/

def flagsAt (data : Bytes) (o : Nat) : Nat := byteAt data (o + 4)
/-- The 24-bit big-endian element count. -/
def countAt (data : Bytes) (o : Nat) : Nat := fromBig (slice data (o + 5) (o + 8))

/-- The array at `o`, if its eight header bytes describe one that fits in the data. -/
def arrayAt (data : Bytes) (o : Nat) : Option ArrayNode :=
  if 24 ≤ o ∧ o % 8 = 0 ∧ slice data o (o + 4) = ARRAY_SIGNATURE ∧ o + 8 ≤ data.length then
    match contentSize (schemeOf (flagsAt data o)) (widthOf (flagsAt data o)) (countAt data o) with
    | none => none
    | some n =>
      if o + (8 + roundUp8 n) ≤ data.length then
        some (makeNode o (flagsAt data o) (countAt data o) (8 + roundUp8 n) (roundUp8 n)
          (widthOf (flagsAt data o)))
      else none
  else none

/-- An array of the file: `node` at `o`, as the scanner reports it. -/
structure IsArray (data : Bytes) (o : Nat) (node : ArrayNode) : Prop where
  ge : 24 ≤ o
  aligned : o % 8 = 0
  signature : slice data o (o + 4) = ARRAY_SIGNATURE
  size : ∃ n, contentSize (schemeOf (flagsAt data o)) (widthOf (flagsAt data o)) (countAt data o)
    = some n ∧ node = makeNode o (flagsAt data o) (countAt data o) (8 + roundUp8 n) (roundUp8 n)
      (widthOf (flagsAt data o))
  bound : o + node.byteSize ≤ data.length

theorem arrayAt_eq_some_iff (data : Bytes) (o : Nat) (node : ArrayNode) :
    arrayAt data o = some node ↔ IsArray data o node := by
  unfold arrayAt
  constructor
  · intro h
    split at h
    · next hc =>
      split at h
      · cases h
      · next n hn =>
        split at h
        · next hb =>
          cases h
          exact ⟨hc.1, hc.2.1, hc.2.2.1, ⟨n, hn, rfl⟩, hb⟩
        · cases h
    · cases h
  · rintro ⟨h1, h2, h3, ⟨n, hn, rfl⟩, hb⟩
    have hb' : o + (8 + roundUp8 n) ≤ data.length := hb
    rw [if_pos ⟨h1, h2, h3, by omega⟩, hn]
    exact if_pos hb'

section
variable {data : Bytes} {o : Nat} {node : ArrayNode} (h : IsArray data o node)
include h

theorem IsArray.offset_eq : node.offset = o := by
  obtain ⟨n, -, rfl⟩ := h.size
  rfl

theorem IsArray.byteSize_eq : node.byteSize = 8 + node.payloadSize := by
  obtain ⟨n, -, rfl⟩ := h.size
  rfl

theorem IsArray.width_mem : node.width ∈ WIDTHS := by
  obtain ⟨n, -, rfl⟩ := h.size
  show WIDTHS.getD (flagsAt data o % 8) 0 ∈ WIDTHS
  have hlt : flagsAt data o % 8 < WIDTHS.length := Nat.mod_lt _ (by decide)
  rw [List.getD_eq_getElem?_getD, List.getElem?_eq_getElem hlt]
  exact List.getElem_mem hlt

/-- The payload of a bit-packed array holds all its elements. -/
theorem IsArray.elements_le (hs : node.widthScheme = 0) :
    node.elementCount * node.width ≤ 8 * node.payloadSize := by
  obtain ⟨n, hn, rfl⟩ := h.size
  have hs' : schemeOf (flagsAt data o) = 0 := (scheme_eq _).symm.trans hs
  rw [hs', contentSize, if_pos rfl, Option.some.injEq] at hn
  have hle := le_roundUp8 n
  simp only [makeNode]
  omega

end

/-! ## Locality -/

/-- **An array depends only on the bytes it covers.** -/
theorem IsArray.agree {data data' : Bytes} {o : Nat} {node : ArrayNode} (h : IsArray data o node)
    (ha : Agree data data' o (o + node.byteSize)) : IsArray data' o node := by
  have hb := h.byteSize_eq
  have hf : flagsAt data' o = flagsAt data o := ha.byteAt (by omega) (by omega)
  have hc : countAt data' o = countAt data o := by
    rw [countAt, ha.slice (by omega) (by omega), countAt]
  refine ⟨h.ge, h.aligned, ?_, ?_, ha.le⟩
  · rw [ha.slice (by omega) (by omega), h.signature]
  · rw [hf, hc]
    exact h.size

theorem isArray_take (data : Bytes) (n o : Nat) (node : ArrayNode) (hn : n ≤ data.length) :
    IsArray (data.take n) o node ↔ IsArray data o node ∧ o + node.byteSize ≤ n := by
  have hlen : (data.take n).length = n := by rw [List.length_take, Nat.min_eq_left hn]
  constructor
  · intro h
    have hb : o + node.byteSize ≤ n := hlen ▸ h.bound
    refine ⟨h.agree ⟨by omega, ?_⟩, hb⟩
    rw [slice_take data n _ _ hb]
  · rintro ⟨h, hb⟩
    exact h.agree (agree_take data n _ _ hb hn)

/-! ## The scanner -/

def arrayItem (data : Bytes) (o : Nat) : Option (Nat × ArrayNode) :=
  (arrayAt data o).map fun node => (o, node)

/-- The arrays at offsets below `m`, in offset order. -/
def arraysBelow (data : Bytes) (m : Nat) : List (Nat × ArrayNode) :=
  (List.range m).filterMap (arrayItem data)

theorem mem_arraysBelow (data : Bytes) (m : Nat) (e : Nat × ArrayNode) :
    e ∈ arraysBelow data m ↔ e.1 < m ∧ IsArray data e.1 e.2 := by
  obtain ⟨o, node⟩ := e
  simp only [arraysBelow, arrayItem, List.mem_filterMap, List.mem_range, Option.map_eq_some_iff,
    Prod.mk.injEq, arrayAt_eq_some_iff]
  constructor
  · rintro ⟨p, hp, node', hn, rfl, rfl⟩
    exact ⟨hp, hn⟩
  · rintro ⟨hp, hn⟩
    exact ⟨o, hp, node, hn, rfl, rfl⟩

theorem arraysBelow_succ (data : Bytes) (m : Nat) :
    arraysBelow data (m + 1) = arraysBelow data m ++ (arrayItem data m).toList := by
  rw [arraysBelow, List.range_succ, List.filterMap_append, arraysBelow, List.filterMap_cons,
    List.filterMap_nil]
  cases arrayItem data m <;> rfl

theorem arraysBelow_pairwise (data : Bytes) (m : Nat) :
    (arraysBelow data m).Pairwise fun a b => a.1 < b.1 := by
  induction m with
  | zero => exact List.Pairwise.nil
  | succ m ih =>
    rw [arraysBelow_succ, List.pairwise_append]
    refine ⟨ih, ?_, ?_⟩
    · cases arrayItem data m <;> simp
    · intro a ha b hb
      have hlt := ((mem_arraysBelow data m a).mp ha).1
      rw [Option.mem_toList, arrayItem, Option.map_eq_some_iff] at hb
      obtain ⟨node, -, rfl⟩ := hb
      exact hlt

theorem arraysBelow_keys_nodup (data : Bytes) (m : Nat) :
    ((arraysBelow data m).map Prod.fst).Nodup := by
  rw [List.Nodup, List.pairwise_map]
  exact (arraysBelow_pairwise data m).imp fun h => Nat.ne_of_lt h

/-- No array starts in `[m, m')`. -/
theorem arraysBelow_eq (data : Bytes) (m m' : Nat) (hle : m ≤ m')
    (h : ∀ j, m ≤ j → j < m' → arrayAt data j = none) : arraysBelow data m' = arraysBelow data m := by
  induction m', hle using Nat.le_induction with
  | base => rfl
  | succ k hk ih =>
    rw [arraysBelow_succ, ih (fun j h1 h2 => h j h1 (by omega)), arrayItem, h k hk (by omega)]
    simp

theorem arrayAt_eq_none_of_signature (data : Bytes) (j : Nat)
    (h : slice data j (j + 4) ≠ ARRAY_SIGNATURE) : arrayAt data j = none := by
  rw [arrayAt, if_neg (fun hc => h hc.2.2.1)]

theorem arrayAt_eq_none_of_ge (data : Bytes) (j : Nat) (h : data.length ≤ j) :
    arrayAt data j = none := by
  rw [arrayAt, if_neg (by omega)]

/-- The candidates of a file: its arrays, in offset order. -/
def scanned (data : Bytes) : Dict Nat ArrayNode where
  items := arraysBelow data data.length
  nodup := arraysBelow_keys_nodup data data.length

theorem scanned_get? (data : Bytes) (o : Nat) (node : ArrayNode) :
    (scanned data).get? o = some node ↔ IsArray data o node := by
  rw [Dict.get?_eq_some_iff]
  show (o, node) ∈ arraysBelow data data.length ↔ _
  rw [mem_arraysBelow]
  constructor
  · exact And.right
  · intro h
    have hb := h.bound
    have hs := h.byteSize_eq
    exact ⟨by simp only; omega, h⟩

theorem mem_scanned_items (data : Bytes) (e : Nat × ArrayNode) :
    e ∈ (scanned data).items ↔ IsArray data e.1 e.2 := by
  rw [← scanned_get?, Dict.get?_eq_some_iff]

theorem mem_scanned (data : Bytes) (o : Nat) : o ∈ scanned data ↔ ∃ node, IsArray data o node := by
  simp only [Dict.mem_iff_get?, scanned_get?]

section
variable (sl : Slicer) (hsl : ExactInside sl)
include hsl

theorem scanCandidate_eq (data : Bytes) (o : Nat) (c : Dict Nat ArrayNode) (h24 : 24 ≤ o)
    (hsig : slice data o (o + 4) = ARRAY_SIGNATURE) :
    scanCandidate sl data o c = .ok (match arrayAt data o with
      | none => c
      | some node => c.set o node) := by
  simp only [scanCandidate, arrayAt, ARRAY_HEADER_SIZE]
  by_cases hc : o % 8 = 0 ∧ o + 8 ≤ data.length
  · rw [if_pos hc, if_pos ⟨h24, hc.1, hsig, hc.2⟩, index_eq_byteAt data (o + 4) (by omega),
      hsl data (o + 5) (o + 8) (by omega)]
    have hflags : byteAt data (o + 4) = flagsAt data o := rfl
    have hcount : fromBig (slice data (o + 5) (o + 8)) = countAt data o := rfl
    simp only [ok_bind, arraySize_eq, hflags, hcount]
    cases contentSize (schemeOf (flagsAt data o)) (widthOf (flagsAt data o)) (countAt data o) with
    | none => rfl
    | some n =>
      simp only [Option.map_some]
      by_cases hb : o + (8 + roundUp8 n) ≤ data.length
      · rw [if_pos ⟨by omega, hb⟩, if_pos hb]
      · rw [if_neg (fun h => hb h.2), if_neg hb]
  · rw [if_neg hc, if_neg (fun h => hc ⟨h.2.1, h.2.2.2⟩)]

theorem scanLoop_eq (data : Bytes) : ∀ (fuel m : Nat) (c : Dict Nat ArrayNode),
    data.length - m ≤ fuel → 24 ≤ m → c.items = arraysBelow data m →
      scanLoop sl data fuel (find data ARRAY_SIGNATURE m) c = .ok (scanned data) := by
  intro fuel
  induction fuel with
  | zero =>
    intro m c hf _ hc
    have hnone : find data ARRAY_SIGNATURE m = none := by
      rw [find_eq_none_iff]
      intro j h1 h2
      omega
    rw [hnone, scanLoop]
    congr 1
    apply Dict.ext_items
    rw [hc]
    exact arraysBelow_eq data _ _ (by omega) fun j h1 _ => arrayAt_eq_none_of_ge data j (by omega)
  | succ fuel ih =>
    intro m c hf h24 hc
    cases hfind : find data ARRAY_SIGNATURE m with
    | none =>
      rw [scanLoop]
      congr 1
      apply Dict.ext_items
      rw [hc]
      rw [find_eq_none_iff] at hfind
      rcases Nat.le_total m data.length with hm | hm
      · exact (arraysBelow_eq data _ _ hm fun j h1 h2 =>
          arrayAt_eq_none_of_signature data j (hfind j h1 h2)).symm
      · exact arraysBelow_eq data _ _ hm fun j h1 _ => arrayAt_eq_none_of_ge data j h1
    | some o =>
      obtain ⟨hmo, hlen, hsig, hbefore⟩ := (find_eq_some_iff _ _ _ _).mp hfind
      rw [scanLoop, scanCandidate_eq sl hsl data o c (by omega) hsig, ok_bind]
      -- between `m` and the hit at `o` there is no signature, hence no array
      have hskip : arraysBelow data o = arraysBelow data m := arraysBelow_eq data _ _ hmo
        fun j h1 h2 => arrayAt_eq_none_of_signature data j (hbefore j h1 h2)
      apply ih (o + 1) _ (by omega) (by omega)
      rw [arraysBelow_succ, hskip, ← hc, arrayItem]
      cases hat : arrayAt data o with
      | none => simp
      | some node =>
        have hnew : o ∉ c := by
          rw [Dict.mem_def, Dict.keys, hc, ← hskip, List.mem_map]
          rintro ⟨e, he, rfl⟩
          exact Nat.lt_irrefl _ ((mem_arraysBelow data _ e).mp he).1
        simp [Dict.items_set_of_not_mem c o node hnew]

/-- **Soundness and completeness of the scanner**, however its slices are audited. -/
theorem scanArrayCandidatesVia_eq (data : Bytes) :
    scanArrayCandidatesVia sl data = .ok (scanned data) := by
  apply scanLoop_eq sl hsl data _ 24 _ (by omega) (Nat.le_refl _)
  have hnil : arraysBelow data 24 = arraysBelow data 0 := arraysBelow_eq data _ _ (by omega) (by
    intro j _ h2
    rw [arrayAt, if_neg (by omega)])
  rw [hnil]
  rfl

end

theorem scanArrayCandidates_eq (data : Bytes) : scanArrayCandidates data = .ok (scanned data) :=
  scanArrayCandidatesVia_eq clampSlice exactInside_clampSlice data

/-! ## Against the format -/

/-- Bits the elements of an array take, in the schemes 0, 1 and 2. -/
def contentBits (widthScheme width elementCount : Nat) : Nat :=
  if widthScheme = 0 then elementCount * width
  else if widthScheme = 1 then 8 * (elementCount * width)
  else 8 * elementCount

/-- An array header at `o` whose payload of `P` bytes ends within the data. -/
structure CandidateAt (data : Bytes) (o P : Nat) : Prop where
  ge : 24 ≤ o
  aligned : 8 ∣ o
  header : o + 8 ≤ data.length
  signature : slice data o (o + 4) = ARRAY_SIGNATURE
  scheme : schemeOf (flagsAt data o) ≠ 3
  payload : IsLeast {n | 8 ∣ n ∧ contentBits (schemeOf (flagsAt data o)) (widthOf (flagsAt data o))
    (countAt data o) ≤ 8 * n} P
  bound : o + 8 + P ≤ data.length

/-- The flags byte: width, scheme, `contextFlag`, `hasRefs`, `innerBptree`.
`none` for a width or a scheme that its bits cannot hold. -/
def encodeFlags (node : ArrayNode) : Option Nat :=
  if node.width ∈ WIDTHS ∧ node.widthScheme < 4 then
    some (WIDTHS.idxOf node.width + 8 * node.widthScheme + (if node.contextFlag then 0x20 else 0) +
      (if node.hasRefs then 0x40 else 0) + (if node.innerBptree then 0x80 else 0))
  else none

/-- The eight header bytes of an array, from its fields; `none` where a field does not fit. -/
def encodeHeader (node : ArrayNode) : Option Bytes :=
  match encodeFlags node with
  | none => none
  | some flags =>
    if node.elementCount < 2 ^ 24 then
      some (ARRAY_SIGNATURE ++ [UInt8.ofNat flags, UInt8.ofNat (node.elementCount / 65536),
        UInt8.ofNat (node.elementCount / 256), UInt8.ofNat node.elementCount])
    else none

/-- Rounding up finds the least multiple of 8. -/
theorem isLeast_roundUp8 {bits n : Nat} (h : ∀ k, bits ≤ 8 * k ↔ n ≤ k) :
    IsLeast {k | 8 ∣ k ∧ bits ≤ 8 * k} (roundUp8 n) := by
  refine ⟨⟨Nat.dvd_mul_left 8 _, (h _).mpr (le_roundUp8 n)⟩, ?_⟩
  rintro k ⟨hk, hb⟩
  have hn := (h k).mp hb
  unfold roundUp8
  omega

theorem contentSize_eq (widthScheme width elementCount : Nat) (hs : widthScheme < 3) :
    ∃ n, contentSize widthScheme width elementCount = some n ∧
      ∀ k, contentBits widthScheme width elementCount ≤ 8 * k ↔ n ≤ k := by
  unfold contentSize contentBits
  by_cases h0 : widthScheme = 0
  · rw [if_pos h0, if_pos h0]
    exact ⟨_, rfl, fun k => by omega⟩
  · by_cases h1 : widthScheme = 1
    · rw [if_neg h0, if_neg h0, if_pos h1, if_pos h1]
      exact ⟨_, rfl, fun k => by omega⟩
    · rw [if_neg h0, if_neg h0, if_neg h1, if_neg h1, if_pos (by omega)]
      exact ⟨_, rfl, fun k => by omega⟩

/-- The arrays of the scanner are the candidates of the format, with their sizes. -/
theorem isArray_iff_candidateAt (data : Bytes) (o : Nat) (node : ArrayNode) :
    IsArray data o node ↔ CandidateAt data o node.payloadSize ∧
      node = makeNode o (flagsAt data o) (countAt data o) (8 + node.payloadSize) node.payloadSize
        (widthOf (flagsAt data o)) := by
  have hlt : schemeOf (flagsAt data o) < 4 := Nat.mod_lt _ (by decide)
  constructor
  · intro h
    have hb := h.bound
    have hsize := h.byteSize_eq
    obtain ⟨n, hn, hnode⟩ := h.size
    have h3 : schemeOf (flagsAt data o) ≠ 3 := by
      intro h3
      rw [h3] at hn
      cases hn
    obtain ⟨n', hn', hbits⟩ := contentSize_eq _ (widthOf (flagsAt data o)) (countAt data o)
      (show schemeOf (flagsAt data o) < 3 by omega)
    rw [hn, Option.some.injEq] at hn'
    have hP : node.payloadSize = roundUp8 n := by
      rw [hnode]
      rfl
    refine ⟨⟨h.ge, Nat.dvd_of_mod_eq_zero h.aligned, by omega, h.signature, h3, ?_, by omega⟩, ?_⟩
    · rw [hP, hn']
      exact isLeast_roundUp8 hbits
    · rw [hP]
      exact hnode
  · rintro ⟨h, hnode⟩
    have h3 := h.scheme
    obtain ⟨n, hn, hbits⟩ := contentSize_eq _ (widthOf (flagsAt data o)) (countAt data o)
      (show schemeOf (flagsAt data o) < 3 by omega)
    have hleast := isLeast_roundUp8 hbits
    have hP : node.payloadSize = roundUp8 n :=
      Nat.le_antisymm (h.payload.2 hleast.1) (hleast.2 h.payload.1)
    have hbyte : node.byteSize = 8 + node.payloadSize := by
      conv => lhs; rw [hnode]
      rfl
    refine ⟨h.ge, Nat.mod_eq_zero_of_dvd h.aligned, h.signature, ⟨n, hn, hP ▸ hnode⟩, ?_⟩
    rw [hbyte, ← Nat.add_assoc]
    exact h.bound

/-- The flags byte is the sum of its parts. -/
theorem encodeFlags_all : ∀ flags, flags < 256 →
    encodeFlags (makeNode 0 flags 0 0 0 (widthOf flags)) = some flags := by
  decide +kernel

theorem fromBig_three (a b c : UInt8) :
    fromBig [a, b, c] = (a.toNat * 256 + b.toNat) * 256 + c.toNat := by
  simp [fromBig]

/-- The three bytes of a count. -/
theorem bytes_of_fromBig (bs : Bytes) (h : bs.length = 3) :
    [UInt8.ofNat (fromBig bs / 65536), UInt8.ofNat (fromBig bs / 256), UInt8.ofNat (fromBig bs)] = bs := by
  obtain ⟨a, b, c, rfl⟩ := List.length_eq_three.mp h
  have ha := a.toNat_lt
  have hb := b.toNat_lt
  have hc := c.toNat_lt
  simp only [List.cons.injEq, and_true, ← UInt8.toNat_inj, UInt8.toNat_ofNat', fromBig_three]
  omega

/-- A count of three bytes is below `2 ^ 24`. -/
theorem fromBig_lt (bs : Bytes) (h : bs.length = 3) : fromBig bs < 2 ^ 24 := by
  obtain ⟨a, b, c, rfl⟩ := List.length_eq_three.mp h
  have ha := a.toNat_lt
  have hb := b.toNat_lt
  have hc := c.toNat_lt
  rw [fromBig_three]
  omega

section
variable {data : Bytes} {o : Nat} {node : ArrayNode} (h : IsArray data o node)
include h

/-- The array is the one its header bytes describe. -/
theorem IsArray.eq_makeNode : node = makeNode o (flagsAt data o) (countAt data o)
    (8 + node.payloadSize) node.payloadSize (widthOf (flagsAt data o)) :=
  ((isArray_iff_candidateAt data o node).mp h).2

theorem IsArray.elementCount_eq : node.elementCount = countAt data o := by
  rw [h.eq_makeNode]
  rfl

theorem IsArray.width_eq : node.width = widthOf (flagsAt data o) := by
  rw [h.eq_makeNode]
  rfl

theorem IsArray.widthScheme_eq : node.widthScheme = schemeOf (flagsAt data o) := by
  rw [h.eq_makeNode]
  exact scheme_eq _

/-- **The fields of an array encode back to its header bytes.** -/
theorem IsArray.encodeHeader_eq : encodeHeader node = some (slice data o (o + 8)) := by
  have hb := h.bound
  have hsize := h.byteSize_eq
  have hflags : encodeFlags node = some (flagsAt data o) := by
    rw [h.eq_makeNode]
    exact encodeFlags_all (flagsAt data o) (UInt8.toNat_lt _)
  have hthree : (slice data (o + 5) (o + 8)).length = 3 := by
    rw [length_slice_of_le _ _ _ (by omega)]
    omega
  have hone : slice data (o + 4) (o + 5) = [UInt8.ofNat (flagsAt data o)] := by
    apply List.ext_getElem?
    intro k
    rw [getElem?_slice]
    cases k with
    | zero =>
      have hlt : o + 4 < data.length := by omega
      rw [if_pos (by omega), Nat.add_zero, flagsAt, byteAt, List.getD_eq_getElem?_getD,
        UInt8.ofNat_toNat, List.getElem?_eq_getElem hlt]
      rfl
    | succ k =>
      rw [if_neg (by omega)]
      rfl
  -- the count has three bytes, so the encoder does not refuse it
  simp only [encodeHeader, hflags, h.elementCount_eq, countAt, if_pos (fromBig_lt _ hthree)]
  rw [← slice_append data o (o + 4) (o + 8) (by omega) (by omega), h.signature,
    ← slice_append data (o + 4) (o + 5) (o + 8) (by omega) (by omega), hone, List.singleton_append,
    bytes_of_fromBig _ hthree]

end

/-- **The scanner finds exactly the candidates of the format**, with their sizes
and fields, and its loop ends. -/
theorem scan_candidates_exact (data : Bytes) :
    ∃ candidates, scanArrayCandidates data = .ok candidates ∧
      (∀ o, o ∈ candidates ↔ ∃ P, CandidateAt data o P) ∧
      ∀ o node, candidates.get? o = some node → node.offset = o ∧
        CandidateAt data o node.payloadSize ∧ node.byteSize = 8 + node.payloadSize ∧
        node.elementCount = countAt data o ∧ node.width = widthOf (flagsAt data o) ∧
        node.widthScheme = schemeOf (flagsAt data o) ∧
        encodeHeader node = some (slice data o (o + 8)) := by
  refine ⟨scanned data, scanArrayCandidates_eq data, fun o => ?_, fun o node hg => ?_⟩
  · rw [mem_scanned]
    constructor
    · rintro ⟨node, h⟩
      exact ⟨_, ((isArray_iff_candidateAt data o node).mp h).1⟩
    · rintro ⟨P, h⟩
      exact ⟨_, (isArray_iff_candidateAt data o (makeNode o (flagsAt data o) (countAt data o) (8 + P) P
        (widthOf (flagsAt data o)))).mpr ⟨h, rfl⟩⟩
  · have h := (scanned_get? data o node).mp hg
    exact ⟨h.offset_eq, ((isArray_iff_candidateAt data o node).mp h).1, h.byteSize_eq,
      h.elementCount_eq, h.width_eq, h.widthScheme_eq, h.encodeHeader_eq⟩

end Pyrealm
