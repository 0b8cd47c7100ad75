import Pyrealm.Forensics.Scan

/-!
# `_add_references`

    addReferences data (scanned data) = .ok (linked data)       (addReferences_eq)

where `linked data` is `scanned data` with the child references filled in.
The code decodes widths 8 to 64 only and drops odd and null values; the edges
of the format are the elements of a reference array, of whatever width, that
are offsets of arrays (`ChildRef`).  `childRefsOf_eq`: the code finds all of
them and nothing else (`add_references_exact`).
-/

namespace Pyrealm

open Py

/-! ## Algorithm -/

/-- `value and value & 1 == 0 and value in nodes` -/
def keepRef (nodes : Dict Nat ArrayNode) (value : Nat) : Bool :=
  decide (value ≠ 0 ∧ value &&& 1 = 0 ∧ value ∈ nodes)

/-- The references of one array, in element order. -/
def decodeRefs (sl : Slicer) (data : Bytes) (nodes : Dict Nat ArrayNode) (offset : Nat)
    (node : ArrayNode) : Except Exc (List Nat) :=
  if node.hasRefs = true ∧ node.width ∈ [8, 16, 32, 64] ∧ node.widthScheme = 0 then
    let payloadStart := offset + ARRAY_HEADER_SIZE
    let elementSize := node.width / 8
    (List.range node.elementCount).foldlM (fun refs index => do
      let start := payloadStart + index * elementSize
      let bytes ← sl data start (start + elementSize)
      let value := fromLittle bytes
      if keepRef nodes value then .ok (refs ++ [value]) else .ok refs) []
  else .ok []

/-- `_add_references`, with the way slices are taken as a parameter. -/
def addReferencesVia (sl : Slicer) (data : Bytes) (nodes : Dict Nat ArrayNode) :
    Except Exc (Dict Nat ArrayNode) :=
  nodes.items.foldlM (fun result e => do
    let refs ← decodeRefs sl data nodes e.1 e.2
    .ok (result.set e.1 { e.2 with childRefs := (Dict.fromkeys refs).keys })) Dict.empty

def addReferences (data : Bytes) (nodes : Dict Nat ArrayNode) : Except Exc (Dict Nat ArrayNode) :=
  addReferencesVia clampSlice data nodes

/-! ## What is decoded -/

/-- Element `i` of an array of `width`-byte integers at `o`. -/
def byteElement (data : Bytes) (o size i : Nat) : Nat :=
  fromLittle (slice data (o + 8 + i * size) (o + 8 + i * size + size))

def refsOf (data : Bytes) (nodes : Dict Nat ArrayNode) (o : Nat) (node : ArrayNode) : List Nat :=
  if node.hasRefs = true ∧ node.width ∈ [8, 16, 32, 64] ∧ node.widthScheme = 0 then
    ((List.range node.elementCount).map (byteElement data o (node.width / 8))).filter (keepRef nodes)
  else []

def childRefsOf (data : Bytes) (nodes : Dict Nat ArrayNode) (o : Nat) (node : ArrayNode) :
    List Nat := (refsOf data nodes o node).eraseDups

/-- The candidates of a file with their child references. -/
def linked (data : Bytes) : Dict Nat ArrayNode :=
  (scanned data).mapVals fun o node => { node with childRefs := childRefsOf data (scanned data) o node }

/-- An element of at least a byte lies in the payload, whole. -/
theorem IsArray.byteElement_le {data : Bytes} {o : Nat} {node : ArrayNode} (h : IsArray data o node)
    (hw : node.width ∈ [8, 16, 32, 64]) (hs : node.widthScheme = 0) (i : Nat)
    (hi : i < node.elementCount) : i * (node.width / 8) + node.width / 8 ≤ node.payloadSize := by
  have hle := h.elements_le hs
  have h8 : node.width = 8 * (node.width / 8) := by
    simp only [List.mem_cons, List.not_mem_nil, or_false] at hw
    omega
  have hmul : (i + 1) * (node.width / 8) ≤ node.elementCount * (node.width / 8) :=
    Nat.mul_le_mul_right _ hi
  rw [h8, Nat.mul_left_comm] at hle
  rw [Nat.add_mul, Nat.one_mul] at hmul
  omega

/-- Only slices inside the payload of `node`, the array at `o`: any other raises. -/
def payloadSlice (o : Nat) (node : ArrayNode) : Slicer := fun data start stop =>
  if o + 8 ≤ start ∧ stop ≤ o + node.byteSize ∧ stop ≤ data.length then
    .ok (slice data start stop)
  else .error .indexError

/-- **The decoder reads whole elements of the array's own payload only.** -/
theorem decodeRefs_eq {data : Bytes} {o : Nat} {node : ArrayNode} (h : IsArray data o node)
    (sl : Slicer) (hsl : ∀ a b, o + 8 ≤ a → b ≤ o + node.byteSize → b ≤ data.length →
      sl data a b = .ok (slice data a b)) (nodes : Dict Nat ArrayNode) :
    decodeRefs sl data nodes o node = .ok (refsOf data nodes o node) := by
  unfold decodeRefs refsOf
  split
  · next hc =>
    have hb := h.bound
    have hsz := h.byteSize_eq
    rw [foldlM_eq_ok _ (fun refs i => if keepRef nodes (byteElement data o (node.width / 8) i)
      then refs ++ [byteElement data o (node.width / 8) i] else refs)]
    · rw [foldl_append_if, List.nil_append]
    · intro refs i hi
      have hle := h.byteElement_le hc.2.1 hc.2.2 i (List.mem_range.mp hi)
      dsimp only [ARRAY_HEADER_SIZE]
      rw [hsl _ _ (by omega) (by omega) (by omega), ok_bind]
      show (if keepRef nodes (byteElement data o (node.width / 8) i) then _ else _) = _
      split
      · rfl
      · rfl
  · rfl

/-- The child references of the candidates, however slices are taken. -/
theorem addReferencesVia_eq (sl : Slicer) (hsl : ExactInside sl) (data : Bytes) :
    addReferencesVia sl data (scanned data) = .ok (linked data) := by
  unfold addReferencesVia
  rw [foldlM_eq_ok _ (fun result e =>
    result.set e.1 { e.2 with childRefs := childRefsOf data (scanned data) e.1 e.2 })]
  · congr 1
    rw [linked, ← Dict.foldl_set_items, List.foldl_map]
  · intro result e he
    have ha : IsArray data e.1 e.2 := (scanned_get? data _ _).mp ((Dict.get?_eq_some_iff _ _ _).mpr he)
    rw [decodeRefs_eq ha sl (fun a b _ _ hb => hsl data a b hb), ok_bind, Dict.keys_fromkeys]
    rfl

theorem addReferences_eq (data : Bytes) : addReferences data (scanned data) = .ok (linked data) :=
  addReferencesVia_eq clampSlice exactInside_clampSlice data

theorem linked_get? (data : Bytes) (o : Nat) (node : ArrayNode) :
    (linked data).get? o = some node ↔ ∃ node₀, IsArray data o node₀ ∧
      node = { node₀ with childRefs := childRefsOf data (scanned data) o node₀ } := by
  rw [linked, Dict.get?_mapVals, Option.map_eq_some_iff]
  simp only [scanned_get?]
  constructor
  · rintro ⟨node₀, hn, rfl⟩
    exact ⟨node₀, hn, rfl⟩
  · rintro ⟨node₀, hn, rfl⟩
    exact ⟨node₀, hn, rfl⟩

@[simp] theorem mem_linked (data : Bytes) (o : Nat) : o ∈ linked data ↔ o ∈ scanned data :=
  Dict.mem_mapVals _ _ _

/-! ## The edges of the format -/

/-- Element `i` of a bit-packed array: its payload is one little-endian
integer, the elements are its digits to base `2 ^ width`. -/
def element (data : Bytes) (o : Nat) (node : ArrayNode) (i : Nat) : Nat :=
  fromLittle (slice data (o + 8) (o + 8 + node.payloadSize)) / 2 ^ (i * node.width) % 2 ^ node.width

/-- An element of the reference array at `p` is the offset `c` of an array. -/
def ChildRef (data : Bytes) (p c : Nat) : Prop :=
  ∃ node, IsArray data p node ∧ node.hasRefs = true ∧ node.widthScheme = 0 ∧
    c ∈ scanned data ∧ ∃ i, i < node.elementCount ∧ element data p node i = c

theorem element_eq {data : Bytes} {o : Nat} {node : ArrayNode} (h : IsArray data o node)
    (hw : node.width ∈ [8, 16, 32, 64]) (hs : node.widthScheme = 0) (i : Nat)
    (hi : i < node.elementCount) :
    element data o node i = byteElement data o (node.width / 8) i := by
  have hb := h.bound
  have hsz := h.byteSize_eq
  have hle := h.byteElement_le hw hs i hi
  obtain ⟨k, hk⟩ : ∃ k, node.width = 8 * k := by
    refine ⟨node.width / 8, ?_⟩
    simp only [List.mem_cons, List.not_mem_nil, or_false] at hw
    omega
  rw [hk, Nat.mul_div_cancel_left k (by omega)] at hle ⊢
  have hpow : ∀ n, (2 : Nat) ^ (8 * n) = 256 ^ n := fun n => by rw [Nat.pow_mul]
  have hlen : (slice data (o + 8) (o + 8 + node.payloadSize)).length = node.payloadSize := by
    rw [length_slice_of_le _ _ _ (by omega), Nat.add_sub_cancel_left]
  rw [element, hk, Nat.mul_left_comm, hpow, hpow, ← fromLittle_slice _ _ _ (by omega),
    slice_slice _ _ _ _ _ (by omega), byteElement, Nat.add_assoc (o + 8)]

theorem scanned_facts {data : Bytes} {c : Nat} (h : c ∈ scanned data) : 24 ≤ c ∧ c % 8 = 0 := by
  obtain ⟨node, hn⟩ := (mem_scanned data c).mp h
  exact ⟨hn.ge, hn.aligned⟩

theorem keepRef_eq_true_iff (data : Bytes) (v : Nat) :
    keepRef (scanned data) v = true ↔ v ∈ scanned data := by
  rw [keepRef, decide_eq_true_iff, Nat.and_one_is_mod]
  constructor
  · exact fun h => h.2.2
  · intro h
    have hf := scanned_facts h
    exact ⟨by omega, by omega, h⟩

/-- **No edge is lost, none invented.**  The skipped widths hold values below
24, the filtered values are no array's offset. -/
theorem childRefsOf_eq {data : Bytes} {p : Nat} {node : ArrayNode} (h : IsArray data p node)
    (hr : node.hasRefs = true) (hs : node.widthScheme = 0) :
    childRefsOf data (scanned data) p node = (((List.range node.elementCount).map
      (element data p node)).filter fun c => decide (c ∈ scanned data)).eraseDups := by
  rw [childRefsOf, refsOf]
  congr 1
  by_cases hw : node.width ∈ [8, 16, 32, 64]
  · have hmap : (List.range node.elementCount).map (byteElement data p (node.width / 8)) =
        (List.range node.elementCount).map (element data p node) :=
      List.map_congr_left fun i hi => (element_eq h hw hs i (List.mem_range.mp hi)).symm
    rw [if_pos ⟨hr, hw, hs⟩, hmap]
    refine List.filter_congr fun c _ => ?_
    rw [Bool.eq_iff_iff, keepRef_eq_true_iff, decide_eq_true_iff]
  · rw [if_neg (fun hc => hw hc.2.1), eq_comm, List.filter_eq_nil_iff]
    intro c hc
    rw [decide_eq_true_iff]
    intro hm
    obtain ⟨i, -, rfl⟩ := List.mem_map.mp hc
    -- a width below 8 bits: every element is below 16
    have hlow : node.width ≤ 4 := by
      have hwm := h.width_mem
      simp only [WIDTHS, List.mem_cons, List.not_mem_nil, or_false] at hwm hw
      omega
    have hlt : element data p node i < 2 ^ node.width := Nat.mod_lt _ (Nat.pow_pos (by omega))
    have hle : 2 ^ node.width ≤ 2 ^ 4 := Nat.pow_le_pow_right (by omega) hlow
    have hf := scanned_facts hm
    omega

/-- The child references of an array are its elements that are arrays. -/
theorem mem_childRefsOf_iff {data : Bytes} {p : Nat} {node : ArrayNode} (h : IsArray data p node)
    (c : Nat) : c ∈ childRefsOf data (scanned data) p node ↔
      node.hasRefs = true ∧ node.widthScheme = 0 ∧ c ∈ scanned data ∧
        ∃ i, i < node.elementCount ∧ element data p node i = c := by
  by_cases hc : node.hasRefs = true ∧ node.widthScheme = 0
  · rw [childRefsOf_eq h hc.1 hc.2, List.mem_eraseDups, List.mem_filter, decide_eq_true_iff]
    simp only [List.mem_map, List.mem_range, hc.1, hc.2, true_and]
    exact And.comm
  · rw [childRefsOf, List.mem_eraseDups, refsOf, if_neg (fun h => hc ⟨h.1, h.2.2⟩)]
    simp only [List.not_mem_nil, false_iff]
    exact fun h => hc ⟨h.1, h.2.1⟩

/-- What `_add_references` makes of the candidate `node₀` at `o`. -/
structure LinkedFrom (data : Bytes) (candidates : Dict Nat ArrayNode) (o : Nat)
    (node₀ node : ArrayNode) : Prop where
  rest : node = { node₀ with childRefs := node.childRefs }
  refs : node₀.hasRefs = true → node₀.widthScheme = 0 →
    node.childRefs = (((List.range node₀.elementCount).map (element data o node₀)).filter
      fun c => decide (c ∈ candidates)).eraseDups
  ownReads : ∃ refs, decodeRefs (payloadSlice o node₀) data candidates o node₀ = .ok refs ∧
    node.childRefs = (Dict.fromkeys refs).keys

/-- **The decoder finds exactly the edges**, at every width, in the order of
first occurrence; it changes nothing else, and reads nothing outside the array. -/
theorem add_references_exact (data : Bytes) :
    ∃ candidates nodes, scanArrayCandidates data = .ok candidates ∧
      addReferences data candidates = .ok nodes ∧ nodes.keys = candidates.keys ∧
      ∀ o node₀, candidates.get? o = some node₀ →
        ∃ node, nodes.get? o = some node ∧ LinkedFrom data candidates o node₀ node := by
  refine ⟨scanned data, linked data, scanArrayCandidates_eq data, addReferences_eq data,
    Dict.keys_mapVals _ _, fun o node₀ hg => ?_⟩
  have ha := (scanned_get? data o node₀).mp hg
  refine ⟨_, (linked_get? data o _).mpr ⟨node₀, ha, rfl⟩, rfl, childRefsOf_eq ha, ?_⟩
  refine ⟨_, decodeRefs_eq ha _ (fun a b h1 h2 h3 => if_pos ⟨h1, h2, h3⟩) (scanned data), ?_⟩
  rw [Dict.keys_fromkeys]
  rfl

/-- The edges of the linked candidates are the edges of the format. -/
theorem childRef_iff (data : Bytes) (p c : Nat) :
    ChildRef data p c ↔ ∃ node, (linked data).get? p = some node ∧ c ∈ node.childRefs := by
  constructor
  · rintro ⟨node, hn, h1, h2, h3, h4⟩
    exact ⟨_, (linked_get? data p _).mpr ⟨node, hn, rfl⟩, (mem_childRefsOf_iff hn c).mpr ⟨h1, h2, h3, h4⟩⟩
  · rintro ⟨node, hg, hc⟩
    obtain ⟨node₀, hn, rfl⟩ := (linked_get? data p node).mp hg
    obtain ⟨h1, h2, h3, h4⟩ := (mem_childRefsOf_iff hn c).mp hc
    exact ⟨node₀, hn, h1, h2, h3, h4⟩

/-! ## Locality -/

/-- **An edge depends only on the bytes of the arrays it joins.** -/
theorem ChildRef.agree {data data' : Bytes} {p c : Nat} {node : ArrayNode} (h : ChildRef data p c)
    (hp : IsArray data p node) (ha : Agree data data' p (p + node.byteSize))
    (hc : c ∈ scanned data') : ChildRef data' p c := by
  obtain ⟨node', hn, h1, h2, -, i, hi, he⟩ := h
  obtain rfl : node' = node := by
    have e1 := (arrayAt_eq_some_iff data p node').mpr hn
    have e2 := (arrayAt_eq_some_iff data p node).mpr hp
    exact Option.some.inj (e1.symm.trans e2)
  have hsz := hn.byteSize_eq
  refine ⟨node', hn.agree ha, h1, h2, hc, i, hi, ?_⟩
  rw [← he, element, ha.slice (by omega) (by omega), element]

end Pyrealm
