import Pyrealm.Forensics.Analyze

/-!
# Two files compared

An array, an edge and a carved row depend only on the bytes of the arrays
concerned.  So analyses of files that share bytes are related:

* `commit_keeps_snapshot`: a commit that writes elsewhere and switches slots
  leaves the tree of the former root recoverable.
* `truncation_law`: analysing a prefix gives the arrays, edges, paths and rows
  of the whole file that fit in the prefix.
-/

namespace Pyrealm

open Py

/-! ## Commits -/

/-- An array without what the analysis adds to it. -/
def shape (node : ArrayNode) : ArrayNode := { node with childRefs := [], reachability := .orphan }

/-- Labelled as part of the active tree. -/
def Live (node : ArrayNode) : Prop := node.reachability = .active ∨ node.reachability = .shared

/-- Labelled as part of the inactive tree. -/
def Retained (node : ArrayNode) : Prop :=
  node.reachability = .inactive ∨ node.reachability = .shared

theorem live_iff {data : Bytes} {header : RealmHeader} {node : ArrayNode}
    (h : node ∈ inventory data header) :
    Live node ↔ Reaches data header.activeTopRef node.offset := by
  obtain ⟨h1, h2, -, -⟩ := pathLabel_iff data header node.offset
  rw [Live, (inventory_label h).1, h1, h2]
  tauto

theorem retained_iff {data : Bytes} {header : RealmHeader} {node : ArrayNode}
    (h : node ∈ inventory data header) :
    Retained node ↔ Reaches data header.inactiveTopRef node.offset := by
  obtain ⟨h1, -, h3, -⟩ := pathLabel_iff data header node.offset
  rw [Retained, (inventory_label h).1, h1, h3]
  tauto

theorem shape_of_isArray {data : Bytes} {o : Nat} {node : ArrayNode} (h : IsArray data o node)
    (refs : List Nat) (label : Reachability) :
    shape { node with childRefs := refs, reachability := label } = node := by
  obtain ⟨n, -, rfl⟩ := h.size
  rfl

theorem mem_childRefsOf_iff_childRef {data : Bytes} {o : Nat} {node : ArrayNode}
    (h : IsArray data o node) (c : Nat) :
    c ∈ childRefsOf data (scanned data) o node ↔ ChildRef data o c := by
  rw [mem_childRefsOf_iff h]
  constructor
  · exact fun hc => ⟨node, h, hc⟩
  · rintro ⟨node', h', hc⟩
    rw [← arrayAt_eq_some_iff] at h h'
    rw [h, Option.some.injEq] at h'
    rwa [h']

/-- A listed array is an array of the file, its references are edges of the file. -/
theorem inventory_isArray {data : Bytes} {header : RealmHeader} {node : ArrayNode}
    (h : node ∈ inventory data header) :
    IsArray data node.offset (shape node) ∧ ∀ c, c ∈ node.childRefs ↔ ChildRef data node.offset c := by
  obtain ⟨o, node₀, hn, rfl⟩ := (mem_inventory data header node).mp h
  rw [shape_of_isArray hn]
  simp only [hn.offset_eq]
  exact ⟨hn, mem_childRefsOf_iff_childRef hn⟩

/-- Every array of the file is listed. -/
theorem exists_mem_inventory {data : Bytes} (header : RealmHeader) {o : Nat} {node₀ : ArrayNode}
    (h : IsArray data o node₀) : ∃ node ∈ inventory data header, node.offset = o ∧ shape node = node₀ :=
  ⟨_, (mem_inventory data header _).mpr ⟨o, node₀, h, rfl⟩, h.offset_eq, shape_of_isArray h _ _⟩

section
variable {data data' : Bytes} {root : Nat}
  (hbytes : ∀ o node, Reaches data root o → IsArray data o node →
    Agree data data' o (o + node.byteSize))
include hbytes

/-- The arrays of a tree whose bytes are kept are arrays of the other file. -/
theorem isArray_kept {o : Nat} (h : Reaches data root o) :
    ∃ node, IsArray data o node ∧ IsArray data' o node ∧ Agree data data' o (o + node.byteSize) := by
  obtain ⟨node, hn⟩ := (mem_scanned data o).mp h.mem_scanned
  have ha := hbytes o node h hn
  exact ⟨node, hn, hn.agree ha, ha⟩

theorem edge_kept {p c : Nat} (h : Reaches data root p) (hc : ChildRef data p c) :
    ChildRef data' p c := by
  obtain ⟨node, hn, -, ha⟩ := isArray_kept hbytes h
  obtain ⟨node', -, hn', -⟩ := isArray_kept hbytes ⟨h.1, h.2.tail hc⟩
  exact hc.agree hn ha ((mem_scanned data' c).mpr ⟨node', hn'⟩)

/-- **A tree whose bytes are kept stays reachable.** -/
theorem reaches_kept {o : Nat} (h : Reaches data root o) : Reaches data' root o := by
  obtain ⟨node, -, hn', -⟩ := isArray_kept hbytes ⟨h.1, Relation.ReflTransGen.refl⟩
  refine ⟨(mem_scanned data' root).mpr ⟨node, hn'⟩, ?_⟩
  exact Worklist.path_of_edges h.2 fun a b hab hb => edge_kept hbytes ⟨h.1, hab⟩ hb

end

section
variable {ε : Type} (m : Measures ε) (isprintable : Char → Bool)
  (resolved digest resolved' digest' : String)

/-- **Copy-on-write commits keep the former snapshot.**  The file before has
its root in the selected slot; the file after selects the other slot and keeps
that root and the bytes of its tree. -/
theorem commit_keeps_snapshot {data data' : Bytes} {header header' : RealmHeader}
    (h : parseHeader data = .ok (some header)) (hs : header.streaming = false)
    (h' : parseHeader data' = .ok (some header')) (hs' : header'.streaming = false)
    (hslot : slotRef data' header.activeSlot = slotRef data header.activeSlot)
    (hflag : header'.activeSlot ≠ header.activeSlot)
    {minimum minimum' : Option Nat} {analysis analysis' : Analysis ε}
    {strings strings' : List CarvedString}
    (hrun : analyzeMapping m isprintable resolved digest data minimum = .ok (analysis, strings))
    (hrun' : analyzeMapping m isprintable resolved' digest' data' minimum' =
      .ok (analysis', strings'))
    (hbytes : ∀ node ∈ analysis.arrays, Live node →
      Agree data data' node.offset (node.offset + node.byteSize)) :
    ∀ node ∈ analysis.arrays, Live node →
      ∃ node' ∈ analysis'.arrays, shape node' = shape node ∧
        node.childRefs ⊆ node'.childRefs ∧ Retained node' := by
  obtain ⟨rfl, -⟩ := analyzeMapping_ok m isprintable resolved digest h hrun
  obtain ⟨rfl, -⟩ := analyzeMapping_ok m isprintable resolved' digest' h' hrun'
  have hr := (parseHeader_eq_some_iff data header).mp h
  have hr' := (parseHeader_eq_some_iff data' header').mp h'
  simp only [plaintextAnalysis] at hbytes ⊢
  have hkeep : ∀ o node, Reaches data header.activeTopRef o → IsArray data o node →
      Agree data data' o (o + node.byteSize) := by
    intro o node₀ hreach hn
    obtain ⟨node, hmem, ho, hshape⟩ := exists_mem_inventory header hn
    subst ho hshape
    exact hbytes node hmem ((live_iff hmem).mpr hreach)
  -- the root of the former tree sits in the slot that is no longer selected
  have hroot : ∀ o, Reaches data' header.activeTopRef o → Reaches data' header'.inactiveTopRef o := by
    have hns : ¬ Streaming data := by
      rw [← hr.streaming_iff, hs]
      exact Bool.false_ne_true
    have hns' : ¬ Streaming data' := by
      rw [← hr'.streaming_iff, hs']
      exact Bool.false_ne_true
    have hlt := selectedSlot_lt data
    have hlt' := selectedSlot_lt data'
    rw [hr.activeSlot, hr'.activeSlot] at hflag
    rw [hr.activeSlot] at hslot
    have hother : 1 - selectedSlot data' = selectedSlot data := by omega
    intro o ho
    rw [hr'.inactiveTopRef, reaches_inactiveField, inactiveRoot, if_neg hns', hother]
    refine ⟨_, rfl, ?_⟩
    rw [hslot]
    rwa [hr.activeTopRef, activeRoot, if_neg hns] at ho
  intro node hnode hlive
  have hreach := (live_iff hnode).mp hlive
  obtain ⟨node₀, hn, hn', -⟩ := isArray_kept hkeep hreach
  obtain ⟨hshape, hrefs⟩ := inventory_isArray hnode
  obtain ⟨node', hnode', ho', hshape'⟩ := exists_mem_inventory header' hn'
  refine ⟨node', hnode', ?_, ?_, ?_⟩
  · rw [hshape']
    rw [← arrayAt_eq_some_iff] at hn hshape
    exact Option.some.inj (hn.symm.trans hshape)
  · intro c hc
    rw [(inventory_isArray hnode').2, ho']
    exact edge_kept hkeep hreach ((hrefs c).mp hc)
  · rw [retained_iff hnode', ho']
    exact hroot _ (reaches_kept hkeep hreach)

/-- `tinyRealm` after a commit that selects the other slot. -/
def tinyCommit : Bytes := tinyRealm.set 23 1

theorem parseHeader_tinyCommit :
    parseHeader tinyCommit = .ok (some ⟨(24, 56), (9, 9), 0, 1, 1, 56, 24, false⟩) := by
  decide +kernel

theorem commit_keeps_snapshot_tiny :
    ∃ analysis analysis', analyzeMapping ⟨(), fun _ => (), fun _ => false⟩ Char.isAlpha "/a.realm" ""
        tinyRealm none = .ok (analysis, []) ∧
      analyzeMapping ⟨(), fun _ => (), fun _ => false⟩ Char.isAlpha "/b.realm" "" tinyCommit none =
        .ok (analysis', []) ∧
      (∃ node ∈ analysis.arrays, Live node) ∧
      ∀ node ∈ analysis.arrays, Live node → ∃ node' ∈ analysis'.arrays, shape node' = shape node ∧
        node.childRefs ⊆ node'.childRefs ∧ Retained node' := by
  have hrun := analyzeMapping_inspect ⟨(), fun _ => (), fun _ => false⟩ Char.isAlpha "/a.realm" ""
    parseHeader_tinyRealm
  have hrun' := analyzeMapping_inspect ⟨(), fun _ => (), fun _ => false⟩ Char.isAlpha "/b.realm" ""
    parseHeader_tinyCommit
  refine ⟨_, _, hrun, hrun', ?_, ?_⟩
  · have hroot : 24 ∈ scanned tinyRealm := by decide +kernel
    obtain ⟨node₀, hn⟩ := (mem_scanned tinyRealm 24).mp hroot
    obtain ⟨node, hnode, ho, -⟩ := exists_mem_inventory tinyHeader hn
    refine ⟨node, hnode, (live_iff hnode).mpr ?_⟩
    rw [ho]
    exact ⟨hroot, Relation.ReflTransGen.refl⟩
  · apply commit_keeps_snapshot ⟨(), fun _ => (), fun _ => false⟩ Char.isAlpha "/a.realm" ""
      "/b.realm" "" parseHeader_tinyRealm rfl parseHeader_tinyCommit rfl (by decide +kernel)
      (by decide) hrun hrun'
    -- the two files differ in byte 23 only
    have htail : Agree tinyRealm tinyCommit 24 64 := ⟨by decide +kernel, by decide +kernel⟩
    intro node hnode _
    exact htail.mono (inventory_isArray hnode).1.ge (inventory_bound hnode).2

end

/-! ## Truncation -/

/-- An array that ends within the first `n` bytes. -/
def fits (n : Nat) (node : ArrayNode) : Bool := decide (node.offset + node.byteSize ≤ n)

section
variable (data : Bytes) (n : Nat) (hn : n ≤ data.length)
include hn

/-- The candidates of a prefix are those of the file that fit. -/
theorem scanned_take_items :
    (scanned (data.take n)).items = (scanned data).items.filter fun e => fits n e.2 := by
  apply List.Pairwise.eq_of_mem_iff (r := fun a b : Nat × ArrayNode => a.1 < b.1)
    (arraysBelow_pairwise _ _) ((arraysBelow_pairwise data _).filter _)
  intro e
  rw [List.mem_filter]
  show e ∈ (scanned (data.take n)).items ↔ e ∈ (scanned data).items ∧ _
  rw [mem_scanned_items, mem_scanned_items, isArray_take data n _ _ hn, fits, decide_eq_true_iff]
  constructor
  · rintro ⟨h1, h2⟩
    exact ⟨h1, h1.offset_eq.symm ▸ h2⟩
  · rintro ⟨h1, h2⟩
    exact ⟨h1, h1.offset_eq ▸ h2⟩

theorem mem_scanned_take {o : Nat} (h : o ∈ scanned (data.take n)) : o ∈ scanned data := by
  obtain ⟨node, hnode⟩ := (mem_scanned _ o).mp h
  exact (mem_scanned data o).mpr ⟨node, ((isArray_take data n o node hn).mp hnode).1⟩

/-- The references of a surviving array are its references to survivors. -/
theorem childRefsOf_take {o : Nat} {node : ArrayNode} (h : IsArray data o node)
    (hfit : o + node.byteSize ≤ n) :
    childRefsOf (data.take n) (scanned (data.take n)) o node =
      (childRefsOf data (scanned data) o node).filter (· ∈ scanned (data.take n)) := by
  rw [childRefsOf, childRefsOf, ← eraseDups_filter]
  congr 1
  unfold refsOf
  split
  · next hc =>
    rw [List.filter_filter]
    have hmap : (List.range node.elementCount).map (byteElement (data.take n) o (node.width / 8)) =
        (List.range node.elementCount).map (byteElement data o (node.width / 8)) := by
      apply List.map_congr_left
      intro i hi
      have hle := h.byteElement_le hc.2.1 hc.2.2 i (List.mem_range.mp hi)
      have hsize := h.byteSize_eq
      rw [byteElement, slice_take data n _ _ (by omega), byteElement]
    rw [hmap]
    apply List.filter_congr
    intro v _
    rw [Bool.eq_iff_iff, Bool.and_eq_true, keepRef_eq_true_iff, keepRef_eq_true_iff,
      decide_eq_true_iff]
    exact ⟨fun hv => ⟨hv, mem_scanned_take data n hn hv⟩, And.left⟩
  · rfl

theorem childRef_take {p c : Nat} (h : ChildRef (data.take n) p c) : ChildRef data p c := by
  obtain ⟨node, hnode, -⟩ := id h
  obtain ⟨hd, hfit⟩ := (isArray_take data n p node hn).mp hnode
  rw [← mem_childRefsOf_iff_childRef hnode, childRefsOf_take data n hn hd hfit, List.mem_filter] at h
  exact (mem_childRefsOf_iff_childRef hd c).mp h.1

/-- **Truncation invents no path.** -/
theorem reaches_take {root o : Nat} (h : Reaches (data.take n) root o) : Reaches data root o :=
  ⟨mem_scanned_take data n hn h.1,
    Worklist.path_of_edges h.2 fun _ _ _ hab => childRef_take data n hn hab⟩

/-- The report on a prefix, from the report on the file. -/
theorem inventory_take (header : RealmHeader) :
    inventory (data.take n) header = ((inventory data header).filter (fits n)).map fun node =>
      { node with
        childRefs := node.childRefs.filter (· ∈ scanned (data.take n))
        reachability := pathLabel (data.take n) header node.offset } := by
  rw [inventory, linked, Dict.items_mapVals, scanned_take_items data n hn, inventory, linked,
    Dict.items_mapVals, List.map_map, List.map_map, List.filter_map, List.map_map]
  apply List.map_congr_left
  intro e he
  rw [List.mem_filter, mem_scanned_items, fits, decide_eq_true_iff] at he
  obtain ⟨hnode, hfit⟩ := he
  simp only [Function.comp, hnode.offset_eq] at hfit ⊢
  rw [childRefsOf_take data n hn hnode hfit]

end

/-- Two listed arrays with one offset are the same. -/
theorem inventory_offset_inj {data : Bytes} {header : RealmHeader} {a b : ArrayNode}
    (ha : a ∈ inventory data header) (hb : b ∈ inventory data header) (h : a.offset = b.offset) :
    a = b := by
  have hnodup : ((inventory data header).map fun node => node.offset).Nodup := by
    rw [inventory_offsets]
    exact Dict.nodup_keys _
  exact List.inj_on_of_nodup_map hnodup ha hb h

/-- The rows that a filter on their array keeps. -/
theorem filter_flatMap_rows (rows : ArrayNode → List CarvedString) (p : ArrayNode → Bool)
    (q : CarvedString → Bool) (nodes : List ArrayNode)
    (h : ∀ node ∈ nodes, ∀ row ∈ rows node, q row = p node) :
    (nodes.flatMap rows).filter q = (nodes.filter p).flatMap rows := by
  induction nodes with
  | nil => rfl
  | cons node nodes ih =>
    have hnode := h node List.mem_cons_self
    rw [List.flatMap_cons, List.filter_append, ih fun node hn => h node (List.mem_cons_of_mem _ hn)]
    cases hp : p node with
    | true =>
      rw [List.filter_cons_of_pos hp, List.flatMap_cons,
        List.filter_eq_self.mpr fun row hrow => (hnode row hrow).trans hp]
    | false =>
      rw [List.filter_cons_of_neg (by simp [hp]), List.filter_eq_nil_iff.mpr fun row hrow => by
        simp [(hnode row hrow).trans hp], List.nil_append]

section
variable (isprintable : Char → Bool) {data : Bytes} {n : Nat} (hn : n ≤ data.length)
include hn

theorem inventory_take_offsets (header : RealmHeader) :
    (inventory (data.take n) header).map (fun node => node.offset) =
      ((inventory data header).filter (fits n)).map fun node => node.offset := by
  rw [inventory_take data n hn, List.map_map]
  rfl

/-- An array of the file is listed for the prefix exactly if it fits. -/
theorem mem_inventory_take_offsets {header : RealmHeader} {node : ArrayNode}
    (hnode : node ∈ inventory data header) :
    node.offset ∈ (inventory (data.take n) header).map (fun node => node.offset) ↔
      fits n node = true := by
  rw [inventory_take_offsets hn, List.mem_map]
  constructor
  · rintro ⟨node', hnode', ho⟩
    rw [List.mem_filter] at hnode'
    rw [← inventory_offset_inj hnode'.1 hnode ho]
    exact hnode'.2
  · exact fun hf => ⟨node, List.mem_filter.mpr ⟨hnode, hf⟩, rfl⟩

/-- **The rows of a prefix are those of the arrays that survive.** -/
theorem carved_take (header : RealmHeader) (minimum : Option Nat) :
    (carved isprintable (data.take n) header minimum).map rowText =
      ((carved isprintable data header minimum).filter fun row =>
        row.arrayOffset ∈ (inventory (data.take n) header).map (fun node => node.offset)).map
        rowText := by
  cases minimum with
  | none => rfl
  | some minimum =>
    have hkeep : ∀ node ∈ inventory data header, ∀ row ∈ nodeRows isprintable data minimum node,
        decide (row.arrayOffset ∈ (inventory (data.take n) header).map fun node => node.offset) =
          fits n node := by
      intro node hnode row hrow
      rw [Bool.eq_iff_iff, decide_eq_true_iff,
        ((nodeRows_spec isprintable data minimum node).1 row hrow).array,
        mem_inventory_take_offsets hn hnode]
    rw [carved, carved, filter_flatMap_rows _ _ _ _ hkeep, inventory_take data n hn,
      List.flatMap_map, List.map_flatMap, List.map_flatMap]
    apply List.flatMap_congr
    intro node hnode
    rw [List.mem_filter, fits, decide_eq_true_iff] at hnode
    apply nodeRows_rowText isprintable
    · rfl
    · rfl
    · have hsize := (inventory_bound hnode.1).1
      have hfit : node.offset + 8 + node.payloadSize ≤ n := by omega
      exact slice_take data n _ _ hfit

end

/-- A report on a prefix of `n` bytes against the report on the whole file. -/
structure TruncatedReport {ε : Type} (n : Nat) (analysis analysis' : Analysis ε) : Prop where
  header : analysis'.header = analysis.header
  arrays : analysis'.arrays.map shape = (analysis.arrays.filter (fits n)).map shape
  references : ∀ node' ∈ analysis'.arrays, ∀ node ∈ analysis.arrays, node'.offset = node.offset →
    node'.childRefs = node.childRefs.filter (· ∈ analysis'.arrays.map fun node => node.offset)
  live : ∀ node' ∈ analysis'.arrays, ∀ node ∈ analysis.arrays, node'.offset = node.offset →
    Live node' → Live node
  retained : ∀ node' ∈ analysis'.arrays, ∀ node ∈ analysis.arrays, node'.offset = node.offset →
    Retained node' → Retained node

theorem inventory_truncatedReport {ε : Type} (m : Measures ε) (resolved digest resolved' digest' : String)
    {data : Bytes} {header : RealmHeader} {n : Nat} (hn : n ≤ data.length) :
    TruncatedReport n
      (plaintextAnalysis m resolved digest data header (linked data) (inventory data header))
      (plaintextAnalysis m resolved' digest' (data.take n) header (linked (data.take n))
        (inventory (data.take n) header)) where
  header := by simp only [plaintextAnalysis]
  arrays := by
    simp only [plaintextAnalysis]
    rw [inventory_take data n hn, List.map_map]
    rfl
  references := by
    simp only [plaintextAnalysis, inventory_offsets]
    intro node' hnode' node hnode ho
    rw [inventory_take data n hn, List.mem_map] at hnode'
    obtain ⟨node₁, hnode₁, rfl⟩ := hnode'
    rw [List.mem_filter] at hnode₁
    rw [inventory_offset_inj hnode₁.1 hnode ho]
    rfl
  live := by
    simp only [plaintextAnalysis]
    intro node' hnode' node hnode ho
    rw [live_iff hnode', live_iff hnode, ho]
    exact reaches_take data n hn
  retained := by
    simp only [plaintextAnalysis]
    intro node' hnode' node hnode ho
    rw [retained_iff hnode', retained_iff hnode, ho]
    exact reaches_take data n hn

section
variable {ε : Type} (m : Measures ε) (isprintable : Char → Bool)
  (resolved digest resolved' digest' : String)

/-- **Truncation loses and never invents.** -/
theorem truncation_law {data : Bytes} {header : RealmHeader}
    (h : parseHeader data = .ok (some header)) (hs : header.streaming = false) {n : Nat}
    (h24 : 24 ≤ n) (hn : n ≤ data.length) :
    (∃ analysis analysis',
      analyzeMapping m isprintable resolved digest data none = .ok (analysis, []) ∧
      analyzeMapping m isprintable resolved' digest' (data.take n) none = .ok (analysis', [])) ∧
    (∀ root o, Reaches (data.take n) root o → Reaches data root o) ∧
    ∀ minimum analysis analysis' strings strings', (∀ k, minimum = some k → 1 ≤ k) →
      analyzeMapping m isprintable resolved digest data minimum = .ok (analysis, strings) →
      analyzeMapping m isprintable resolved' digest' (data.take n) minimum =
        .ok (analysis', strings') →
      TruncatedReport n analysis analysis' ∧
      strings'.map rowText = (strings.filter fun row =>
        row.arrayOffset ∈ analysis'.arrays.map (fun node => node.offset)).map rowText := by
  have h' : parseHeader (data.take n) = .ok (some header) := by
    rw [parseHeader_eq_some_iff] at h ⊢
    exact recognised_take h hs n h24 hn
  refine ⟨⟨_, _, analyzeMapping_inspect m isprintable resolved digest h,
    analyzeMapping_inspect m isprintable resolved' digest' h'⟩,
    fun root o => reaches_take data n hn, ?_⟩
  intro minimum analysis analysis' strings strings' _ hrun hrun'
  obtain ⟨rfl, rfl⟩ := analyzeMapping_ok m isprintable resolved digest h hrun
  obtain ⟨rfl, rfl⟩ := analyzeMapping_ok m isprintable resolved' digest' h' hrun'
  exact ⟨inventory_truncatedReport m resolved digest resolved' digest' hn,
    carved_take isprintable hn header minimum⟩

/-- The cut goes through the last array; the text in front of it stays. -/
theorem truncation_law_tiny :
    ∃ analysis analysis' strings strings',
      analyzeMapping ⟨(), fun _ => (), fun _ => false⟩ Char.isAlpha "/a.realm" "" tinyRealm (some 4) =
        .ok (analysis, strings) ∧
      analyzeMapping ⟨(), fun _ => (), fun _ => false⟩ Char.isAlpha "/b.realm" ""
        (tinyRealm.take 60) (some 4) = .ok (analysis', strings') ∧
      TruncatedReport 60 analysis analysis' ∧ strings'.map rowText = [(48, 40, .utf8, "text".toList)] ∧
      strings'.map rowText = (strings.filter fun row =>
        row.arrayOffset ∈ analysis'.arrays.map (fun node => node.offset)).map rowText := by
  obtain ⟨-, -, h3⟩ := truncation_law ⟨(), fun _ => (), fun _ => false⟩
    Char.isAlpha "/a.realm" "" "/b.realm" "" parseHeader_tinyRealm rfl (n := 60) (by decide)
    (by decide +kernel)
  obtain ⟨hreport, hrows⟩ := h3 (some 4) _ _ _ _ (fun k hk => by cases hk; decide) rfl rfl
  exact ⟨_, _, [⟨48, 40, .utf8, "text".toList, .active⟩], [⟨48, 40, .utf8, "text".toList, .active⟩],
    rfl, rfl, hreport, rfl, hrows⟩

end

end Pyrealm
