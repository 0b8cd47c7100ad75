import Pyrealm.Forensics.Snapshots

/-!
# Lost sectors

Two files of one length that differ in a region only, which the header, and the
footer of a streaming file, lie outside of.

    what is clear of the region is reported alike        (sector_loss_contained)

* `isArray_clear`, `childRef_clear`: an array and an edge outside the region.
* `ClearPath`: a path in a report through arrays outside the region.
-/

namespace Pyrealm

open Py

/-! ## The region -/

/-- The files agree outside of `[a, b)`. -/
structure Lost (a b : Nat) (data data' : Bytes) : Prop where
  length : data'.length = data.length
  before : Agree data data' 0 a
  after : Agree data data' b data.length

/-- The array has no byte in `[a, b)`. -/
def clear (a b : Nat) (node : ArrayNode) : Bool :=
  decide (node.offset + node.byteSize ≤ a) || decide (b ≤ node.offset)

/-- Reached from a root through listed arrays that are clear of the region. -/
inductive ClearPath (a b : Nat) (arrays : List ArrayNode) (root : Nat) : ArrayNode → Prop
  | root {node : ArrayNode} (hn : node ∈ arrays) (hc : clear a b node = true)
      (ho : node.offset = root) : ClearPath a b arrays root node
  | step {node child : ArrayNode} (h : ClearPath a b arrays root node) (hn : child ∈ arrays)
      (hc : clear a b child = true) (hr : child.offset ∈ node.childRefs) :
      ClearPath a b arrays root child

/-- The report has the row's array among the clear ones. -/
def fromClear {ε : Type} (a b : Nat) (analysis : Analysis ε) (row : CarvedString) : Bool :=
  decide (row.arrayOffset ∈ (analysis.arrays.filter (clear a b)).map fun node => node.offset)

/-- What two reports share. -/
structure Contained {ε : Type} (a b : Nat) (header : RealmHeader) (analysis analysis' : Analysis ε)
    (strings strings' : List CarvedString) : Prop where
  found : analysis'.header = analysis.header
  arrays : (analysis'.arrays.filter (clear a b)).map shape =
    (analysis.arrays.filter (clear a b)).map shape
  references : ∀ node ∈ analysis.arrays, clear a b node = true → ∀ node' ∈ analysis'.arrays,
    node'.offset = node.offset → ∀ child ∈ analysis.arrays, clear a b child = true →
      (child.offset ∈ node'.childRefs ↔ child.offset ∈ node.childRefs)
  live : ∀ node, ClearPath a b analysis.arrays header.activeTopRef node →
    ∃ node' ∈ analysis'.arrays, shape node' = shape node ∧ Live node'
  retained : ∀ node, ClearPath a b analysis.arrays header.inactiveTopRef node →
    ∃ node' ∈ analysis'.arrays, shape node' = shape node ∧ Retained node'
  strings : (strings'.filter (fromClear a b analysis')).map rowText =
    (strings.filter (fromClear a b analysis)).map rowText

theorem clear_shape (a b : Nat) (node : ArrayNode) : clear a b (shape node) = clear a b node := rfl

/-! ## Arrays and edges -/

section
variable {a b : Nat} {data data' : Bytes}

theorem Lost.symm (h : Lost a b data data') : Lost a b data' data where
  length := h.length.symm
  before := ⟨h.length ▸ h.before.le, h.before.eq.symm⟩
  after := ⟨Nat.le_of_eq h.length, h.length ▸ h.after.eq.symm⟩

variable (hlost : Lost a b data data')
include hlost

theorem Lost.agree {node : ArrayNode} (hc : clear a b node = true)
    (hb : node.offset + node.byteSize ≤ data.length) :
    Agree data data' node.offset (node.offset + node.byteSize) := by
  rw [clear, Bool.or_eq_true, decide_eq_true_iff, decide_eq_true_iff] at hc
  rcases hc with hc | hc
  · exact hlost.before.mono (Nat.zero_le _) hc
  · exact hlost.after.mono hc hb

theorem isArray_clear {o : Nat} {node : ArrayNode} (h : IsArray data o node)
    (hc : clear a b node = true) : IsArray data' o node := by
  have hb := h.bound
  have ho := h.offset_eq
  subst ho
  exact h.agree (hlost.agree hc hb)

/-- An edge between clear arrays. -/
theorem childRef_clear {p c : Nat} {node child : ArrayNode} (hp : IsArray data p node)
    (hpc : clear a b node = true) (hc : IsArray data c child) (hcc : clear a b child = true)
    (h : ChildRef data p c) : ChildRef data' p c := by
  have hb := hp.bound
  have ho := hp.offset_eq
  subst ho
  exact h.agree hp (hlost.agree hpc hb) ((mem_scanned data' c).mpr ⟨child, isArray_clear hlost hc hcc⟩)

/-! ## Reports -/

variable {header : RealmHeader}

/-- A clear array is listed in the other report. -/
theorem exists_mem_clear {node : ArrayNode} (hn : node ∈ inventory data header)
    (hc : clear a b node = true) :
    ∃ node' ∈ inventory data' header, node'.offset = node.offset ∧ shape node' = shape node :=
  exists_mem_inventory header (isArray_clear hlost (inventory_isArray hn).1 hc)

/-- The clear arrays of one report are those of the other. -/
theorem mem_shapes_clear {n : ArrayNode}
    (h : n ∈ ((inventory data header).filter (clear a b)).map shape) :
    n ∈ ((inventory data' header).filter (clear a b)).map shape := by
  obtain ⟨node, hnode, rfl⟩ := List.mem_map.mp h
  obtain ⟨hn, hc⟩ := List.mem_filter.mp hnode
  obtain ⟨node', hn', -, hshape⟩ := exists_mem_clear hlost hn hc
  refine List.mem_map.mpr ⟨node', List.mem_filter.mpr ⟨hn', ?_⟩, hshape⟩
  rw [← clear_shape, hshape]
  exact hc

theorem arrays_clear : ((inventory data' header).filter (clear a b)).map shape =
    ((inventory data header).filter (clear a b)).map shape := by
  have hsorted : ∀ xs : Bytes, (((inventory xs header).filter (clear a b)).map shape).Pairwise
      fun m n => m.offset < n.offset := fun xs =>
    List.pairwise_map.mpr ((inventory_sorted xs header).filter _)
  exact List.Pairwise.eq_of_mem_iff (hsorted data') (hsorted data) fun n =>
    ⟨mem_shapes_clear hlost.symm, mem_shapes_clear hlost⟩

theorem references_clear {node node' child : ArrayNode} (hn : node ∈ inventory data header)
    (hc : clear a b node = true) (hn' : node' ∈ inventory data' header)
    (ho : node'.offset = node.offset) (hchild : child ∈ inventory data header)
    (hcc : clear a b child = true) :
    child.offset ∈ node'.childRefs ↔ child.offset ∈ node.childRefs := by
  obtain ⟨hp, hrefs⟩ := inventory_isArray hn
  obtain ⟨hp', hrefs'⟩ := inventory_isArray hn'
  have ha := (inventory_isArray hchild).1
  have hkept : IsArray data' node.offset (shape node) := isArray_clear hlost hp hc
  have hkept' : IsArray data' child.offset (shape child) := isArray_clear hlost ha hcc
  rw [hrefs, hrefs', ho]
  exact ⟨childRef_clear hlost.symm hkept hc hkept' hcc, childRef_clear hlost hp hc ha hcc⟩

/-- **A path through clear arrays stays.** -/
theorem reaches_clear {root : Nat} {node : ArrayNode}
    (h : ClearPath a b (inventory data header) root node) :
    node ∈ inventory data header ∧ clear a b node = true ∧ Reaches data' root node.offset := by
  induction h with
  | @root node hn hc ho =>
    subst ho
    have hkept := isArray_clear hlost (inventory_isArray hn).1 hc
    exact ⟨hn, hc, (mem_scanned _ _).mpr ⟨_, hkept⟩, Relation.ReflTransGen.refl⟩
  | @step node child h hn hc hr ih =>
    obtain ⟨hnode, hclear, hroot, hpath⟩ := ih
    obtain ⟨hp, hrefs⟩ := inventory_isArray hnode
    exact ⟨hn, hc, hroot, hpath.tail (childRef_clear hlost hp hclear (inventory_isArray hn).1 hc
      ((hrefs _).mp hr))⟩

/-! ## Rows -/

omit hlost in
/-- The rows of clear arrays. -/
theorem carved_clear {ε : Type} (isprintable : Char → Bool) (minimum : Nat) {analysis : Analysis ε}
    (h : analysis.arrays = inventory data header) :
    ((carved isprintable data header (some minimum)).filter (fromClear a b analysis)).map rowText =
      (((inventory data header).filter (clear a b)).map shape).flatMap fun node =>
        (nodeRows isprintable data minimum node).map rowText := by
  have hkeep : ∀ node ∈ inventory data header, ∀ row ∈ nodeRows isprintable data minimum node,
      fromClear a b analysis row = clear a b node := by
    intro node hnode row hrow
    rw [fromClear, h, Bool.eq_iff_iff, decide_eq_true_iff,
      ((nodeRows_spec isprintable data minimum node).1 row hrow).array, List.mem_map]
    constructor
    · rintro ⟨other, hother, ho⟩
      obtain ⟨hmem, hc⟩ := List.mem_filter.mp hother
      rwa [← inventory_offset_inj hmem hnode ho]
    · exact fun hc => ⟨node, List.mem_filter.mpr ⟨hnode, hc⟩, rfl⟩
  rw [carved, filter_flatMap_rows _ _ _ _ hkeep, List.map_flatMap, List.flatMap_map]
  exact List.flatMap_congr fun node _ =>
    (nodeRows_rowText isprintable data data minimum node (shape node) rfl rfl rfl).symm

/-- **Clear arrays have their strings.** -/
theorem strings_clear {ε : Type} (isprintable : Char → Bool) (minimum : Nat)
    {analysis analysis' : Analysis ε} (h : analysis.arrays = inventory data header)
    (h' : analysis'.arrays = inventory data' header) :
    ((carved isprintable data' header (some minimum)).filter (fromClear a b analysis')).map rowText =
      ((carved isprintable data header (some minimum)).filter (fromClear a b analysis)).map rowText := by
  rw [carved_clear isprintable minimum h, carved_clear isprintable minimum h', arrays_clear hlost]
  refine List.flatMap_congr fun n hn => ?_
  obtain ⟨node, hnode, rfl⟩ := List.mem_map.mp hn
  obtain ⟨hmem, hc⟩ := List.mem_filter.mp hnode
  obtain ⟨hsize, hbound⟩ := inventory_bound hmem
  have ha : Agree data data' node.offset (node.offset + node.byteSize) := hlost.agree hc hbound
  refine nodeRows_rowText isprintable data data' minimum _ _ rfl rfl ?_
  exact ha.slice (Nat.le_add_right _ _) (show node.offset + 8 + node.payloadSize ≤ _ by omega)

end

/-- **What lies clear of lost sectors is recovered as before**: the arrays with their
layout, the references between them, their strings, and that they belong to a tree as
long as a path of clear arrays leads to them. -/
theorem sector_loss_contained {ε : Type} (m : Measures ε) (isprintable : Char → Bool)
    (resolved digest resolved' digest' : String) {a b : Nat} {data data' : Bytes}
    (hlost : Lost a b data data') {header : RealmHeader}
    (h : parseHeader data = .ok (some header)) (h' : parseHeader data' = .ok (some header))
    {minimum : Option Nat} {analysis analysis' : Analysis ε} {strings strings' : List CarvedString}
    (hrun : analyzeMapping m isprintable resolved digest data minimum = .ok (analysis, strings))
    (hrun' : analyzeMapping m isprintable resolved' digest' data' minimum =
      .ok (analysis', strings')) :
    Contained a b header analysis analysis' strings strings' := by
  obtain ⟨rfl, rfl⟩ := analyzeMapping_ok m isprintable resolved digest h hrun
  obtain ⟨rfl, rfl⟩ := analyzeMapping_ok m isprintable resolved' digest' h' hrun'
  constructor
  case found => simp only [plaintextAnalysis]
  case arrays => exact arrays_clear hlost
  case references =>
    exact fun node hn hc node' hn' ho child hchild hcc =>
      references_clear hlost hn hc hn' ho hchild hcc
  case live =>
    intro node hpath
    obtain ⟨hn, hc, hreach⟩ := reaches_clear hlost hpath
    obtain ⟨node', hn', ho, hshape⟩ := exists_mem_clear hlost hn hc
    exact ⟨node', hn', hshape, (live_iff hn').mpr (ho ▸ hreach)⟩
  case retained =>
    intro node hpath
    obtain ⟨hn, hc, hreach⟩ := reaches_clear hlost hpath
    obtain ⟨node', hn', ho, hshape⟩ := exists_mem_clear hlost hn hc
    exact ⟨node', hn', hshape, (retained_iff hn').mpr (ho ▸ hreach)⟩
  case strings =>
    cases minimum with
    | none => simp only [carved, List.filter_nil]
    | some minimum => exact strings_clear hlost isprintable minimum rfl rfl

/-- `tinyRealm` without its last array, the root that is not selected. -/
def tinyLoss : Bytes := tinyRealm.take 56 ++ List.replicate 8 0

/-- The text in front of the loss is recovered from both files. -/
theorem sector_loss_contained_tiny :
    ∃ analysis analysis' strings strings',
      analyzeMapping ⟨(), fun _ => (), fun _ => false⟩ Char.isAlpha "/a.realm" "" tinyRealm (some 4) =
        .ok (analysis, strings) ∧
      analyzeMapping ⟨(), fun _ => (), fun _ => false⟩ Char.isAlpha "/b.realm" "" tinyLoss (some 4) =
        .ok (analysis', strings') ∧
      strings.map rowText = [(48, 40, .utf8, "text".toList)] ∧
      Contained 56 64 tinyHeader analysis analysis' strings strings' := by
  have h' : parseHeader tinyLoss = .ok (some tinyHeader) := by decide +kernel
  have hlost : Lost 56 64 tinyRealm tinyLoss :=
    ⟨by decide +kernel, ⟨by decide +kernel, by decide +kernel⟩, ⟨by decide +kernel, by decide +kernel⟩⟩
  obtain ⟨analysis, hrun⟩ := analyzeMapping_tinyRealm
  obtain ⟨analysis', hrun'⟩ : ∃ analysis', analyzeMapping ⟨(), fun _ => (), fun _ => false⟩
      Char.isAlpha "/b.realm" "" tinyLoss (some 4) =
        .ok (analysis', [⟨48, 40, .utf8, "text".toList, .active⟩]) :=
    ⟨_, rfl⟩
  exact ⟨analysis, analysis', _, _, hrun, hrun', rfl, sector_loss_contained
    ⟨(), fun _ => (), fun _ => false⟩ Char.isAlpha "/a.realm" "" "/b.realm" "" hlost
    parseHeader_tinyRealm h' hrun hrun'⟩

end Pyrealm
