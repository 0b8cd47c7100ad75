import Pyrealm.Forensics.Snapshots

/-!
# The same bytes behind another header, or at another place

What the scanner, the reference decoder and the carver read of an array is its
own bytes; what they read of the header is the two roots.  So:

* `slot_flip_exchanges_labels`: behind a header that selects the other slot,
  every array, edge and row is reported again, with `active` and `inactive`
  exchanged.
* `streaming_conversion_keeps_report`: a streaming file, and the file that
  has the footer's root in slot 1 instead, have one report.
* `carving_position_independent`: an array copied to another aligned offset,
  of the same file or of any other, is found there with the same strings.
-/

namespace Pyrealm

open Py

/-! ## Files that differ in the header only -/

/-- A row under the label `label`. -/
def relabel (label : Reachability → Reachability) (row : CarvedString) : CarvedString :=
  { row with reachability := label row.reachability }

/-- An array under the label `label`. -/
def relabelNode (label : Reachability → Reachability) (node : ArrayNode) : ArrayNode :=
  { node with reachability := label node.reachability }

theorem slice_of_drop {data data' : Bytes} {n : Nat} (h : data'.drop n = data.drop n) {a : Nat}
    (ha : n ≤ a) (b : Nat) : slice data' a b = slice data a b := by
  apply List.ext_getElem?
  intro k
  have hk : data'[a + k]? = data[a + k]? := by
    have e := congrArg (fun xs : Bytes => xs[a + k - n]?) h
    simpa only [List.getElem?_drop, Nat.add_sub_cancel' (show n ≤ a + k by omega)] using e
  rw [getElem?_slice, getElem?_slice, hk]

section
variable {data data' : Bytes} (hbody : data'.drop 24 = data.drop 24)
include hbody

theorem length_of_body (h : 24 ≤ data.length) (h' : 24 ≤ data'.length) :
    data'.length = data.length := by
  have e := congrArg List.length hbody
  rw [List.length_drop, List.length_drop] at e
  omega

theorem isArray_of_body (hlen : data'.length = data.length) {o : Nat} {node : ArrayNode}
    (h : IsArray data o node) : IsArray data' o node :=
  h.agree ⟨hlen ▸ h.bound, slice_of_drop hbody h.ge _⟩

/-- The scanner starts behind the header. -/
theorem scanned_of_body (hlen : data'.length = data.length) : scanned data' = scanned data := by
  have hat : arrayAt data' = arrayAt data := by
    funext o
    apply Option.ext
    intro node
    rw [arrayAt_eq_some_iff, arrayAt_eq_some_iff]
    exact ⟨isArray_of_body hbody.symm hlen.symm, isArray_of_body hbody hlen⟩
  have hitem : arrayItem data' = arrayItem data := by
    funext o
    rw [arrayItem, hat, arrayItem]
  apply Dict.ext_items
  simp only [scanned, arraysBelow, hitem, hlen]

theorem linked_of_body (hlen : data'.length = data.length) : linked data' = linked data := by
  apply Dict.ext_items
  rw [linked, linked, Dict.items_mapVals, Dict.items_mapVals, scanned_of_body hbody hlen]
  apply List.map_congr_left
  intro e he
  have hge := ((mem_scanned_items data e).mp he).ge
  have hele : byteElement data' e.1 (e.2.width / 8) = byteElement data e.1 (e.2.width / 8) := by
    funext i
    rw [byteElement, slice_of_drop hbody (by omega), byteElement]
  rw [childRefsOf, refsOf, hele, childRefsOf, refsOf]

/-- The graph on disk has no edge into the header. -/
theorem reaches_of_body (hlen : data'.length = data.length) (root o : Nat) :
    Reaches data' root o ↔ Reaches data root o := by
  have hedge : ChildRef data' = ChildRef data := by
    funext p c
    rw [eq_iff_iff, childRef_iff, childRef_iff, linked_of_body hbody hlen]
  rw [Reaches, scanned_of_body hbody hlen, hedge, Reaches]

theorem inventory_of_body (hlen : data'.length = data.length) (header header' : RealmHeader)
    {label : Reachability → Reachability}
    (hlabel : ∀ o, pathLabel data' header' o = label (pathLabel data header o)) :
    inventory data' header' = (inventory data header).map (relabelNode label) := by
  rw [inventory, inventory, linked_of_body hbody hlen, List.map_map]
  apply List.map_congr_left
  intro e _
  simp only [Function.comp, relabelNode, hlabel]

/-- The rows of an array under another label. -/
theorem nodeRows_relabel (isprintable : Char → Bool) (minimum : Nat) {node : ArrayNode}
    (hge : 24 ≤ node.offset) (label : Reachability → Reachability) :
    nodeRows isprintable data' minimum (relabelNode label node) =
      (nodeRows isprintable data minimum node).map (relabel label) := by
  have hpay : payloadOf data' (relabelNode label node) = payloadOf data node :=
    slice_of_drop hbody (show 24 ≤ node.offset + 8 by omega) _
  have hrow : ∀ e r v, makeString (relabelNode label node) e r v =
      relabel label (makeString node e r v) := fun _ _ _ => rfl
  rw [nodeRows_eq, nodeRows_eq, hpay]
  show (if node.hasRefs = true then _ else _) = _
  cases node.hasRefs with
  | true => rfl
  | false => simp only [Bool.false_eq_true, if_false, List.map_append, List.map_map, hrow,
      Function.comp_def]

theorem carved_of_body (isprintable : Char → Bool) (hlen : data'.length = data.length)
    (header header' : RealmHeader) {label : Reachability → Reachability}
    (hlabel : ∀ o, pathLabel data' header' o = label (pathLabel data header o))
    (minimumString : Option Nat) : carved isprintable data' header' minimumString =
      (carved isprintable data header minimumString).map (relabel label) := by
  cases minimumString with
  | none => rfl
  | some minimum =>
    rw [carved, carved, inventory_of_body hbody hlen header header' hlabel, List.flatMap_map,
      List.map_flatMap]
    exact List.flatMap_congr fun node hnode =>
      nodeRows_relabel hbody isprintable minimum (inventory_isArray hnode).1.ge label

/-- **The header decides the labels and nothing else**: the report on a file, from
the report on one with the same bytes behind its header. -/
theorem analyzeMapping_of_body {ε : Type} (m : Measures ε) (isprintable : Char → Bool)
    (resolved digest resolved' digest' : String) {header header' : RealmHeader}
    (h : parseHeader data = .ok (some header)) (h' : parseHeader data' = .ok (some header'))
    {label : Reachability → Reachability}
    (hlabel : ∀ o, pathLabel data' header' o = label (pathLabel data header o))
    {minimumString : Option Nat} {analysis : Analysis ε} {strings : List CarvedString}
    (hrun : analyzeMapping m isprintable resolved digest data minimumString =
      .ok (analysis, strings)) :
    analyzeMapping m isprintable resolved' digest' data' minimumString =
      .ok (plaintextAnalysis m resolved' digest' data' header' (linked data)
        (analysis.arrays.map (relabelNode label)), strings.map (relabel label)) := by
  have hlen := length_of_body hbody ((parseHeader_eq_some_iff _ _).mp h).length_ge
    ((parseHeader_eq_some_iff _ _).mp h').length_ge
  have hover : CarveOverflows data' minimumString ↔ CarveOverflows data minimumString := by
    simp only [CarveOverflows, Overflows, scanned_of_body hbody hlen, hlen]
  obtain ⟨hbad, -⟩ := analyzeMapping_eq m isprintable resolved digest h minimumString
  obtain ⟨-, hok⟩ := analyzeMapping_eq m isprintable resolved' digest' h' minimumString
  obtain ⟨rfl, rfl⟩ := analyzeMapping_ok m isprintable resolved digest h hrun
  rw [hok fun ho => ?_, linked_of_body hbody hlen, inventory_of_body hbody hlen header header' hlabel,
    carved_of_body hbody isprintable hlen header header' hlabel]
  · rfl
  · rw [hbad (hover.mp ho)] at hrun
    cases hrun

end

/-! ## Slots -/

/-- The label under the other choice of the committed root. -/
def exchange : Reachability → Reachability
  | .active => .inactive
  | .inactive => .active
  | .shared => .shared
  | .orphan => .orphan

theorem pathLabel_exchange {data data' : Bytes} {header header' : RealmHeader} {o : Nat}
    (ha : Reaches data' header'.activeTopRef o ↔ Reaches data header.inactiveTopRef o)
    (hi : Reaches data' header'.inactiveTopRef o ↔ Reaches data header.activeTopRef o) :
    pathLabel data' header' o = exchange (pathLabel data header o) := by
  classical
  unfold pathLabel
  simp only [ha, hi]
  by_cases h1 : Reaches data header.activeTopRef o <;>
    by_cases h2 : Reaches data header.inactiveTopRef o <;> simp [h1, h2, exchange]

/-- The two roots of a file that is not streaming, by slot. -/
theorem Recognised.roots_of_slot {data : Bytes} {header : RealmHeader} (h : Recognised data header)
    (hs : header.streaming = false) (o : Nat) :
    (Reaches data header.activeTopRef o ↔ Reaches data (slotRef data header.activeSlot) o) ∧
    (Reaches data header.inactiveTopRef o ↔ Reaches data (slotRef data (1 - header.activeSlot)) o) := by
  have hns : ¬ Streaming data := by
    rw [← h.streaming_iff, hs]
    exact Bool.false_ne_true
  rw [h.activeTopRef, h.inactiveTopRef, h.activeSlot, activeRoot, if_neg hns, inactiveRoot, if_neg hns,
    reaches_inactiveField]
  refine ⟨Iff.rfl, ?_⟩
  constructor
  · rintro ⟨r, hr, hreach⟩
    cases hr
    exact hreach
  · exact fun hreach => ⟨_, rfl, hreach⟩

section
variable {ε : Type} (m : Measures ε) (isprintable : Char → Bool)
  (resolved digest resolved' digest' : String)

/-- **Selecting the other slot exchanges `active` and `inactive`**, in the arrays and in
the rows, and changes nothing else about them. -/
theorem slot_flip_exchanges_labels {data data' : Bytes} {header header' : RealmHeader}
    (h : parseHeader data = .ok (some header)) (hs : header.streaming = false)
    (h' : parseHeader data' = .ok (some header')) (hs' : header'.streaming = false)
    (hslots : data'.take 16 = data.take 16) (hflag : header'.activeSlot ≠ header.activeSlot)
    (hbody : data'.drop 24 = data.drop 24) {minimumString : Option Nat} {analysis : Analysis ε}
    {strings : List CarvedString}
    (hrun : analyzeMapping m isprintable resolved digest data minimumString =
      .ok (analysis, strings)) :
    ∃ analysis', analyzeMapping m isprintable resolved' digest' data' minimumString =
        .ok (analysis', strings.map (relabel exchange)) ∧
      analysis'.header = some header' ∧
      analysis'.arrays = analysis.arrays.map (relabelNode exchange) := by
  have hr := (parseHeader_eq_some_iff data header).mp h
  have hr' := (parseHeader_eq_some_iff data' header').mp h'
  have hlen := length_of_body hbody hr.length_ge hr'.length_ge
  have hslot : ∀ s, s < 2 → slotRef data' s = slotRef data s := by
    intro s hlt
    rw [slotRef, u64, ← slice_take data' 16 _ _ (by omega), hslots, slice_take data 16 _ _ (by omega),
      slotRef, u64]
  have hother : header'.activeSlot = 1 - header.activeSlot ∧
      header.activeSlot = 1 - header'.activeSlot := by
    have hlt := selectedSlot_lt data
    have hlt' := selectedSlot_lt data'
    rw [hr.activeSlot, hr'.activeSlot] at hflag ⊢
    omega
  have hlt : header.activeSlot < 2 := hr.activeSlot ▸ selectedSlot_lt data
  refine ⟨_, analyzeMapping_of_body hbody m isprintable resolved digest resolved' digest' h h'
    (fun o => pathLabel_exchange ?_ ?_) hrun, rfl, rfl⟩
  · rw [(hr'.roots_of_slot hs' o).1, (hr.roots_of_slot hs o).2, reaches_of_body hbody hlen,
      hother.1, hslot _ (by omega)]
  · rw [(hr'.roots_of_slot hs' o).2, (hr.roots_of_slot hs o).1, reaches_of_body hbody hlen,
      ← hother.2, hslot _ hlt]

/-- `tinyRealm` and `tinyCommit`, which selects the other slot. -/
theorem slot_flip_exchanges_labels_tiny :
    ∃ analysis analysis' strings, analyzeMapping ⟨(), fun _ => (), fun _ => false⟩ Char.isAlpha
        "/a.realm" "" tinyRealm (some 4) = .ok (analysis, strings) ∧
      analyzeMapping ⟨(), fun _ => (), fun _ => false⟩ Char.isAlpha "/b.realm" "" tinyCommit (some 4) =
        .ok (analysis', strings.map (relabel exchange)) ∧
      analysis'.arrays = analysis.arrays.map (relabelNode exchange) := by
  have hrun := (analyzeMapping_eq ⟨(), fun _ => (), fun _ => false⟩ Char.isAlpha "/a.realm" ""
    parseHeader_tinyRealm (some 4)).2 (not_carveOverflows tinyRealm (by decide))
  obtain ⟨analysis', hrun', -, harrays⟩ := slot_flip_exchanges_labels ⟨(), fun _ => (), fun _ => false⟩
    Char.isAlpha "/a.realm" "" "/b.realm" "" parseHeader_tinyRealm rfl parseHeader_tinyCommit rfl
    (by decide +kernel) (by decide) (by decide +kernel) hrun
  exact ⟨_, analysis', _, hrun, hrun', harrays⟩

/-! ## Streaming files -/

/-- `data'` is the streaming file `data` with the footer's root in slot 1, which
bit 0 of the flags now selects. -/
structure Converted (data data' : Bytes) : Prop where
  unused : slotRef data' 0 = NULL_TOP_REF
  root : slotRef data' 1 = u64 data (data.length - 16)
  fixed : slice data' 16 23 = slice data 16 23
  flag : selectedSlot data' = 1
  body : data'.drop 24 = data.drop 24

section
variable {data data' : Bytes} (hc : Converted data data')
include hc

theorem Converted.not_streaming : ¬ Streaming data' := by
  rintro ⟨hslot, -⟩
  rw [hc.flag] at hslot
  omega

theorem Converted.byteAt (h' : 24 ≤ data'.length) {i : Nat} (hi : 16 ≤ i)
    (hi' : i < 23) : byteAt data' i = byteAt data i :=
  Agree.byteAt (a := 16) (b := 23) ⟨by omega, hc.fixed⟩ hi hi'

/-- A converted file is recognised; it has the root of the streaming file and no other. -/
theorem Converted.recognised {header : RealmHeader} (h : Recognised data header)
    (hs : header.streaming = true) (h24 : 24 ≤ data'.length) :
    ∃ header', Recognised data' header' ∧ header'.activeTopRef = header.activeTopRef ∧
      header'.inactiveTopRef = header.inactiveTopRef ∧ header'.reserved = header.reserved ∧
      header'.formatSlots = header.formatSlots := by
  have hstr := h.streaming_iff.mp hs
  have hinactive : inactiveField (inactiveRoot data') = 0 := by
    rw [inactiveRoot, if_neg hc.not_streaming, hc.flag, Nat.sub_self, hc.unused]
    rfl
  have hactive : activeRoot data' = activeRoot data := by
    rw [activeRoot, if_neg hc.not_streaming, hc.flag, hc.root, activeRoot, if_pos hstr]
  refine ⟨_, ⟨h24, ?_, fun hs' => absurd hs' hc.not_streaming, rfl⟩, ?_, ?_, ?_, ?_⟩
  · rw [Agree.slice (a := 16) (b := 23) ⟨by omega, hc.fixed⟩ (Nat.le_refl 16) (by omega), h.magic]
  · rw [h.eq]
    exact hactive
  · rw [h.eq, hinactive, inactiveRoot, if_pos hstr]
    rfl
  · rw [h.eq]
    exact hc.byteAt h24 (by omega) (by omega)
  · rw [h.eq]
    exact Prod.ext (hc.byteAt h24 (by omega) (by omega))
      (hc.byteAt h24 (by omega) (by omega))

end

/-- **A converted streaming file has the report of the streaming file**: the same
arrays, edges, labels, warnings and rows. -/
theorem streaming_conversion_keeps_report {data data' : Bytes} {header : RealmHeader}
    (h : parseHeader data = .ok (some header)) (hs : header.streaming = true)
    (hc : Converted data data') (h24 : 24 ≤ data'.length) :
    ∃ header', parseHeader data' = .ok (some header') ∧ header'.streaming = false ∧
      ∀ minimumString analysis strings,
        analyzeMapping m isprintable resolved digest data minimumString = .ok (analysis, strings) →
        ∃ analysis', analyzeMapping m isprintable resolved' digest' data' minimumString =
            .ok (analysis', strings) ∧
          analysis'.arrays = analysis.arrays ∧ analysis'.warnings = analysis.warnings ∧
          analysis'.fileSize = analysis.fileSize := by
  have hr := (parseHeader_eq_some_iff data header).mp h
  obtain ⟨header', hr', hactive, hinactive, hreserved, -⟩ := hc.recognised hr hs h24
  have h' := (parseHeader_eq_some_iff data' header').mpr hr'
  have hlen := length_of_body hc.body hr.length_ge h24
  have hlabel : ∀ o, pathLabel data' header' o = id (pathLabel data header o) := by
    classical
    intro o
    unfold pathLabel
    simp only [reaches_of_body hc.body hlen, hactive, hinactive, id_eq]
  refine ⟨header', h', ?_, fun minimumString analysis strings hrun => ?_⟩
  · rw [← Bool.not_eq_true, hr'.streaming_iff]
    exact hc.not_streaming
  have hrun' := analyzeMapping_of_body hc.body m isprintable resolved digest resolved' digest' h h'
    hlabel hrun
  have hrows : strings.map (relabel id) = strings := List.map_id strings
  have hnodes : analysis.arrays.map (relabelNode id) = analysis.arrays := List.map_id analysis.arrays
  rw [hrows, hnodes] at hrun'
  obtain ⟨rfl, -⟩ := analyzeMapping_ok m isprintable resolved digest h hrun
  refine ⟨_, hrun', rfl, ?_, hlen⟩
  simp only [plaintextAnalysis, headerWarnings, hactive, hinactive, hreserved, hlen]

/-- A streaming file with one empty array, its root. -/
def tinyStream : Bytes :=
  List.replicate 8 0xFF ++ List.replicate 8 0 ++ REALM_MAGIC ++ [9, 9, 0, 0] ++
  ARRAY_SIGNATURE ++ [0x00, 0, 0, 0] ++ [24, 0, 0, 0, 0, 0, 0, 0] ++
  [0xC8, 0x26, 0xE5, 0x37, 0x52, 0x12, 0x34, 0x30]

def tinyConverted : Bytes :=
  List.replicate 8 0xFF ++ [24, 0, 0, 0, 0, 0, 0, 0] ++ REALM_MAGIC ++ [9, 9, 0, 1] ++
  tinyStream.drop 24

theorem streaming_conversion_keeps_report_tiny :
    ∃ analysis analysis', analyzeMapping ⟨(), fun _ => (), fun _ => false⟩ Char.isAlpha "/a.realm" ""
        tinyStream none = .ok (analysis, []) ∧
      analyzeMapping ⟨(), fun _ => (), fun _ => false⟩ Char.isAlpha "/a.realm" "" tinyConverted none =
        .ok (analysis', []) ∧
      analysis'.arrays = analysis.arrays ∧ analysis'.warnings = analysis.warnings := by
  have h : parseHeader tinyStream =
      .ok (some ⟨(NULL_TOP_REF, 0), (9, 9), 0, 0, 0, 24, 0, true⟩) := by decide +kernel
  obtain ⟨_, -, -, hall⟩ := streaming_conversion_keeps_report ⟨(), fun _ => (), fun _ => false⟩
    Char.isAlpha "/a.realm" "" "/a.realm" "" h rfl
    (show Converted tinyStream tinyConverted from
      ⟨by decide +kernel, by decide +kernel, by decide +kernel, by decide +kernel, by decide +kernel⟩)
    (by decide +kernel)
  have hrun := analyzeMapping_inspect ⟨(), fun _ => (), fun _ => false⟩ Char.isAlpha "/a.realm" "" h
  obtain ⟨analysis', hrun', harrays, hwarnings, -⟩ := hall none _ _ hrun
  exact ⟨_, analysis', hrun, hrun', harrays, hwarnings⟩

/-! ## Moved arrays -/

/-- The row of an array that was copied from `o` to `o'`, without its label. -/
def movedRow (o o' : Nat) (row : CarvedString) : Nat × Nat × Encoding × PyStr :=
  (row.fileOffset - o + o', row.arrayOffset - o + o', row.encoding, row.value)

/-- An array is found wherever its bytes are copied to. -/
theorem IsArray.moved {data data' : Bytes} {o o' : Nat} {node : ArrayNode} (h : IsArray data o node)
    (hge : 24 ≤ o') (hal : o' % 8 = 0)
    (hbytes : slice data' o' (o' + node.byteSize) = slice data o (o + node.byteSize)) :
    IsArray data' o' { node with offset := o' } := by
  have hsize := h.byteSize_eq
  have hbound := h.bound
  have hlen := congrArg List.length hbytes
  rw [length_slice, length_slice_of_le _ _ _ hbound] at hlen
  have hin : ∀ i j, j ≤ node.byteSize → slice data' (o' + i) (o' + j) = slice data (o + i) (o + j) := by
    intro i j hj
    rw [← slice_slice data' o' (o' + node.byteSize) i j (by omega), hbytes,
      slice_slice data o (o + node.byteSize) i j (by omega)]
  have hflags : flagsAt data' o' = flagsAt data o := by
    have e := congrArg (fun xs : Bytes => xs[0]?) (hin 4 5 (by omega))
    simp only [getElem?_slice, Nat.add_zero, Nat.lt_succ_self, if_true] at e
    rw [flagsAt, Py.byteAt, List.getD_eq_getElem?_getD, e, flagsAt, Py.byteAt,
      List.getD_eq_getElem?_getD]
  have hcount : countAt data' o' = countAt data o := by
    rw [countAt, hin 5 8 (by omega), countAt]
  refine ⟨hge, hal, ?_, ?_, ?_⟩
  · rw [← h.signature]
    exact hin 0 4 (by omega)
  · obtain ⟨n, hn, rfl⟩ := h.size
    rw [hflags, hcount]
    exact ⟨n, hn, rfl⟩
  · show o' + node.byteSize ≤ data'.length
    omega

theorem nodeRows_moved {data data' : Bytes} {o' : Nat} {node node' : ArrayNode} (minimum : Nat)
    (hrefs : node'.hasRefs = node.hasRefs) (hoff : node'.offset = o')
    (hpay : payloadOf data' node' = payloadOf data node) :
    (nodeRows isprintable data' minimum node').map (movedRow o' o') =
      (nodeRows isprintable data minimum node).map (movedRow node.offset o') := by
  have hrow : ∀ e r v, movedRow o' o' (makeString node' e r v) =
      movedRow node.offset o' (makeString node e r v) := by
    intro e r v
    simp only [movedRow, makeString, hoff, Prod.mk.injEq, and_true]
    omega
  rw [nodeRows_eq, nodeRows_eq, hrefs, hpay]
  cases node.hasRefs with
  | true => rfl
  | false => simp only [Bool.false_eq_true, if_false, List.map_append, List.map_map,
      Function.comp_def, hrow]

/-- The rows of one array among the rows of a report. -/
theorem carved_of_node {data : Bytes} {header : RealmHeader} (minimum : Nat) {node : ArrayNode}
    (hnode : node ∈ inventory data header) :
    (carved isprintable data header (some minimum)).filter (fun row => row.arrayOffset = node.offset) =
      nodeRows isprintable data minimum node := by
  have hone : (inventory data header).filter (fun n => decide (n.offset = node.offset)) = [node] := by
    apply List.Pairwise.eq_of_mem_iff (r := fun a b : ArrayNode => a.offset < b.offset)
      ((inventory_sorted data header).filter _) (List.pairwise_singleton _ _)
    intro n
    rw [List.mem_filter, decide_eq_true_iff, List.mem_singleton]
    constructor
    · exact fun h => inventory_offset_inj h.1 hnode h.2
    · rintro rfl
      exact ⟨hnode, rfl⟩
  rw [carved, filter_flatMap_rows _ (fun n => decide (n.offset = node.offset)), hone,
    List.flatMap_cons, List.flatMap_nil, List.append_nil]
  intro n _ row hrow
  rw [((nodeRows_spec isprintable data minimum n).1 row hrow).array]

/-- **Carving does not depend on where an array lies.**  A copy of a listed array, in
another file or elsewhere in this one, is listed with the same layout, and the same
strings are carved from it, at the same places in it. -/
theorem carving_position_independent {data data' : Bytes} {header header' : RealmHeader}
    (h : parseHeader data = .ok (some header)) (h' : parseHeader data' = .ok (some header'))
    {minimum : Nat} {analysis analysis' : Analysis ε} {strings strings' : List CarvedString}
    (hrun : analyzeMapping m isprintable resolved digest data (some minimum) =
      .ok (analysis, strings))
    (hrun' : analyzeMapping m isprintable resolved' digest' data' (some minimum) =
      .ok (analysis', strings'))
    {node : ArrayNode} (hnode : node ∈ analysis.arrays) {o' : Nat} (hge : 24 ≤ o') (hal : o' % 8 = 0)
    (hbytes : slice data' o' (o' + node.byteSize) =
      slice data node.offset (node.offset + node.byteSize)) :
    (∃ node' ∈ analysis'.arrays, shape node' = { shape node with offset := o' }) ∧
    (strings'.filter fun row => row.arrayOffset = o').map (movedRow o' o') =
      (strings.filter fun row => row.arrayOffset = node.offset).map (movedRow node.offset o') := by
  obtain ⟨rfl, rfl⟩ := analyzeMapping_ok m isprintable resolved digest h hrun
  obtain ⟨rfl, rfl⟩ := analyzeMapping_ok m isprintable resolved' digest' h' hrun'
  simp only [plaintextAnalysis] at hnode ⊢
  have harray := (inventory_isArray hnode).1
  obtain ⟨node', hnode', ho', hshape⟩ := exists_mem_inventory header'
    (harray.moved hge hal hbytes)
  have hsize : node.byteSize = 8 + node.payloadSize := harray.byteSize_eq
  have hpayload : node'.payloadSize = node.payloadSize := congrArg (fun n => n.payloadSize) hshape
  have hrefs : node'.hasRefs = node.hasRefs := congrArg (fun n => n.hasRefs) hshape
  refine ⟨⟨node', hnode', hshape⟩, ?_⟩
  rw [← ho', carved_of_node isprintable minimum hnode, carved_of_node isprintable minimum hnode', ho']
  refine nodeRows_moved isprintable minimum hrefs ho' ?_
  rw [payloadOf, payloadOf, ho', hpayload, Nat.add_assoc, Nat.add_assoc,
    ← slice_slice data' o' (o' + node.byteSize) _ _ (by omega), hbytes]
  exact slice_slice _ _ _ _ _ (by omega)

/-- `tinyRealm` with a second copy of its text array behind it. -/
def tinyMoved : Bytes := tinyRealm ++ slice tinyRealm 40 56

theorem carving_position_independent_tiny :
    ∃ analysis' strings', analyzeMapping ⟨(), fun _ => (), fun _ => false⟩ Char.isAlpha "/b.realm" ""
        tinyMoved (some 4) = .ok (analysis', strings') ∧
      (∃ node' ∈ analysis'.arrays, node'.offset = 64) ∧
      (strings'.filter fun row => row.arrayOffset = 64).map (movedRow 64 64) =
        [(72, 64, .utf8, "text".toList)] := by
  have h' : parseHeader tinyMoved = .ok (some tinyHeader) := by decide +kernel
  obtain ⟨analysis, hrun⟩ := analyzeMapping_tinyRealm
  have hrun' := (analyzeMapping_eq ⟨(), fun _ => (), fun _ => false⟩ Char.isAlpha "/b.realm" ""
    h' (some 4)).2 (not_carveOverflows tinyMoved (by decide))
  have hat : arrayAt tinyRealm 40 = some ⟨40, 16, 8, 4, 8, 0, false, false, false, [], .orphan⟩ := by
    decide +kernel
  obtain ⟨node, hnode, ho, hshape⟩ := exists_mem_inventory tinyHeader
    ((arrayAt_eq_some_iff _ _ _).mp hat)
  have hsize : node.byteSize = 16 := congrArg (fun n => n.byteSize) hshape
  have hmem : node ∈ analysis.arrays := by
    rw [(analyzeMapping_ok _ _ _ _ parseHeader_tinyRealm hrun).1]
    exact hnode
  obtain ⟨⟨node', hnode', hshape'⟩, hrows⟩ := carving_position_independent
    ⟨(), fun _ => (), fun _ => false⟩ Char.isAlpha "/a.realm" "" "/b.realm" "" parseHeader_tinyRealm
    h' hrun hrun' hmem (show 24 ≤ 64 by decide) (by decide) (by
      rw [hsize, ho]
      decide +kernel)
  refine ⟨_, _, hrun', ⟨node', hnode', congrArg (fun n => n.offset) hshape'⟩, ?_⟩
  rw [hrows, ho]
  rfl

end

end Pyrealm
