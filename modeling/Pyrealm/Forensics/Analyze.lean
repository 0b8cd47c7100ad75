import Pyrealm.Forensics.Reach
import Pyrealm.Forensics.Strings

/-!
# `_analyze` on the mapped bytes

What `_analyze` does between mapping the file and returning.  The estimate of
`_sample_entropy` is a parameter (`Measures`), so is `str.isprintable`.

    analyzeMapping .. data minimum = .ok (plaintextAnalysis .., carved ..)      (analyzeMapping_eq)

for a recognised file, unless the pattern of the carver overflows.

* `arrays_labelled_by_paths`: the labels are those of the paths on disk.
* `structural_analysis_safe`: no stage can fail, on any bytes.
* `carved_rows_provenance`: every row describes bytes of a listed array.
-/

namespace Pyrealm

open Py

/-! ## Algorithm -/

/-- The estimate of `_sample_entropy`; `high` is `entropy >= ENCRYPTED_ENTROPY_THRESHOLD`. -/
structure Measures (ε : Type) where
  zero : ε
  estimate : Bytes → ε
  high : ε → Bool

/-- At most 1 MiB of the data, from both ends. -/
def entropySample (data : Bytes) : Bytes :=
  let sampleSize := min data.length (1024 * 1024)
  if sampleSize = data.length then data
  else
    let half := sampleSize / 2
    data.take half ++ data.drop (data.length - half)

/-- `path.suffix` -/
def suffixOf (path : String) : List Char :=
  let name := (path.toList.reverse.takeWhile (· ≠ '/')).reverse
  let ending := (name.reverse.takeWhile (· ≠ '.')).reverse
  if 0 < ending.length ∧ ending.length + 1 < name.length then '.' :: ending else []

section
variable {ε : Type} (m : Measures ε) (isprintable : Char → Bool) (resolved digest : String)

def sampleEntropy (data : Bytes) : ε :=
  if data = [] then m.zero else m.estimate (entropySample data)

/-- The result for a file of size 0. -/
def emptyAnalysis : Analysis ε where
  path := resolved
  sha256 := digest
  fileSize := 0
  classification := .empty
  entropy := m.zero
  header := none
  arrays := []
  warnings := ["The file is empty."]

def classifyHeaderless (data : Bytes) (entropy : ε) : Analysis ε :=
  let encryptedLayout := m.high entropy && data.length % ENCRYPTION_BLOCK_SIZE == 0
  let classification := if encryptedLayout then
      Classification.possibleEncryptedOrUnsupportedRealm else .notAPlainRealm
  let warning := if encryptedLayout then
      "The T-DB header is absent, but high byte entropy and a 4096-byte-aligned size " ++
      "are consistent with an encrypted, damaged, or unsupported Realm; these signals " ++
      "alone cannot distinguish them."
    else "The T-DB header is absent; this is not a recognized plaintext Realm."
  let suffixWarning := (suffixOf resolved).map Char.toLower == ".realm".toList && !encryptedLayout
  { path := resolved
    sha256 := digest
    fileSize := data.length
    classification
    entropy
    header := none
    arrays := []
    warnings := [warning] ++ if suffixWarning then
      ["The filename suffix is .realm, but the content does not resemble an encrypted Realm."]
      else [] }

/-- The warnings of a plaintext file. -/
def headerWarnings (header : RealmHeader) (nodes : Dict Nat ArrayNode) (fileSize : Nat) :
    List String :=
  let impossible := [("active", header.activeTopRef), ("inactive", header.inactiveTopRef)].filterMap
    fun e => topReferenceWarning e.1 e.2 fileSize
  let active := if header.activeTopRef ∉ nodes then
      ["The active top reference did not resolve to a recognized array; the file " ++
      "may use an unsupported format or be damaged."] else []
  let inactive := if header.inactiveTopRef ≠ 0 ∧ header.inactiveTopRef ∉ nodes then
      ["The inactive top reference did not resolve to a recognized array."] else []
  let reserved := if header.reserved ≠ 0 then ["The reserved Realm header byte is non-zero."] else []
  impossible ++ active ++ inactive ++ reserved

/-- The `Analysis(...)` of a recognised file. -/
def plaintextAnalysis (data : Bytes) (header : RealmHeader) (nodes : Dict Nat ArrayNode)
    (arrays : List ArrayNode) : Analysis ε where
  path := resolved
  sha256 := digest
  fileSize := data.length
  classification := .plaintextRealm
  entropy := sampleEntropy m data
  header := some header
  arrays := arrays
  warnings := headerWarnings header nodes data.length

/-- The body of `with mmap.mmap(...) as data` in `_analyze`. -/
def analyzeMapping (data : Bytes) (minimumString : Option Nat) :
    Except Exc (Analysis ε × List CarvedString) := do
  let header ← parseHeader data
  match header with
  | none => .ok (classifyHeaderless m resolved digest data (sampleEntropy m data), [])
  | some header => do
    let candidates ← scanArrayCandidates data
    let nodes ← addReferences data candidates
    let arrays ← classifyNodes nodes header
    let strings ← match minimumString with
      | none => .ok []
      | some minimum => if arrays ≠ [] then extractStrings isprintable data arrays minimum else .ok []
    .ok (plaintextAnalysis m resolved digest data header nodes arrays, strings)

end

/-! ## The inventory of a recognised file -/

open Classical in
/-- The label that the two roots of `header` give to the array at `o`. -/
noncomputable def pathLabel (data : Bytes) (header : RealmHeader) (o : Nat) : Reachability :=
  if Reaches data header.activeTopRef o then
    if Reaches data header.inactiveTopRef o then .shared else .active
  else if Reaches data header.inactiveTopRef o then .inactive else .orphan

/-- The arrays of the report: child references and labels filled in. -/
noncomputable def inventory (data : Bytes) (header : RealmHeader) : List ArrayNode :=
  (linked data).items.map fun e => { e.2 with reachability := pathLabel data header e.1 }

theorem labelOf_eq_pathLabel (data : Bytes) (header : RealmHeader) (active inactive : Finset Nat)
    (ha : ∀ x, x ∈ active ↔ Reaches data header.activeTopRef x)
    (hi : ∀ x, x ∈ inactive ↔ Reaches data header.inactiveTopRef x) (o : Nat) :
    labelOf active inactive o = pathLabel data header o := by
  unfold labelOf pathLabel
  by_cases h1 : o ∈ active <;> by_cases h2 : o ∈ inactive <;>
    simp only [h1, h2, ← ha, ← hi, and_true, and_false, if_true, if_false]

/-- The two traversals and the labelling, of the candidates of any file. -/
theorem classifyNodes_linked (data : Bytes) (header : RealmHeader) :
    classifyNodes (linked data) header = .ok (inventory data header) := by
  obtain ⟨active, ha, hma⟩ := reachable_linked data header.activeTopRef
  obtain ⟨inactive, hi, hmi⟩ := reachable_linked data header.inactiveTopRef
  rw [classifyNodes_eq _ _ (linked_keys_sorted data) active inactive ha hi, inventory]
  simp only [labelOf_eq_pathLabel data header active inactive hma hmi]

theorem mem_inventory (data : Bytes) (header : RealmHeader) (node : ArrayNode) :
    node ∈ inventory data header ↔ ∃ o node₀, IsArray data o node₀ ∧
      node = { node₀ with
        childRefs := childRefsOf data (scanned data) o node₀
        reachability := pathLabel data header o } := by
  simp only [inventory, List.mem_map, Prod.exists, ← Dict.get?_eq_some_iff, linked_get?]
  constructor
  · rintro ⟨o, node₁, ⟨node₀, hn, rfl⟩, rfl⟩
    exact ⟨o, node₀, hn, rfl⟩
  · rintro ⟨o, node₀, hn, rfl⟩
    exact ⟨o, _, ⟨node₀, hn, rfl⟩, rfl⟩

theorem linked_item_offset {data : Bytes} {e : Nat × ArrayNode} (he : e ∈ (linked data).items) :
    e.2.offset = e.1 := by
  obtain ⟨node₀, hn, he2⟩ := (linked_get? data e.1 e.2).mp ((Dict.get?_eq_some_iff _ _ _).mpr he)
  rw [he2]
  exact hn.offset_eq

/-- The report lists the candidates, in their order. -/
theorem inventory_offsets (data : Bytes) (header : RealmHeader) :
    (inventory data header).map (fun node => node.offset) = (scanned data).keys := by
  have hkeys : (linked data).keys = (scanned data).keys := by rw [linked, Dict.keys_mapVals]
  rw [inventory, List.map_map, ← hkeys, Dict.keys]
  exact List.map_congr_left fun e he => linked_item_offset he

theorem inventory_sorted (data : Bytes) (header : RealmHeader) :
    (inventory data header).Pairwise fun a b => a.offset < b.offset := by
  have h := scanned_keys_pairwise data
  rw [← inventory_offsets data header, List.pairwise_map] at h
  exact h

/-! ## The analysis of a recognised file -/

section
variable {ε : Type} (m : Measures ε) (isprintable : Char → Bool) (resolved digest : String)

/-- The rows of a report. -/
noncomputable def carved (data : Bytes) (header : RealmHeader) : Option Nat → List CarvedString
  | none => []
  | some minimum => (inventory data header).flatMap (nodeRows isprintable data minimum)

/-- The carver is asked for a count its pattern cannot take. -/
def CarveOverflows (data : Bytes) (minimumString : Option Nat) : Prop :=
  ∃ minimum, minimumString = some minimum ∧ (scanned data).keys ≠ [] ∧ Overflows data minimum

theorem not_carveOverflows (data : Bytes) {minimum : Nat} (h : minimum < MAXREPEAT) :
    ¬ CarveOverflows data (some minimum) := by
  rintro ⟨_, ⟨⟩, -, hover⟩
  exact absurd hover.1 (Nat.not_le.mpr h)

theorem inventory_eq_nil_iff (data : Bytes) (header : RealmHeader) :
    inventory data header = [] ↔ (scanned data).keys = [] := by
  rw [← inventory_offsets data header, List.map_eq_nil_iff]

/-- **The analysis of a recognised file**: it overflows, or returns its
inventory, warnings and rows. -/
theorem analyzeMapping_eq {data : Bytes} {header : RealmHeader}
    (h : parseHeader data = .ok (some header)) (minimumString : Option Nat) :
    (CarveOverflows data minimumString →
      analyzeMapping m isprintable resolved digest data minimumString = .error .overflowError) ∧
    (¬ CarveOverflows data minimumString →
      analyzeMapping m isprintable resolved digest data minimumString =
        .ok (plaintextAnalysis m resolved digest data header (linked data) (inventory data header),
          carved isprintable data header minimumString)) := by
  simp only [analyzeMapping, h, ok_bind, scanArrayCandidates_eq, addReferences_eq,
    classifyNodes_linked]
  cases minimumString with
  | none =>
    refine ⟨?_, fun _ => rfl⟩
    rintro ⟨_, h0, -⟩
    cases h0
  | some minimum =>
    have hov : CarveOverflows data (some minimum) ↔
        inventory data header ≠ [] ∧ Overflows data minimum := by
      rw [Ne, inventory_eq_nil_iff]
      constructor
      · rintro ⟨n, hn, h1, h2⟩
        cases hn
        exact ⟨h1, h2⟩
      · rintro ⟨h1, h2⟩
        exact ⟨minimum, rfl, h1, h2⟩
    rw [hov]
    simp only [extractStrings_eq, carved]
    by_cases hnil : inventory data header = []
    · simp only [hnil, ne_eq, not_true_eq_false, if_false, false_and, not_false_eq_true,
        List.flatMap_nil]
      exact ⟨False.elim, fun _ => trivial⟩
    · simp only [ne_eq, hnil, not_false_eq_true, if_true, true_and]
      by_cases ho : Overflows data minimum
      · rw [if_pos ho]
        exact ⟨fun _ => rfl, fun hn => absurd ho hn⟩
      · rw [if_neg ho]
        exact ⟨fun hn => absurd hn ho, fun _ => rfl⟩

/-- What a returned analysis of a recognised file is. -/
theorem analyzeMapping_ok {data : Bytes} {header : RealmHeader}
    (h : parseHeader data = .ok (some header)) {minimumString : Option Nat} {analysis : Analysis ε}
    {strings : List CarvedString}
    (hrun : analyzeMapping m isprintable resolved digest data minimumString =
      .ok (analysis, strings)) :
    analysis = plaintextAnalysis m resolved digest data header (linked data) (inventory data header) ∧
    strings = carved isprintable data header minimumString := by
  obtain ⟨h1, h2⟩ := analyzeMapping_eq m isprintable resolved digest h minimumString
  by_cases ho : CarveOverflows data minimumString
  · rw [h1 ho] at hrun
    cases hrun
  · rw [h2 ho] at hrun
    cases hrun
    exact ⟨rfl, rfl⟩

/-- Inspection of a recognised file always returns. -/
theorem analyzeMapping_inspect {data : Bytes} {header : RealmHeader}
    (h : parseHeader data = .ok (some header)) :
    analyzeMapping m isprintable resolved digest data none =
      .ok (plaintextAnalysis m resolved digest data header (linked data) (inventory data header), []) := by
  refine (analyzeMapping_eq m isprintable resolved digest h none).2 ?_
  rintro ⟨_, h0, -⟩
  cases h0

end

/-! ## Labels are paths -/

/-- `o` is reachable from a root that a file may lack. -/
def ReachesFrom (data : Bytes) (root : Option Nat) (o : Nat) : Prop :=
  ∃ r, root = some r ∧ Reaches data r o

/-- The values that stand for "no second root" in a header reach nothing. -/
theorem reaches_inactiveField (data : Bytes) (root : Option Nat) (o : Nat) :
    Reaches data (inactiveField root) o ↔ ReachesFrom data root o := by
  have hzero : ¬ Reaches data 0 o := fun h => by
    have hf := scanned_facts h.1
    omega
  have hnull : ¬ Reaches data NULL_TOP_REF o := fun h => by
    have hf := scanned_facts h.1
    rw [NULL_TOP_REF] at hf
    omega
  cases root with
  | none =>
    refine ⟨fun h => absurd h hzero, ?_⟩
    rintro ⟨r, hr, -⟩
    cases hr
  | some r =>
    have hsome : ReachesFrom data (some r) o ↔ Reaches data r o := by
      constructor
      · rintro ⟨r', hr, h⟩
        cases hr
        exact h
      · exact fun h => ⟨r, rfl, h⟩
    rw [hsome]
    show Reaches data (if r = NULL_TOP_REF then 0 else r) o ↔ Reaches data r o
    by_cases hr : r = NULL_TOP_REF
    · rw [if_pos hr, hr]
      exact ⟨fun h => absurd h hzero, fun h => absurd h hnull⟩
    · rw [if_neg hr]

/-- The arrays of a report, against the scanner and the graph on disk. -/
structure LabelledByPaths (data : Bytes) (arrays : List ArrayNode) : Prop where
  listed : ∃ candidates, scanArrayCandidates data = .ok candidates ∧
    ∀ o, o ∈ arrays.map (fun node => node.offset) ↔ o ∈ candidates
  increasing : arrays.Pairwise fun a b => a.offset < b.offset
  shared : ∀ node ∈ arrays, node.reachability = .shared ↔
    ReachesFrom data (some (activeRoot data)) node.offset ∧
    ReachesFrom data (inactiveRoot data) node.offset
  active : ∀ node ∈ arrays, node.reachability = .active ↔
    ReachesFrom data (some (activeRoot data)) node.offset ∧
    ¬ ReachesFrom data (inactiveRoot data) node.offset
  inactive : ∀ node ∈ arrays, node.reachability = .inactive ↔
    ¬ ReachesFrom data (some (activeRoot data)) node.offset ∧
    ReachesFrom data (inactiveRoot data) node.offset
  orphan : ∀ node ∈ arrays, node.reachability = .orphan ↔
    ¬ ReachesFrom data (some (activeRoot data)) node.offset ∧
    ¬ ReachesFrom data (inactiveRoot data) node.offset

theorem pathLabel_iff (data : Bytes) (header : RealmHeader) (o : Nat) :
    (pathLabel data header o = .shared ↔
      Reaches data header.activeTopRef o ∧ Reaches data header.inactiveTopRef o) ∧
    (pathLabel data header o = .active ↔
      Reaches data header.activeTopRef o ∧ ¬ Reaches data header.inactiveTopRef o) ∧
    (pathLabel data header o = .inactive ↔
      ¬ Reaches data header.activeTopRef o ∧ Reaches data header.inactiveTopRef o) ∧
    (pathLabel data header o = .orphan ↔
      ¬ Reaches data header.activeTopRef o ∧ ¬ Reaches data header.inactiveTopRef o) := by
  unfold pathLabel
  by_cases h1 : Reaches data header.activeTopRef o <;>
    by_cases h2 : Reaches data header.inactiveTopRef o <;> simp [h1, h2]

/-- Label and offset of a listed array. -/
theorem inventory_label {data : Bytes} {header : RealmHeader} {node : ArrayNode}
    (h : node ∈ inventory data header) :
    node.reachability = pathLabel data header node.offset ∧ node.offset ∈ scanned data := by
  obtain ⟨o, node₀, hn, rfl⟩ := (mem_inventory data header node).mp h
  simp only [hn.offset_eq]
  exact ⟨trivial, (mem_scanned data o).mpr ⟨node₀, hn⟩⟩

theorem inventory_labelledByPaths {data : Bytes} {header : RealmHeader}
    (h : Recognised data header) : LabelledByPaths data (inventory data header) := by
  have hroots : ∀ o, (Reaches data header.activeTopRef o ↔
        ReachesFrom data (some (activeRoot data)) o) ∧
      (Reaches data header.inactiveTopRef o ↔ ReachesFrom data (inactiveRoot data) o) := by
    intro o
    rw [h.activeTopRef, h.inactiveTopRef, reaches_inactiveField]
    exact ⟨⟨fun hr => ⟨_, rfl, hr⟩, fun ⟨_, hr, h⟩ => by cases hr; exact h⟩, Iff.rfl⟩
  have hlabel : ∀ node ∈ inventory data header, _ := fun node hnode =>
    (inventory_label hnode).1 ▸ pathLabel_iff data header node.offset
  simp only [fun o => (hroots o).1, fun o => (hroots o).2] at hlabel
  refine ⟨⟨_, scanArrayCandidates_eq data, fun o => ?_⟩, inventory_sorted data header,
    fun node hn => (hlabel node hn).1, fun node hn => (hlabel node hn).2.1,
    fun node hn => (hlabel node hn).2.2.1, fun node hn => (hlabel node hn).2.2.2⟩
  rw [inventory_offsets, Dict.mem_def]

section
variable {ε : Type} (m : Measures ε) (isprintable : Char → Bool) (resolved digest : String)

/-- **Every label is decided by the paths of the on-disk graph**, for the
inspection of a recognised file and for every extraction that returns. -/
theorem arrays_labelled_by_paths {data : Bytes} {header : RealmHeader}
    (h : parseHeader data = .ok (some header)) :
    (∃ analysis, analyzeMapping m isprintable resolved digest data none = .ok (analysis, [])) ∧
    ∀ minimumString analysis strings,
      analyzeMapping m isprintable resolved digest data minimumString = .ok (analysis, strings) →
      LabelledByPaths data analysis.arrays := by
  refine ⟨⟨_, analyzeMapping_inspect m isprintable resolved digest h⟩, ?_⟩
  intro minimumString analysis strings hrun
  rw [(analyzeMapping_ok m isprintable resolved digest h hrun).1]
  exact inventory_labelledByPaths ((parseHeader_eq_some_iff data header).mp h)

/-- A file of 64 bytes: a reference array at 24, text at 40, an empty array at 56. -/
def tinyRealm : Bytes :=
  [24, 0, 0, 0, 0, 0, 0, 0, 56, 0, 0, 0, 0, 0, 0, 0] ++ REALM_MAGIC ++ [9, 9, 0, 0] ++
  ARRAY_SIGNATURE ++ [0x47, 0, 0, 1] ++ [40, 0, 0, 0, 0, 0, 0, 0] ++
  ARRAY_SIGNATURE ++ [0x04, 0, 0, 4] ++ [116, 101, 120, 116, 0, 0, 0, 0] ++
  ARRAY_SIGNATURE ++ [0x00, 0, 0, 0]

def tinyHeader : RealmHeader := ⟨(24, 56), (9, 9), 0, 0, 0, 24, 56, false⟩

theorem parseHeader_tinyRealm : parseHeader tinyRealm = .ok (some tinyHeader) := by decide +kernel

/-- With a minimum of 4, its text is carved. -/
theorem analyzeMapping_tinyRealm :
    ∃ analysis, analyzeMapping ⟨(), fun _ => (), fun _ => false⟩ Char.isAlpha "/a.realm" "" tinyRealm
      (some 4) = .ok (analysis, [⟨48, 40, .utf8, "text".toList, .active⟩]) := ⟨_, rfl⟩

theorem arrays_labelled_by_paths_tiny :
    ∃ analysis, analyzeMapping ⟨(), fun _ => (), fun _ => false⟩ Char.isAlpha "/a.realm" "" tinyRealm
        none = .ok (analysis, []) ∧ LabelledByPaths tinyRealm analysis.arrays := by
  obtain ⟨⟨analysis, h⟩, hall⟩ := arrays_labelled_by_paths ⟨(), fun _ => (), fun _ => false⟩
    Char.isAlpha "/a.realm" "" parseHeader_tinyRealm
  exact ⟨analysis, h, hall _ _ _ h⟩

/-! ## Safety -/

/-- What every stage of the structural analysis returns: `sl` takes the slices. -/
structure StagesReturn (sl : Slicer) (data : Bytes) (header : RealmHeader)
    (candidates nodes : Dict Nat ArrayNode) (arrays : List ArrayNode) : Prop where
  scan : scanArrayCandidatesVia sl data = .ok candidates
  references : addReferencesVia sl data candidates = .ok nodes
  lookups : ∀ p node, nodes.get? p = some node → ∀ c ∈ node.childRefs, c ∈ candidates
  traversals : ∃ active inactive, reachable nodes header.activeTopRef = .ok active ∧
    reachable nodes header.inactiveTopRef = .ok inactive
  labels : classifyNodes nodes header = .ok arrays

/-- **No stage can fail on any bytes**: also when a slice that leaves the data
raises (`exactSlice`) the stages return, and what they return with Python's slices. -/
theorem structural_analysis_safe (data : Bytes) :
    (∃ header, parseHeader data = .ok header) ∧
    ∀ header, parseHeader data = .ok (some header) →
      ∃ candidates nodes arrays,
        StagesReturn exactSlice data header candidates nodes arrays ∧
        StagesReturn clampSlice data header candidates nodes arrays ∧
        analyzeMapping m isprintable resolved digest data none =
          .ok (plaintextAnalysis m resolved digest data header nodes arrays, []) := by
  refine ⟨parseHeader_ok data, fun header h => ?_⟩
  have hreturn : ∀ sl, ExactInside sl →
      StagesReturn sl data header (scanned data) (linked data) (inventory data header) := by
    intro sl hsl
    refine ⟨scanArrayCandidatesVia_eq sl hsl data, addReferencesVia_eq sl hsl data, ?_, ?_,
      classifyNodes_linked data header⟩
    · intro p node hp c hc
      exact (mem_linked data c).mp (closedNodes_linked data p c ⟨node, hp, hc⟩)
    · obtain ⟨active, ha, -⟩ := reachable_linked data header.activeTopRef
      obtain ⟨inactive, hi, -⟩ := reachable_linked data header.inactiveTopRef
      exact ⟨active, inactive, ha, hi⟩
  exact ⟨_, _, _, hreturn _ exactInside_exactSlice, hreturn _ exactInside_clampSlice,
    analyzeMapping_inspect m isprintable resolved digest h⟩

/-! ## Large minimums -/

/-- **Extraction never raises in exactly the case that the pattern compiles**: below
the limit of `re`, or where the guard leaves the pattern out. -/
theorem extractStrings_ok_iff (data : Bytes) (nodes : List ArrayNode) {minimum : Nat}
    (_hmin : 1 ≤ minimum) :
    (∃ strings, extractStrings isprintable data nodes minimum = .ok strings) ↔
      minimum < 2 ^ 32 - 1 ∨ data.length / 2 < minimum := by
  have hov : Overflows data minimum ↔ ¬(minimum < 2 ^ 32 - 1 ∨ data.length / 2 < minimum) := by
    rw [Overflows, MAXREPEAT]
    omega
  rw [extractStrings_eq]
  by_cases h : Overflows data minimum
  · rw [if_pos h]
    refine ⟨?_, fun hc => absurd hc (hov.mp h)⟩
    rintro ⟨_, hs⟩
    cases hs
  · rw [if_neg h]
    exact ⟨fun _ => not_not.mp (mt hov.mpr h), fun _ => ⟨_, rfl⟩⟩

/-- The default minimum, in the three arrays of the tiny file. -/
theorem extractStrings_ok_iff_four :
    (inventory tinyRealm tinyHeader).map (fun node => node.offset) = [24, 40, 56] ∧
      ∃ strings, extractStrings Char.isAlpha tinyRealm (inventory tinyRealm tinyHeader) 4 =
        .ok strings :=
  ⟨(inventory_offsets tinyRealm tinyHeader).trans (by decide +kernel),
    (extractStrings_ok_iff Char.isAlpha tinyRealm (inventory tinyRealm tinyHeader) (by decide)).mpr
      (Or.inl (by decide))⟩

/-- The tiny file, followed by 8 GiB of zeros. -/
def hugeRealm : Bytes := tinyRealm ++ List.replicate (2 ^ 33) 0

theorem agree_hugeRealm (a b : Nat) (hb : b ≤ 64) : Agree tinyRealm hugeRealm a b where
  le := by
    have hlen : tinyRealm.length = 64 := rfl
    rw [hugeRealm, List.length_append, hlen]
    omega
  eq := by
    have htake : hugeRealm.take 64 = tinyRealm := List.take_left' rfl
    rw [← htake, slice_take _ 64 a b hb]

/-- A recognised file with an array, whose strings of 2^32 - 1 characters are asked for. -/
theorem extraction_overflows :
    parseHeader hugeRealm = .ok (some tinyHeader) ∧
      analyzeMapping ⟨(), fun _ => (), fun _ => false⟩ Char.isAlpha "/a.realm" "" hugeRealm
        (some (2 ^ 32 - 1)) = .error .overflowError ∧
      ∀ nodes, extractStrings Char.isAlpha hugeRealm nodes (2 ^ 32 - 1) = .error .overflowError := by
  have hlen : hugeRealm.length = 64 + 2 ^ 33 := by
    rw [hugeRealm, List.length_append, List.length_replicate]
    rfl
  have hov : Overflows hugeRealm (2 ^ 32 - 1) := by
    rw [Overflows, hlen]
    decide
  have hheader : parseHeader hugeRealm = .ok (some tinyHeader) := by
    rw [parseHeader_eq_some_iff]
    exact Recognised.agree ((parseHeader_eq_some_iff _ _).mp parseHeader_tinyRealm) rfl
      (agree_hugeRealm 0 24 (by decide))
  refine ⟨hheader, ?_, fun nodes => ?_⟩
  · refine (analyzeMapping_eq _ _ _ _ hheader _).1 ⟨_, rfl, ?_, hov⟩
    obtain ⟨node, hat⟩ : ∃ node, arrayAt tinyRealm 56 = some node :=
      Option.isSome_iff_exists.mp (by decide +kernel)
    have hn := (arrayAt_eq_some_iff _ _ _).mp hat
    have hm : 56 ∈ scanned hugeRealm := by
      refine (mem_scanned _ _).mpr ⟨node, hn.agree (agree_hugeRealm _ _ ?_)⟩
      exact hn.bound
    rw [Dict.mem_def] at hm
    exact List.ne_nil_of_mem hm
  · rw [extractStrings_eq, if_pos hov]

/-! ## Provenance -/

/-- A carved row, traced to an array of the report and to the bytes of the file. -/
structure Provenance (data : Bytes) (minimum : Nat) (arrays : List ArrayNode) (row : CarvedString) :
    Prop where
  array : ∃ node ∈ arrays, row.arrayOffset = node.offset ∧ node.hasRefs = false ∧
    row.reachability = node.reachability ∧
    node.offset + 8 ≤ row.fileOffset ∧
    row.fileOffset + (encodeAs row.encoding row.value).length ≤ node.offset + node.byteSize ∧
    node.offset + node.byteSize ≤ data.length
  long : minimum ≤ row.value.length
  bytes : slice data row.fileOffset (row.fileOffset + (encodeAs row.encoding row.value).length) =
    encodeAs row.encoding row.value

theorem inventory_bound {data : Bytes} {header : RealmHeader} {node : ArrayNode}
    (h : node ∈ inventory data header) :
    node.byteSize = 8 + node.payloadSize ∧ node.offset + node.byteSize ≤ data.length := by
  obtain ⟨o, node₀, hn, rfl⟩ := (mem_inventory data header node).mp h
  have hb := hn.bound
  rw [← hn.offset_eq] at hb
  exact ⟨hn.byteSize_eq, hb⟩

/-- Rows of arrays in offset order: ordered by array, and all distinct. -/
theorem flatMap_nodeRows_spec (data : Bytes) (minimum : Nat) (arrays : List ArrayNode)
    (h : arrays.Pairwise fun a b => a.offset < b.offset) :
    (arrays.flatMap (nodeRows isprintable data minimum)).Pairwise
      (fun a b => a.arrayOffset ≤ b.arrayOffset) ∧
    ((arrays.flatMap (nodeRows isprintable data minimum)).map rowKey).Nodup := by
  induction arrays with
  | nil => exact ⟨List.Pairwise.nil, List.nodup_nil⟩
  | cons node arrays ih =>
    rw [List.pairwise_cons] at h
    obtain ⟨ih1, ih2⟩ := ih h.2
    obtain ⟨hrow, hnodup⟩ := nodeRows_spec isprintable data minimum node
    have hlt : ∀ a ∈ nodeRows isprintable data minimum node,
        ∀ b ∈ arrays.flatMap (nodeRows isprintable data minimum), a.arrayOffset < b.arrayOffset := by
      intro a ha b hb
      obtain ⟨node', hnode', hb'⟩ := List.mem_flatMap.mp hb
      rw [(hrow a ha).array, ((nodeRows_spec isprintable data minimum node').1 b hb').array]
      exact h.1 node' hnode'
    rw [List.flatMap_cons]
    constructor
    · rw [List.pairwise_append]
      refine ⟨?_, ih1, fun a ha b hb => Nat.le_of_lt (hlt a ha b hb)⟩
      exact List.pairwise_of_forall_mem_list fun a ha b hb => by
        rw [(hrow a ha).array, (hrow b hb).array]
    · rw [List.map_append, List.nodup_append]
      refine ⟨hnodup, ih2, ?_⟩
      intro x hx y hy he
      obtain ⟨a, ha, rfl⟩ := List.mem_map.mp hx
      obtain ⟨b, hb, rfl⟩ := List.mem_map.mp hy
      have hl := hlt a ha b hb
      simp only [rowKey, Prod.mk.injEq] at he
      omega

/-- **Every carved row is evidence**: text of a listed array that holds no
references, at its place in the file; rows are ordered and distinct. -/
theorem carved_rows_provenance {data : Bytes} {header : RealmHeader}
    (h : parseHeader data = .ok (some header)) {minimum : Nat} (_hmin : 1 ≤ minimum)
    {analysis : Analysis ε} {strings : List CarvedString}
    (hrun : analyzeMapping m isprintable resolved digest data (some minimum) =
      .ok (analysis, strings)) :
    (∀ row ∈ strings, Provenance data minimum analysis.arrays row) ∧
    strings.Pairwise (fun a b => a.arrayOffset ≤ b.arrayOffset) ∧
    (strings.map fun row => (row.arrayOffset, row.encoding, row.fileOffset)).Nodup := by
  obtain ⟨rfl, rfl⟩ := analyzeMapping_ok m isprintable resolved digest h hrun
  refine ⟨?_, flatMap_nodeRows_spec isprintable data minimum _ (inventory_sorted data header)⟩
  intro row hrow
  obtain ⟨node, hnode, hrow⟩ := List.mem_flatMap.mp hrow
  have hr := (nodeRows_spec isprintable data minimum node).1 row hrow
  obtain ⟨hsize, hbound⟩ := inventory_bound hnode
  have hstop := hr.stop
  exact ⟨⟨node, hnode, hr.array, hr.noRefs, hr.label, hr.start, by omega, hbound⟩, hr.long, hr.bytes⟩

theorem carved_rows_provenance_tiny :
    ∃ analysis row, analyzeMapping ⟨(), fun _ => (), fun _ => false⟩ Char.isAlpha "/a.realm" ""
        tinyRealm (some 4) = .ok (analysis, [row]) ∧
      row.value = "text".toList ∧ Provenance tinyRealm 4 analysis.arrays row :=
  ⟨_, ⟨48, 40, .utf8, "text".toList, .active⟩, rfl, rfl,
    (carved_rows_provenance ⟨(), fun _ => (), fun _ => false⟩ Char.isAlpha "/a.realm" ""
      parseHeader_tinyRealm (by decide) rfl).1 _ List.mem_cons_self⟩

end

end Pyrealm
