import Pyrealm.Forensics.ResultSet
import Pyrealm.Pool.Csv
import Pyrealm.Pool.Json
import Pyrealm.Pool.TextFile

/-!
# The texts of the reports

What `carve_realm` writes into `summary.json`, `arrays.jsonl` and `strings.csv`,
and the reading of the three files by the field names of `models.py`.

    readSummary format (reportBytes .. .summary) = some analysis      (readSummary_reportBytes)
    readArrays format (reportBytes .. .arrays) = some arrays          (readArrays_reportBytes)
    readStrings limit (reportBytes .. .strings) = some strings        (readStrings_reportBytes)

The last needs a reader whose `csv.field_size_limit()` no string exceeds, and
then only that.
-/

namespace Pyrealm

open Py

/-! ## Values as `dict` entries -/

def Reachability.text : Reachability → String
  | .active => "active"
  | .shared => "shared"
  | .inactive => "inactive"
  | .orphan => "orphan"

def Encoding.text : Encoding → String
  | .utf8 => "utf-8"
  | .utf16le => "utf-16le"

def Classification.text : Classification → String
  | .empty => "empty"
  | .plaintextRealm => "plaintext-realm"
  | .possibleEncryptedOrUnsupportedRealm => "possible-encrypted-or-unsupported-realm"
  | .notAPlainRealm => "not-a-plain-realm"

section
variable {ε : Type}

abbrev Entries (ε : Type) := List (PyStr × Json ε)

def jsonNat (n : Nat) : Json ε := .int n

def jsonStr (s : String) : Json ε := .str s.toList

/-- `header._asdict()` -/
def RealmHeader.asdict (header : RealmHeader) : Entries ε :=
  [("top_refs".toList, .arr [jsonNat header.topRefs.1, jsonNat header.topRefs.2]),
    ("format_slots".toList, .arr [jsonNat header.formatSlots.1, jsonNat header.formatSlots.2]),
    ("reserved".toList, jsonNat header.reserved),
    ("flags".toList, jsonNat header.flags),
    ("active_slot".toList, jsonNat header.activeSlot),
    ("active_top_ref".toList, jsonNat header.activeTopRef),
    ("inactive_top_ref".toList, jsonNat header.inactiveTopRef),
    ("streaming".toList, .bool header.streaming)]

/-- `node._asdict()` -/
def ArrayNode.asdict (node : ArrayNode) : Entries ε :=
  [("offset".toList, jsonNat node.offset),
    ("byte_size".toList, jsonNat node.byteSize),
    ("payload_size".toList, jsonNat node.payloadSize),
    ("element_count".toList, jsonNat node.elementCount),
    ("width".toList, jsonNat node.width),
    ("width_scheme".toList, jsonNat node.widthScheme),
    ("has_refs".toList, .bool node.hasRefs),
    ("inner_bptree".toList, .bool node.innerBptree),
    ("context_flag".toList, .bool node.contextFlag),
    ("child_refs".toList, .arr (node.childRefs.map jsonNat)),
    ("reachability".toList, jsonStr node.reachability.text)]

/-- `analysis_dict` -/
def analysisDict (analysis : Analysis ε) : Json ε :=
  .obj [("path".toList, jsonStr analysis.path),
    ("sha256".toList, jsonStr analysis.sha256),
    ("file_size".toList, jsonNat analysis.fileSize),
    ("classification".toList, jsonStr analysis.classification.text),
    ("entropy".toList, .float analysis.entropy),
    ("header".toList, match analysis.header with
      | some header => .obj header.asdict
      | none => .null),
    ("arrays".toList, .arr (analysis.arrays.map fun node => .obj node.asdict)),
    ("warnings".toList, .arr (analysis.warnings.map jsonStr))]

/-- `item._asdict()`, as `csv` renders the values. -/
def CarvedString.asdict (item : CarvedString) : List (PyStr × PyStr) :=
  [("file_offset".toList, decimal item.fileOffset),
    ("array_offset".toList, decimal item.arrayOffset),
    ("encoding".toList, item.encoding.text.toList),
    ("value".toList, item.value),
    ("reachability".toList, item.reachability.text.toList)]

/-- `DictWriter._dict_to_list` with `restval=""`; `extrasaction="raise"` is a `ValueError`. -/
def dictToList (fieldnames : List String) (row : List (PyStr × PyStr)) : Except Exc (List PyStr) :=
  if ∀ e ∈ row, e.1 ∈ fieldnames.map String.toList then
    .ok (fieldnames.map fun name => (Dict.lookupItem name.toList row).getD [])
  else .error .valueError

/-! ## Texts -/

variable (format : FloatFormat ε)

/-- The text that one write adds to a report; a row that `DictWriter` refuses adds none. -/
def Piece.text : Piece ε → PyStr
  | .summaryJson analysis => dumps format ⟨some 2⟩ 0 (analysisDict analysis)
  | .newline => ['\n']
  | .arrayJson node => dumps format ⟨none⟩ 0 (sortKeys (.obj node.asdict))
  | .csvHeader fieldnames => writeRow (fieldnames.map String.toList)
  | .csvRow item =>
    match dictToList CSV_FIELDNAMES item.asdict with
    | .ok fields => writeRow fields
    | .error _ => []

/-- The bytes of a report; `strings.csv` is opened with `newline=""`. -/
def reportBytes (linesep : Linesep) (report : Report) (pieces : List (Piece ε)) : Bytes :=
  match report with
  | .summary | .arrays => textFile linesep (pieces.flatMap (Piece.text format))
  | .strings => encodeUtf8 (pieces.flatMap (Piece.text format))

/-! ## Reading -/

def Reachability.ofText (s : PyStr) : Option Reachability :=
  [Reachability.active, .shared, .inactive, .orphan].find? fun r => r.text.toList = s

def Encoding.ofText (s : PyStr) : Option Encoding :=
  [Encoding.utf8, .utf16le].find? fun e => e.text.toList = s

def Classification.ofText (s : PyStr) : Option Classification :=
  [Classification.empty, .plaintextRealm, .possibleEncryptedOrUnsupportedRealm, .notAPlainRealm].find?
    fun c => c.text.toList = s

def pairOf (value : Json ε) : Option (Nat × Nat) := do
  match ← value.asArr with
  | [a, b] => some (← a.asNat, ← b.asNat)
  | _ => none

def RealmHeader.ofDict (d : Json ε) : Option RealmHeader := do
  some {
    topRefs := ← (← d.get "top_refs".toList) |> pairOf
    formatSlots := ← (← d.get "format_slots".toList) |> pairOf
    reserved := ← (← d.get "reserved".toList).asNat
    flags := ← (← d.get "flags".toList).asNat
    activeSlot := ← (← d.get "active_slot".toList).asNat
    activeTopRef := ← (← d.get "active_top_ref".toList).asNat
    inactiveTopRef := ← (← d.get "inactive_top_ref".toList).asNat
    streaming := ← (← d.get "streaming".toList).asBool }

def ArrayNode.ofDict (d : Json ε) : Option ArrayNode := do
  some {
    offset := ← (← d.get "offset".toList).asNat
    byteSize := ← (← d.get "byte_size".toList).asNat
    payloadSize := ← (← d.get "payload_size".toList).asNat
    elementCount := ← (← d.get "element_count".toList).asNat
    width := ← (← d.get "width".toList).asNat
    widthScheme := ← (← d.get "width_scheme".toList).asNat
    hasRefs := ← (← d.get "has_refs".toList).asBool
    innerBptree := ← (← d.get "inner_bptree".toList).asBool
    contextFlag := ← (← d.get "context_flag".toList).asBool
    childRefs := ← (← (← d.get "child_refs".toList).asArr).mapM Json.asNat
    reachability := ← Reachability.ofText (← (← d.get "reachability".toList).asStr) }

def headerOf : Json ε → Option (Option RealmHeader)
  | .null => some none
  | value => (RealmHeader.ofDict value).map some

def textOf (value : Json ε) : Option String := value.asStr.map String.ofList

def Analysis.ofDict (d : Json ε) : Option (Analysis ε) := do
  some {
    path := ← textOf (← d.get "path".toList)
    sha256 := ← textOf (← d.get "sha256".toList)
    fileSize := ← (← d.get "file_size".toList).asNat
    classification := ← Classification.ofText (← (← d.get "classification".toList).asStr)
    entropy := ← (← d.get "entropy".toList).asFloat
    header := ← headerOf (← d.get "header".toList)
    arrays := ← (← (← d.get "arrays".toList).asArr).mapM ArrayNode.ofDict
    warnings := ← (← (← d.get "warnings".toList).asArr).mapM textOf }

/-- `int(s)` of plain digits. -/
def digitsOf (s : PyStr) : Option Nat :=
  if !s.isEmpty && s.all Char.isDigit then some (digitsValue s) else none

/-- A row of `csv.DictReader`. -/
def CarvedString.ofRow (fieldnames row : List PyStr) : Option CarvedString := do
  let d := fieldnames.zip row
  some {
    fileOffset := ← digitsOf (← Dict.lookupItem "file_offset".toList d)
    arrayOffset := ← digitsOf (← Dict.lookupItem "array_offset".toList d)
    encoding := ← Encoding.ofText (← Dict.lookupItem "encoding".toList d)
    value := ← Dict.lookupItem "value".toList d
    reachability := ← Reachability.ofText (← Dict.lookupItem "reachability".toList d) }

def readSummary (bs : Bytes) : Option (Analysis ε) := do
  Analysis.ofDict (← loads format (← readTextFile bs))

def readArrays (bs : Bytes) : Option (List ArrayNode) := do
  (textLines (← readTextFile bs)).mapM fun line => (loads format line).bind ArrayNode.ofDict

def readStrings (limit : Nat) (bs : Bytes) : Option (List CarvedString) := do
  match ← readRows limit (← decodeUtf8 bs) with
  | [] => some []
  | fieldnames :: rows => rows.mapM (CarvedString.ofRow fieldnames)

end

/-! ## Values -/

section
variable {ε : Type}

theorem Reachability.ofText_text (r : Reachability) : Reachability.ofText r.text.toList = some r := by
  cases r <;> decide

theorem Encoding.ofText_text (e : Encoding) : Encoding.ofText e.text.toList = some e := by
  cases e <;> decide

theorem Classification.ofText_text (c : Classification) :
    Classification.ofText c.text.toList = some c := by
  cases c <;> decide

@[simp] theorem asNat_jsonNat (n : Nat) : (jsonNat n : Json ε).asNat = some n := rfl

@[simp] theorem textOf_jsonStr (s : String) : textOf (jsonStr s : Json ε) = some s :=
  congrArg some (String.ofList_toList)

theorem mapM_map {α β : Type} {f : α → β} {g : β → Option α} (h : ∀ a, g (f a) = some a)
    (items : List α) : (items.map f).mapM g = some items := by
  induction items with
  | nil => rfl
  | cons a items ih =>
    simp only [List.map_cons, List.mapM_cons, h, ih, Option.bind_eq_bind, Option.bind_some,
      Option.pure_def]

theorem ArrayNode.asdict_nodup (node : ArrayNode) : ((node.asdict : Entries ε).map Prod.fst).Nodup := by
  simp only [ArrayNode.asdict, List.map_cons, List.map_nil]
  decide

theorem RealmHeader.asdict_nodup (header : RealmHeader) :
    ((header.asdict : Entries ε).map Prod.fst).Nodup := by
  simp only [RealmHeader.asdict, List.map_cons, List.map_nil]
  decide

theorem sortKeys_refs (refs : List Nat) :
    sortKeys (.arr (refs.map jsonNat) : Json ε) = .arr (refs.map jsonNat) := by
  rw [sortKeys]
  congr 1
  induction refs with
  | nil => rfl
  | cons n refs ih =>
    rw [List.map_cons, sortKeysItems, ih]
    rfl

/-- A node is read from its fields, wherever they stand. -/
theorem ArrayNode.ofDict_of_get {d : Json ε} (node : ArrayNode)
    (h : ∀ key value, (key, value) ∈ (node.asdict : Entries ε) → d.get key = some value) :
    ArrayNode.ofDict d = some node := by
  have h' : ∀ (i : Nat) key value, (node.asdict : Entries ε)[i]? = some (key, value) → d.get key = some value :=
    fun i key value hi => h key value (List.mem_of_getElem? hi)
  simp only [ArrayNode.ofDict, h' 0 _ _ rfl, h' 1 _ _ rfl, h' 2 _ _ rfl, h' 3 _ _ rfl, h' 4 _ _ rfl,
    h' 5 _ _ rfl, h' 6 _ _ rfl, h' 7 _ _ rfl, h' 8 _ _ rfl, h' 9 _ _ rfl, h' 10 _ _ rfl,
    Option.bind_eq_bind, Option.bind_some, asNat_jsonNat, Json.asBool, Json.asArr, Json.asStr, jsonStr,
    mapM_map asNat_jsonNat, Reachability.ofText_text]

theorem RealmHeader.ofDict_asdict (header : RealmHeader) :
    RealmHeader.ofDict (.obj header.asdict : Json ε) = some header := by
  have h : ∀ (i : Nat) key value, (header.asdict : Entries ε)[i]? = some (key, value) →
      (Json.obj header.asdict : Json ε).get key = some value :=
    fun i key value hi => get_of_mem header.asdict_nodup (List.mem_of_getElem? hi)
  simp only [RealmHeader.ofDict, h 0 _ _ rfl, h 1 _ _ rfl, h 2 _ _ rfl, h 3 _ _ rfl, h 4 _ _ rfl,
    h 5 _ _ rfl, h 6 _ _ rfl, h 7 _ _ rfl, pairOf, Option.bind_eq_bind, Option.bind_some,
    asNat_jsonNat, Json.asBool, Json.asArr]

theorem ArrayNode.ofDict_asdict (node : ArrayNode) :
    ArrayNode.ofDict (.obj node.asdict : Json ε) = some node :=
  node.ofDict_of_get fun _ _ hm => get_of_mem node.asdict_nodup hm

/-- The fields of a node are numbers, flags and texts, so sorting goes no deeper. -/
theorem ArrayNode.ofDict_sortKeys (node : ArrayNode) :
    ArrayNode.ofDict (sortKeys (.obj node.asdict) : Json ε) = some node := by
  refine node.ofDict_of_get fun key value hm => ?_
  have hflat : sortKeys value = value := by
    simp only [ArrayNode.asdict, List.mem_cons, Prod.mk.injEq, List.not_mem_nil, or_false] at hm
    rcases hm with ⟨-, rfl⟩ | ⟨-, rfl⟩ | ⟨-, rfl⟩ | ⟨-, rfl⟩ | ⟨-, rfl⟩ | ⟨-, rfl⟩ | ⟨-, rfl⟩ |
      ⟨-, rfl⟩ | ⟨-, rfl⟩ | ⟨-, rfl⟩ | ⟨-, rfl⟩
    all_goals first | exact sortKeys_refs _ | rfl
  rw [get_sortKeys node.asdict_nodup hm, hflat]

theorem Analysis.ofDict_analysisDict (analysis : Analysis ε) :
    Analysis.ofDict (analysisDict analysis) = some analysis := by
  have hnodup : (["path".toList, "sha256".toList, "file_size".toList, "classification".toList,
      "entropy".toList, "header".toList, "arrays".toList, "warnings".toList]).Nodup := by decide
  have h : ∀ entries : Entries ε, analysisDict analysis = .obj entries →
      ∀ (i : Nat) key value, entries[i]? = some (key, value) → (analysisDict analysis).get key = some value := by
    intro entries he i key value hi
    rw [he]
    refine get_of_mem ?_ (List.mem_of_getElem? hi)
    cases he
    exact hnodup
  have hheader : headerOf (match analysis.header with
      | some header => .obj header.asdict
      | none => .null : Json ε) = some analysis.header := by
    cases analysis.header with
    | none => rfl
    | some header => exact congrArg (Option.map some) (header.ofDict_asdict (ε := ε))
  simp only [Analysis.ofDict, h _ rfl 0 _ _ rfl, h _ rfl 1 _ _ rfl, h _ rfl 2 _ _ rfl,
    h _ rfl 3 _ _ rfl, h _ rfl 4 _ _ rfl, h _ rfl 5 _ _ rfl, h _ rfl 6 _ _ rfl, h _ rfl 7 _ _ rfl,
    Option.bind_eq_bind, Option.bind_some, asNat_jsonNat, textOf_jsonStr, Json.asArr, Json.asFloat,
    hheader, mapM_map ArrayNode.ofDict_asdict, mapM_map textOf_jsonStr]
  simp only [jsonStr, Json.asStr, Option.bind_some, Classification.ofText_text]

theorem digitsOf_decimal (n : Nat) : digitsOf (decimal n) = some n := by
  have hempty : (decimal n).isEmpty = false := List.isEmpty_eq_false_iff.mpr (decimal_ne_nil n)
  have hall : (decimal n).all Char.isDigit = true := List.all_eq_true.mpr (decimal_digits n)
  simp only [digitsOf, hempty, hall, Bool.not_false, Bool.and_self, if_true, digitsValue_decimal]

/-- The fields of a row, in the order of the header. -/
def CarvedString.fields (item : CarvedString) : List PyStr :=
  [decimal item.fileOffset, decimal item.arrayOffset, item.encoding.text.toList,
    item.reachability.text.toList, item.value]

/-- No row is refused: the field names are those of the tuple. -/
theorem dictToList_asdict (item : CarvedString) :
    dictToList CSV_FIELDNAMES item.asdict = .ok item.fields := by
  have hnodup : (item.asdict.map Prod.fst).Nodup := by
    simp only [CarvedString.asdict, List.map_cons, List.map_nil]
    decide
  have h : ∀ (i : Nat) key value, item.asdict[i]? = some (key, value) →
      Dict.lookupItem key item.asdict = some value := fun i key value hi =>
    (Dict.lookupItem_eq_some_iff _ _ _ hnodup).mpr (List.mem_of_getElem? hi)
  have hnames : ∀ e ∈ item.asdict, e.1 ∈ CSV_FIELDNAMES.map String.toList := by
    intro e he
    have hkeys : ∀ key ∈ ["file_offset".toList, "array_offset".toList, "encoding".toList, "value".toList,
        "reachability".toList], key ∈ CSV_FIELDNAMES.map String.toList := by decide
    exact hkeys e.1 (List.mem_map_of_mem (f := Prod.fst) he)
  rw [dictToList, if_pos hnames]
  simp only [CSV_FIELDNAMES, List.map_cons, List.map_nil, h 0 _ _ rfl, h 1 _ _ rfl, h 2 _ _ rfl,
    h 3 _ _ rfl, h 4 _ _ rfl, Option.getD_some]
  rfl

theorem CarvedString.ofRow_fields (item : CarvedString) :
    CarvedString.ofRow (CSV_FIELDNAMES.map String.toList) item.fields = some item := by
  have hnodup : (((CSV_FIELDNAMES.map String.toList).zip item.fields).map Prod.fst).Nodup := by
    have hfst : ((CSV_FIELDNAMES.map String.toList).zip item.fields).map Prod.fst =
        CSV_FIELDNAMES.map String.toList := rfl
    rw [hfst]
    decide
  have h : ∀ (i : Nat) key value, ((CSV_FIELDNAMES.map String.toList).zip item.fields)[i]? =
      some (key, value) →
      Dict.lookupItem key ((CSV_FIELDNAMES.map String.toList).zip item.fields) = some value :=
    fun i key value hi => (Dict.lookupItem_eq_some_iff _ _ _ hnodup).mpr (List.mem_of_getElem? hi)
  simp only [CarvedString.ofRow, h 0 _ _ rfl, h 1 _ _ rfl, h 2 _ _ rfl, h 3 _ _ rfl, h 4 _ _ rfl,
    Option.bind_eq_bind, Option.bind_some, digitsOf_decimal, Encoding.ofText_text,
    Reachability.ofText_text]

end

/-! ## Reports -/

section
variable {ε : Type} (format : FloatFormat ε) (linesep : Linesep) (analysis : Analysis ε)
  (strings : List CarvedString)

/-- JSON texts have no carriage returns. -/
theorem no_return (layout : Layout) (value : Json ε) : '\r' ∉ dumps format layout 0 value := by
  intro hc
  rcases ink_dumps format layout value 0 _ hc with h | ⟨-, h⟩
  · exact absurd h (by decide)
  · exact absurd h (by decide)

/-- **`summary.json` reads back.** -/
theorem readSummary_reportBytes :
    readSummary format (reportBytes format linesep .summary (reportPieces analysis strings .summary)) =
      some analysis := by
  have htext : (reportPieces analysis strings .summary).flatMap (Piece.text format) =
      dumps format ⟨some 2⟩ 0 (analysisDict analysis) ++ ['\n'] := by
    simp [reportPieces, Piece.text]
  have hreturn : '\r' ∉ dumps format ⟨some 2⟩ 0 (analysisDict analysis) ++ ['\n'] := by
    simp [no_return]
  rw [readSummary, reportBytes, htext, readTextFile_textFile linesep hreturn]
  simp only [Option.bind_eq_bind, Option.bind_some, loads_dumps format _ _ (Or.inr rfl),
    Analysis.ofDict_analysisDict]

/-- **`arrays.jsonl` reads back**, line by line. -/
theorem readArrays_reportBytes :
    readArrays format (reportBytes format linesep .arrays (reportPieces analysis strings .arrays)) =
      some analysis.arrays := by
  have htext : (reportPieces analysis strings .arrays).flatMap (Piece.text format) =
      analysis.arrays.flatMap fun node => dumps format ⟨none⟩ 0 (sortKeys (.obj node.asdict)) ++ ['\n'] := by
    simp [reportPieces, List.flatMap_assoc, Piece.text]
  have hreturn : '\r' ∉ (analysis.arrays.flatMap fun node =>
      dumps format ⟨none⟩ 0 (sortKeys (.obj node.asdict)) ++ ['\n']) := by
    simp [no_return]
  have hline : ∀ node : ArrayNode, (loads format
      (dumps format ⟨none⟩ 0 (sortKeys (.obj node.asdict)) ++ ['\n'])).bind ArrayNode.ofDict =
        some node := by
    intro node
    rw [loads_dumps format _ _ (Or.inr rfl), Option.bind_some, node.ofDict_sortKeys]
  rw [readArrays, reportBytes, htext, readTextFile_textFile linesep hreturn]
  simp only [Option.bind_eq_bind, Option.bind_some, textLines_lines (fun _ => dumps_line format _)]
  exact mapM_map hline analysis.arrays

/-- The reader's limit lets the report through: its own texts, and the strings. -/
def ReadableWith (limit : Nat) : Prop :=
  Fits limit (CSV_FIELDNAMES.map String.toList) ∧ ∀ item ∈ strings, Fits limit item.fields

/-- **`strings.csv` reads back** exactly when no field exceeds the limit of the reader. -/
theorem readStrings_reportBytes (limit : Nat) :
    readStrings limit (reportBytes format linesep .strings (reportPieces analysis strings .strings)) =
        some strings ↔ ReadableWith strings limit := by
  have htext : (reportPieces analysis strings .strings).flatMap (Piece.text format) =
      (CSV_FIELDNAMES.map String.toList :: strings.map CarvedString.fields).flatMap writeRow := by
    simp [reportPieces, List.flatMap_map, Piece.text, dictToList_asdict]
  have hread := readRows_writeRow limit (CSV_FIELDNAMES.map String.toList :: strings.map CarvedString.fields)
  simp only [List.forall_mem_cons, List.forall_mem_map] at hread
  rw [readStrings, reportBytes, htext, decodeUtf8_encodeUtf8]
  simp only [Option.bind_eq_bind, Option.bind_some, hread, ReadableWith]
  split
  · next h =>
    simp only [Option.bind_some]
    exact iff_of_true (mapM_map CarvedString.ofRow_fields strings) h
  · next h => exact iff_of_false (by simp) h

end

end Pyrealm
