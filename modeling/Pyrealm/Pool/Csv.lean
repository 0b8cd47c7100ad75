import Pyrealm.Pool.PyBytes

/-!
# CSV texts

`csv.writer` and `csv.reader` with the `excel` dialect: the writer quotes what it
has to, the reader is the state machine of the module, over the lines of a file
opened with `newline=""`.

    readRows limit (rows.flatMap writeRow) = some rows if every field fits, else none      (readRows_writeRow)

* `readText_field`: what the machine does with one field, quoted or not.
* `readText_row`: one row is one record, whatever line ends its fields contain.
-/

namespace Py

/-! ## Writing -/

/-- A character for which `QUOTE_MINIMAL` quotes a field. -/
def needsQuotes (c : Char) : Bool := c = ',' || c = '"' || c = '\r' || c = '\n'

def doubled (c : Char) : PyStr := if c = '"' then ['"', '"'] else [c]

def quoteField (field : PyStr) : PyStr := '"' :: (field.flatMap doubled ++ ['"'])

def writeField (field : PyStr) : PyStr := if field.any needsQuotes then quoteField field else field

/-- The fields behind the first. -/
def writeFields (fields : List PyStr) : PyStr := fields.flatMap fun field => ',' :: writeField field

/-- `writer.writerow(fields)`; a single empty field is quoted. -/
def writeRow : List PyStr → PyStr
  | [] => ['\r', '\n']
  | [[]] => ['"', '"', '\r', '\n']
  | field :: fields => writeField field ++ writeFields fields ++ ['\r', '\n']

/-! ## Reading -/

inductive CsvState where
  | startRecord
  | startField
  | inField
  | inQuotedField
  | quoteInQuotedField
  | eatCrnl
deriving DecidableEq, Repr

structure CsvReader where
  state : CsvState
  field : PyStr
  fields : List PyStr
deriving DecidableEq, Repr

/-- `parse_reset` -/
def CsvReader.start : CsvReader := ⟨.startRecord, [], []⟩

/-- `parse_save_field` -/
def CsvReader.save (r : CsvReader) (state : CsvState) : CsvReader := ⟨state, [], r.fields ++ [r.field]⟩

/-- `parse_add_char`; the field may not grow beyond `csv.field_size_limit()`. -/
def CsvReader.add (limit : Nat) (r : CsvReader) (c : Char) (state : CsvState) : Option CsvReader :=
  if limit ≤ r.field.length then none else some ⟨state, r.field ++ [c], r.fields⟩

/-- The end of a field at a line end; `none` stands for the end of the line. -/
def afterField : Option Char → CsvState
  | none => .startRecord
  | some _ => .eatCrnl

def isLineEnd : Option Char → Bool
  | none => true
  | some c => c = '\n' || c = '\r'

def processStartField (limit : Nat) (r : CsvReader) (c : Option Char) : Option CsvReader :=
  if isLineEnd c then some (r.save (afterField c))
  else match c with
    | none => none
    | some c =>
      if c = '"' then some { r with state := .inQuotedField }
      else if c = ',' then some (r.save .startField)
      else r.add limit c .inField

/-- `parse_process_char` -/
def processChar (limit : Nat) (r : CsvReader) (c : Option Char) : Option CsvReader :=
  match r.state with
  | .startRecord =>
    if c = none then some r
    else if isLineEnd c then some { r with state := .eatCrnl }
    else processStartField limit r c
  | .startField => processStartField limit r c
  | .inField =>
    if isLineEnd c then some (r.save (afterField c))
    else match c with
      | none => none
      | some c => if c = ',' then some (r.save .startField) else r.add limit c .inField
  | .inQuotedField =>
    match c with
    | none => some r
    | some c =>
      if c = '"' then some { r with state := .quoteInQuotedField } else r.add limit c .inQuotedField
  | .quoteInQuotedField =>
    if c = some '"' then r.add limit '"' .inQuotedField
    else if c = some ',' then some (r.save .startField)
    else if isLineEnd c then some (r.save (afterField c))
    else match c with
      | none => none
      | some c => r.add limit c .inField
  | .eatCrnl =>
    if c = none then some { r with state := .startRecord }
    else if isLineEnd c then some r
    else none

/-- The characters of a line, and its end. -/
def processLine (limit : Nat) : CsvReader → PyStr → Option CsvReader
  | r, [] => processChar limit r none
  | r, c :: s => (processChar limit r (some c)).bind fun r => processLine limit r s

/-- The lines of a file opened with `newline=""`, with their ends. -/
def splitLines : PyStr → List PyStr
  | [] => []
  | '\n' :: s => ['\n'] :: splitLines s
  | '\r' :: '\n' :: s => ['\r', '\n'] :: splitLines s
  | '\r' :: s => ['\r'] :: splitLines s
  | c :: s =>
    match splitLines s with
    | [] => [[c]]
    | line :: lines => (c :: line) :: lines

/-- `Reader_iternext`, again and again. -/
def readRecords (limit : Nat) : CsvReader → List PyStr → Option (List (List PyStr))
  | r, [] =>
    if r.field ≠ [] ∨ r.state = .inQuotedField then some [(r.save .startRecord).fields] else some []
  | r, line :: lines => do
    let r ← processLine limit r line
    if r.state = .startRecord then do
      let rows ← readRecords limit .start lines
      some (r.fields :: rows)
    else readRecords limit r lines

/-- `list(csv.reader(file))` -/
def readRows (limit : Nat) (text : PyStr) : Option (List (List PyStr)) :=
  readRecords limit .start (splitLines text)

/-! ## The machine on a text -/

section
variable (limit : Nat)

def readText (r : CsvReader) (s : PyStr) : Option (List (List PyStr)) := readRecords limit r (splitLines s)

theorem splitLines_ne_nil {s : PyStr} (h : s ≠ []) : splitLines s ≠ [] := by
  fun_cases splitLines s <;> simp_all

/-- A character inside a line. -/
theorem readText_cons (r : CsvReader) {c : Char} {s : PyStr} (hc : c ≠ '\n' ∧ c ≠ '\r') (hs : s ≠ []) :
    readText limit r (c :: s) = (processChar limit r (some c)).bind fun r => readText limit r s := by
  obtain ⟨line, lines, hl⟩ := List.exists_cons_of_ne_nil (splitLines_ne_nil hs)
  have hsplit : splitLines (c :: s) = (c :: line) :: lines := by
    rw [splitLines, hl]
    · exact hc.1
    · exact fun _ h _ => hc.2 h
    · exact hc.2
  simp only [readText, hsplit, hl, readRecords, processLine, Option.bind_eq_bind, Option.bind_assoc]

/-- What the end of a line does. -/
def endLine (s : PyStr) (r : CsvReader) : Option (List (List PyStr)) :=
  (processChar limit r none).bind fun r =>
    if r.state = .startRecord then (readText limit .start s).bind fun rows => some (r.fields :: rows)
    else readText limit r s

theorem readText_newline (r : CsvReader) (s : PyStr) :
    readText limit r ('\n' :: s) = (processChar limit r (some '\n')).bind (endLine limit s) := by
  simp only [readText, splitLines, readRecords, processLine, Option.bind_eq_bind, Option.bind_assoc]
  rfl

theorem readText_crlf (r : CsvReader) (s : PyStr) :
    readText limit r ('\r' :: '\n' :: s) = (processChar limit r (some '\r')).bind fun r =>
      (processChar limit r (some '\n')).bind (endLine limit s) := by
  simp only [readText, splitLines, readRecords, processLine, Option.bind_eq_bind, Option.bind_assoc]
  rfl

theorem readText_return (r : CsvReader) {s : PyStr} (hs : ∀ t, s ≠ '\n' :: t) :
    readText limit r ('\r' :: s) = (processChar limit r (some '\r')).bind (endLine limit s) := by
  rw [readText, splitLines]
  · simp only [readRecords, processLine, Option.bind_eq_bind, Option.bind_assoc]
    rfl
  · exact hs

/-! ## Fields -/

theorem add_eq_some {r r' : CsvReader} {c : Char} {state : CsvState}
    (h : r.add limit c state = some r') :
    r' = ⟨state, r.field ++ [c], r.fields⟩ ∧ r.field.length < limit := by
  unfold CsvReader.add at h
  split at h
  · cases h
  · next hlimit =>
    cases h
    exact ⟨rfl, by omega⟩

/-- In a quoted field, line ends are characters like others. -/
theorem readText_quoted (r : CsvReader) (hr : r.state = .inQuotedField) {c : Char} (hc : c ≠ '"')
    {s : PyStr} (hs : s ≠ []) :
    readText limit r (c :: s) = (r.add limit c .inQuotedField).bind fun r => readText limit r s := by
  have hstep : ∀ r : CsvReader, r.state = .inQuotedField → ∀ c ≠ '"',
      processChar limit r (some c) = r.add limit c .inQuotedField := by
    intro r hr c hc
    simp only [processChar, hr, if_neg hc]
  have hadd : ∀ {r r' : CsvReader} {c}, r.add limit c .inQuotedField = some r' →
      r'.state = .inQuotedField := fun h => by rw [(add_eq_some limit h).1]
  have hend : ∀ r : CsvReader, r.state = .inQuotedField → endLine limit s r = readText limit r s := by
    intro r hr
    simp only [endLine, processChar, hr, Option.bind_some]
    rw [if_neg (by decide)]
  by_cases h1 : c = '\n'
  · subst h1
    rw [readText_newline, hstep r hr _ hc]
    exact Option.bind_congr fun r' h => hend r' (hadd h)
  by_cases h2 : c = '\r'
  · subst h2
    by_cases h : ∃ t, s = '\n' :: t
    · -- the two characters of one line end
      obtain ⟨t, rfl⟩ := h
      rw [readText_crlf, hstep r hr _ hc]
      refine Option.bind_congr fun r' h => ?_
      rw [readText_newline]
    · rw [readText_return _ _ fun t ht => h ⟨t, ht⟩, hstep r hr _ hc]
      exact Option.bind_congr fun r' h => hend r' (hadd h)
  · rw [readText_cons _ _ ⟨h1, h2⟩ hs, hstep r hr _ hc]

/-- A doubled quote is one quote. -/
theorem readText_doubled (r : CsvReader) (hr : r.state = .inQuotedField) (c : Char) {s : PyStr}
    (hs : s ≠ []) :
    readText limit r (doubled c ++ s) =
      (r.add limit c .inQuotedField).bind fun r => readText limit r s := by
  unfold doubled
  split
  · next h =>
    subst h
    rw [List.cons_append, List.singleton_append, readText_cons _ _ (by decide) (by simp)]
    simp only [processChar, hr, if_true, Option.bind_some]
    rw [readText_cons _ _ (by decide) hs]
    rfl
  · next h => exact readText_quoted limit r hr h hs

/-- The characters of a field, one after the other. -/
def CsvReader.addAll (r : CsvReader) (text : PyStr) : Option CsvReader :=
  if limit < r.field.length + text.length then none else some { r with field := r.field ++ text }

theorem addAll_cons (r : CsvReader) (c : Char) (text : PyStr) :
    r.addAll limit (c :: text) = (r.add limit c r.state).bind fun r => r.addAll limit text := by
  unfold CsvReader.addAll CsvReader.add
  by_cases h : limit ≤ r.field.length
  · rw [if_pos h, if_pos (by rw [List.length_cons]; omega)]
    rfl
  · rw [if_neg h, Option.bind_some]
    simp only [List.length_append, List.length_cons, List.length_nil, List.append_assoc,
      List.singleton_append, Nat.zero_add, Nat.add_assoc, Nat.add_comm text.length]

theorem readText_quotedText (text : PyStr) : ∀ (r : CsvReader), r.state = .inQuotedField →
    r.field.length ≤ limit → ∀ {s : PyStr}, s ≠ [] →
    readText limit r (text.flatMap doubled ++ s) =
      (r.addAll limit text).bind fun r => readText limit r s := by
  induction text with
  | nil =>
    intro r hr hl s hs
    rw [CsvReader.addAll, if_neg (by rw [List.length_nil]; omega)]
    simp
  | cons c text ih =>
    intro r hr hl s hs
    rw [List.flatMap_cons, List.append_assoc, readText_doubled limit r hr c (by simp [hs]), addAll_cons,
      Option.bind_assoc, hr]
    refine Option.bind_congr fun r' h => ?_
    obtain ⟨rfl, hlt⟩ := add_eq_some limit h
    exact ih _ rfl (by rw [List.length_append, List.length_singleton]; omega) hs

/-- Characters that need no quotes. -/
theorem readText_plainText (text : PyStr) : ∀ (r : CsvReader), r.state = .inField →
    r.field.length ≤ limit → (∀ c ∈ text, needsQuotes c = false) → ∀ {s : PyStr}, s ≠ [] →
    readText limit r (text ++ s) = (r.addAll limit text).bind fun r => readText limit r s := by
  induction text with
  | nil =>
    intro r hr hl _ s hs
    rw [CsvReader.addAll, if_neg (by rw [List.length_nil]; omega)]
    simp
  | cons c text ih =>
    intro r hr hl hplain s hs
    obtain ⟨⟨⟨h1, h2⟩, h3⟩, h4⟩ : ((c ≠ ',' ∧ c ≠ '"') ∧ c ≠ '\r') ∧ c ≠ '\n' := by
      simpa [needsQuotes] using hplain c List.mem_cons_self
    have hstep : processChar limit r (some c) = r.add limit c .inField := by
      simp [processChar, hr, isLineEnd, h1, h3, h4]
    rw [List.cons_append, readText_cons _ _ ⟨h4, h3⟩ (by simp [hs]), hstep, addAll_cons,
      Option.bind_assoc, hr]
    refine Option.bind_congr fun r' h => ?_
    obtain ⟨rfl, hlt⟩ := add_eq_some limit h
    exact ih _ rfl (by rw [List.length_append, List.length_singleton]; omega)
      (fun d hd => hplain d (List.mem_cons_of_mem _ hd)) hs

/-- Where the machine stands behind a field. -/
def fieldState (field : PyStr) : CsvState :=
  if field.any needsQuotes then .quoteInQuotedField else if field = [] then .startField else .inField

/-- **One field**, quoted or not; one that is too long stops the reader. -/
theorem readText_field (field : PyStr) (fields : List PyStr) {s : PyStr} (hs : s ≠ []) :
    readText limit ⟨.startField, [], fields⟩ (writeField field ++ s) =
      if limit < field.length then none else readText limit ⟨fieldState field, field, fields⟩ s := by
  unfold writeField fieldState
  by_cases hq : field.any needsQuotes
  · rw [if_pos hq, if_pos hq, quoteField, List.cons_append, List.append_assoc, List.singleton_append,
      readText_cons _ _ (by decide) (by simp)]
    have hopen : processChar limit ⟨.startField, [], fields⟩ (some '"') =
        some ⟨.inQuotedField, [], fields⟩ := rfl
    rw [hopen, Option.bind_some, readText_quotedText limit field _ rfl (Nat.zero_le _) (by simp),
      CsvReader.addAll]
    simp only [List.length_nil, Nat.zero_add, List.nil_append]
    split
    · rfl
    · rw [Option.bind_some, readText_cons _ _ (by decide) hs]
      rfl
  · rw [if_neg hq, if_neg hq]
    have hplain : ∀ c ∈ field, needsQuotes c = false := by simpa using hq
    cases field with
    | nil => rfl
    | cons c text =>
      obtain ⟨⟨⟨h1, h2⟩, h3⟩, h4⟩ : ((c ≠ ',' ∧ c ≠ '"') ∧ c ≠ '\r') ∧ c ≠ '\n' := by
        simpa [needsQuotes] using hplain c List.mem_cons_self
      have hstep : processChar limit ⟨.startField, [], fields⟩ (some c) =
          CsvReader.add limit ⟨.inField, [], fields⟩ c .inField := by
        simp [processChar, processStartField, isLineEnd, h1, h2, h3, h4, CsvReader.add]
      have hall := addAll_cons limit ⟨.inField, [], fields⟩ c text
      have hstate : (if c :: text = [] then CsvState.startField else .inField) = .inField :=
        if_neg (List.cons_ne_nil c text)
      rw [List.cons_append, readText_cons _ _ ⟨h4, h3⟩ (by simp [hs]), hstep, hstate]
      calc _ = (CsvReader.addAll limit ⟨.inField, [], fields⟩ (c :: text)).bind
            fun r => readText limit r s := by
            rw [hall, Option.bind_assoc]
            refine Option.bind_congr fun r' h => ?_
            obtain ⟨rfl, hlt⟩ := add_eq_some limit h
            exact readText_plainText limit text _ rfl
              (by rw [List.length_append, List.length_singleton]; omega)
              (fun d hd => hplain d (List.mem_cons_of_mem _ hd)) hs
        _ = _ := by
            rw [CsvReader.addAll]
            simp only [List.length_nil, Nat.zero_add, List.nil_append]
            split <;> rfl

/-! ## Rows -/

theorem readText_comma (field : PyStr) (fields : List PyStr) {s : PyStr} (hs : s ≠ []) :
    readText limit ⟨fieldState field, field, fields⟩ (',' :: s) =
      readText limit ⟨.startField, [], fields ++ [field]⟩ s := by
  rw [readText_cons _ _ (by decide) hs]
  unfold fieldState
  split
  · rfl
  · split <;> rfl

theorem readText_rowEnd (field : PyStr) (fields : List PyStr) (s : PyStr) :
    readText limit ⟨fieldState field, field, fields⟩ ('\r' :: '\n' :: s) =
      (readText limit .start s).bind fun rows => some ((fields ++ [field]) :: rows) := by
  rw [readText_crlf]
  unfold fieldState
  split
  · rfl
  · split <;> rfl

/-- Every field is within the reader's limit. -/
def Fits (fields : List PyStr) : Prop := ∀ field ∈ fields, field.length ≤ limit

instance (fields : List PyStr) : Decidable (Fits limit fields) :=
  inferInstanceAs (Decidable (∀ field ∈ fields, _))

theorem fits_cons (field : PyStr) (fields : List PyStr) :
    Fits limit (field :: fields) ↔ field.length ≤ limit ∧ Fits limit fields := List.forall_mem_cons

/-- The fields behind the first, and the end of the row. -/
theorem readText_fields (fields : List PyStr) : ∀ (field : PyStr) (before : List PyStr) (s : PyStr),
    readText limit ⟨fieldState field, field, before⟩ (writeFields fields ++ ('\r' :: '\n' :: s)) =
      if Fits limit fields then
        (readText limit .start s).bind fun rows => some ((before ++ field :: fields) :: rows)
      else none := by
  induction fields with
  | nil =>
    intro field before s
    rw [if_pos (by simp [Fits])]
    exact readText_rowEnd limit field before s
  | cons next fields ih =>
    intro field before s
    rw [writeFields, List.flatMap_cons, List.cons_append, List.cons_append, List.append_assoc,
      readText_comma _ _ _ (by simp), readText_field _ _ _ (by simp)]
    have hrest := ih next (before ++ [field]) s
    rw [writeFields] at hrest
    simp only [hrest, fits_cons, List.append_assoc, List.singleton_append]
    by_cases hlimit : limit < next.length
    · rw [if_pos hlimit, if_neg (by omega)]
    · rw [if_neg hlimit]
      simp [Nat.not_lt.1 hlimit]

/-- The first field of a record. -/
theorem readText_start {c : Char} {s : PyStr} (hc : c ≠ '\n' ∧ c ≠ '\r') (hs : s ≠ []) :
    readText limit .start (c :: s) = readText limit ⟨.startField, [], []⟩ (c :: s) := by
  rw [readText_cons _ _ hc hs, readText_cons _ _ hc hs]
  have hstep : processChar limit .start (some c) = processChar limit ⟨.startField, [], []⟩ (some c) := by
    simp only [processChar, CsvReader.start, processStartField, isLineEnd, hc.1, hc.2]
    rfl
  rw [hstep]

/-- How a row starts. -/
theorem writeRow_head {field : PyStr} {fields : List PyStr} (h : field ≠ [] ∨ fields ≠ []) (s : PyStr) :
    ∃ c t, writeField field ++ (writeFields fields ++ ('\r' :: '\n' :: s)) = c :: t ∧
      (c ≠ '\n' ∧ c ≠ '\r') ∧ t ≠ [] := by
  unfold writeField
  split
  · exact ⟨_, _, rfl, by decide, by simp⟩
  · next hq =>
    cases field with
    | nil =>
      cases fields with
      | nil => simp at h
      | cons next fields => exact ⟨',', _, rfl, by decide, by simp⟩
    | cons c text =>
      have hc : needsQuotes c = false := by
        have hplain : ∀ d ∈ c :: text, needsQuotes d = false := by simpa using hq
        exact hplain c List.mem_cons_self
      simp only [needsQuotes, Bool.or_eq_false_iff, decide_eq_false_iff_not] at hc
      exact ⟨c, _, rfl, ⟨hc.2, hc.1.2⟩, by simp⟩

/-- **One row is one record.** -/
theorem readText_row (fields : List PyStr) (s : PyStr) :
    readText limit .start (writeRow fields ++ s) =
      if Fits limit fields then (readText limit .start s).bind fun rows => some (fields :: rows)
      else none := by
  fun_cases writeRow fields
  · rw [if_pos (by simp [Fits])]
    exact readText_crlf limit .start s
  · rw [if_pos (by simp [Fits])]
    exact (readText_cons limit .start (by decide) (by simp)).trans
      ((readText_cons limit _ (by decide) (by simp)).trans (readText_crlf limit _ s))
  · next field fields hne =>
    have hrow : field ≠ [] ∨ fields ≠ [] := by
      by_contra hnone
      simp only [not_or, Classical.not_not] at hnone
      exact hne hnone.1 hnone.2
    obtain ⟨c, t, ht, hc, htne⟩ := writeRow_head hrow s
    have htext : writeField field ++ writeFields fields ++ ['\r', '\n'] ++ s =
        writeField field ++ (writeFields fields ++ ('\r' :: '\n' :: s)) := by simp
    have hfirst : readText limit .start (c :: t) = readText limit ⟨.startField, [], []⟩ (c :: t) :=
      readText_start limit hc htne
    rw [htext, ht, hfirst, ← ht, readText_field _ _ _ (by simp), readText_fields]
    simp only [fits_cons, List.nil_append]
    by_cases hlimit : limit < field.length
    · rw [if_pos hlimit, if_neg (by omega)]
    · rw [if_neg hlimit]
      simp [Nat.not_lt.1 hlimit]

/-- **The rows read back** exactly when every field is within the limit. -/
theorem readRows_writeRow (rows : List (List PyStr)) :
    readRows limit (rows.flatMap writeRow) =
      if ∀ row ∈ rows, Fits limit row then some rows else none := by
  have hrows : ∀ rows : List (List PyStr), readText limit .start (rows.flatMap writeRow) =
      if ∀ row ∈ rows, Fits limit row then some rows else none := by
    intro rows
    induction rows with
    | nil => rfl
    | cons row rows ih =>
      rw [List.flatMap_cons, readText_row, ih]
      simp only [List.forall_mem_cons]
      by_cases hrow : Fits limit row
      · by_cases hrest : ∀ row ∈ rows, Fits limit row
        · rw [if_pos hrow, if_pos hrest, if_pos ⟨hrow, hrest⟩]
          rfl
        · rw [if_pos hrow, if_neg hrest, if_neg (fun h => hrest h.2)]
          rfl
      · rw [if_neg hrow, if_neg fun h => hrow h.1]
  exact hrows rows

example : readRows 3 (writeRow ["a\r\n".toList, [], "\",".toList] ++ writeRow [] ++ writeRow [[]]) =
    some [["a\r\n".toList, [], "\",".toList], [], [[]]] := by decide

end

end Py
