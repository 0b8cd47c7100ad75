import Pyrealm.Reader.Native

/-!
# `_record_identity`, `Record.__init__`, `Realm._convert`

* `initRecord_eq`: a raw dictionary with good metadata becomes a record of that
  identity whose fields are the other entries.
* `recordIdentity_error`: bad metadata raises `RealmError`, and only that.
* `convert_error`: conversion fails with `RealmError` only.
-/

namespace Pyrealm.Reader

open Py

/-! ## Data -/

/-- The values a record's fields read as.  A `frozenset` lists its elements as
they are iterated. -/
inductive Converted where
  | none
  | int (n : Int)
  | bool (b : Bool)
  | float (bits : UInt64)
  | str (text : PyStr)
  | bytes (data : Bytes)
  | uuid (bytes : Bytes)
  | timestamp (seconds nanoseconds : Int)
  | objectId (text : PyStr)
  | decimal (text : PyStr)
  | link (tableKey objectKey : Int)
  | tuple (items : List Converted)
  | frozenset (items : List Converted)
  | dict (entries : List (PyStr × Converted))

structure Record where
  tableKey : Int
  objectKey : Int
  raw : Dict PyStr Value
  converted : Dict PyStr Converted

def Record.identity (record : Record) : Int × Int := (record.tableKey, record.objectKey)

/-! ## Algorithm -/

def recordIdentity (raw : Dict PyStr Value) : Except Error (Int × Int) :=
  match raw.get? TABLE_KEY with
  | none => .error (.realmError (.missingMetadata TABLE_KEY))
  | some tableKey =>
    match raw.get? OBJECT_KEY with
    | none => .error (.realmError (.missingMetadata OBJECT_KEY))
    | some objectKey =>
      match tableKey, objectKey with
      | .int t, .int k => .ok (t, k)
      | _, _ => .error (.realmError .invalidMetadata)

/-- `raw.pop(key)` -/
def popKey (raw : Dict PyStr Value) (key : PyStr) : Except Error (Dict PyStr Value) :=
  match raw.pop key with
  | .ok rest => .ok rest
  | .error _ => .error .keyError

/-- `Record.__init__` -/
def initRecord (raw : Dict PyStr Value) : Except Error Record := do
  let identity ← recordIdentity raw
  let rest ← popKey raw TABLE_KEY
  let rest ← popKey rest OBJECT_KEY
  .ok ⟨identity.1, identity.2, rest, Dict.empty⟩

section
/- `decimal.Decimal(text)`, or `none` where it raises `DecimalException`. -/
variable (parseDecimal : PyStr → Option PyStr)

mutual

/-- `Realm._convert` -/
def convert : Value → Except Error Converted
  | .none => .ok .none
  | .int n => .ok (.int n)
  | .bool b => .ok (.bool b)
  | .float bits => .ok (.float bits)
  | .str text => .ok (.str text)
  | .bytes data => .ok (.bytes data)
  | .uuid bytes => .ok (.uuid bytes)
  | .timestamp s ns => .ok (.timestamp s ns)
  | .objectId text => .ok (.objectId text)
  | .link t k => .ok (.link t k)
  | .decimal128 text =>
    match parseDecimal text with
    | some value => .ok (.decimal value)
    | none => .error (.realmError (.invalidDecimal text))
  | .list items => do
    let items ← convertItems items
    .ok (.tuple items)
  | .set items => do
    let items ← convertItems items
    .ok (.frozenset items)
  | .dict entries => do
    let entries ← convertEntries entries
    .ok (.dict entries)

def convertItems : List Value → Except Error (List Converted)
  | [] => .ok []
  | item :: items => do
    let item ← convert item
    let items ← convertItems items
    .ok (item :: items)

def convertEntries : List (PyStr × Value) → Except Error (List (PyStr × Converted))
  | [] => .ok []
  | (key, item) :: entries => do
    let item ← convert item
    let entries ← convertEntries entries
    .ok ((key, item) :: entries)

end

end

/-! ## Identity -/

theorem key_ne : TABLE_KEY ≠ OBJECT_KEY := by decide

theorem recordIdentity_eq_ok_iff (raw : Dict PyStr Value) (t k : Int) :
    recordIdentity raw = .ok (t, k) ↔
      raw.get? TABLE_KEY = some (.int t) ∧ raw.get? OBJECT_KEY = some (.int k) := by
  unfold recordIdentity
  constructor
  · intro h
    split at h
    · cases h
    · next tableKey ht =>
      split at h
      · cases h
      · next objectKey ho =>
        split at h
        · cases h
          exact ⟨ht, ho⟩
        · cases h
  · rintro ⟨ht, ho⟩
    rw [ht, ho]

/-- Bad metadata raises `RealmError`. -/
theorem recordIdentity_error {raw : Dict PyStr Value} {e : Error} (h : recordIdentity raw = .error e) :
    ∃ reason, e = .realmError reason := by
  unfold recordIdentity at h
  split at h
  · cases h
    exact ⟨_, rfl⟩
  · split at h
    · cases h
      exact ⟨_, rfl⟩
    · split at h
      · cases h
      · cases h
        exact ⟨_, rfl⟩

/-- The fields of the record made of a raw dictionary. -/
def fieldsOf (raw : Dict PyStr Value) : Dict PyStr Value := (raw.erase TABLE_KEY).erase OBJECT_KEY

/-- **A raw dictionary with good metadata becomes a record of that identity.** -/
theorem initRecord_eq {raw : Dict PyStr Value} {identity : Int × Int}
    (h : recordIdentity raw = .ok identity) :
    initRecord raw = .ok ⟨identity.1, identity.2, fieldsOf raw, Dict.empty⟩ := by
  obtain ⟨ht, ho⟩ := (recordIdentity_eq_ok_iff raw identity.1 identity.2).mp h
  have h1 : TABLE_KEY ∈ raw := Dict.mem_of_get? ht
  have h2 : OBJECT_KEY ∈ raw.erase TABLE_KEY :=
    (Dict.mem_erase _ _ _).mpr ⟨Dict.mem_of_get? ho, key_ne.symm⟩
  rw [initRecord, h, ok_bind, popKey, Dict.pop_of_mem _ _ h1]
  simp only [ok_bind]
  rw [popKey, Dict.pop_of_mem _ _ h2]
  rfl

theorem get?_fieldsOf (raw : Dict PyStr Value) (name : PyStr) :
    (fieldsOf raw).get? name =
      if name = TABLE_KEY ∨ name = OBJECT_KEY then none else raw.get? name := by
  rw [fieldsOf, Dict.get?_erase, Dict.get?_erase]
  by_cases h1 : name = OBJECT_KEY <;> by_cases h2 : name = TABLE_KEY <;> simp [h1, h2]

theorem mem_fieldsOf (raw : Dict PyStr Value) (name : PyStr) :
    name ∈ fieldsOf raw ↔ name ∈ raw ∧ name ≠ TABLE_KEY ∧ name ≠ OBJECT_KEY := by
  rw [fieldsOf, Dict.mem_erase, Dict.mem_erase, and_assoc]

/-! ## Conversion -/

def IsRealmError (e : Error) : Prop := ∃ reason, e = .realmError reason

section
variable (parseDecimal : PyStr → Option PyStr)

mutual

/-- **Conversion fails with `RealmError` only.** -/
theorem convert_error : ∀ {value : Value} {e : Error}, convert parseDecimal value = .error e →
    ∃ reason, e = .realmError reason
  | .decimal128 text, e, h => by
    rw [convert] at h
    split at h
    · cases h
    · cases h
      exact ⟨_, rfl⟩
  | .list items, e, h => by
    rw [convert] at h
    have hitems : RaisesOnly IsRealmError (convertItems parseDecimal items) :=
      fun _ he => convertItems_error he
    exact hitems.bind (fun _ => .ok _) e h
  | .set items, e, h => by
    rw [convert] at h
    have hitems : RaisesOnly IsRealmError (convertItems parseDecimal items) :=
      fun _ he => convertItems_error he
    exact hitems.bind (fun _ => .ok _) e h
  | .dict entries, e, h => by
    rw [convert] at h
    have hentries : RaisesOnly IsRealmError (convertEntries parseDecimal entries) :=
      fun _ he => convertEntries_error he
    exact hentries.bind (fun _ => .ok _) e h
  | .none, e, h | .int _, e, h | .bool _, e, h | .float _, e, h | .str _, e, h | .bytes _, e, h
  | .uuid _, e, h | .timestamp _ _, e, h | .objectId _, e, h | .link _ _, e, h => by
    rw [convert] at h
    cases h

theorem convertItems_error : ∀ {items : List Value} {e : Error},
    convertItems parseDecimal items = .error e → ∃ reason, e = .realmError reason
  | [], e, h => by
    rw [convertItems] at h
    cases h
  | item :: items, e, h => by
    rw [convertItems] at h
    have hitem : RaisesOnly IsRealmError (convert parseDecimal item) := fun _ he => convert_error he
    have hitems : RaisesOnly IsRealmError (convertItems parseDecimal items) :=
      fun _ he => convertItems_error he
    exact hitem.bind (fun _ => hitems.bind fun _ => .ok _) e h

theorem convertEntries_error : ∀ {entries : List (PyStr × Value)} {e : Error},
    convertEntries parseDecimal entries = .error e → ∃ reason, e = .realmError reason
  | [], e, h => by
    rw [convertEntries] at h
    cases h
  | (key, item) :: entries, e, h => by
    rw [convertEntries] at h
    have hitem : RaisesOnly IsRealmError (convert parseDecimal item) := fun _ he => convert_error he
    have hentries : RaisesOnly IsRealmError (convertEntries parseDecimal entries) :=
      fun _ he => convertEntries_error he
    exact hitem.bind (fun _ => hentries.bind fun _ => .ok _) e h

end

end

end Pyrealm.Reader
