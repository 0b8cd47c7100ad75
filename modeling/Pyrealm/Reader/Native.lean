import Pyrealm.Pool.PyCodec
import Pyrealm.Pool.PyDict

/-!
# The native layer: values and objects

`value_to_python`, `collection_to_python`, `dictionary_to_python` and
`object_to_dict` of `module.cpp`.  What Realm Core answers about one object is
a parameter (`CoreObject`), so is the decoding of text with replacement
characters.

* `objectToDict_eq_ok`: on success every visible property was read, and the
  dictionary is the metadata overwritten by the properties, in order.
-/

namespace Pyrealm.Reader

open Py

/-! ## Data -/

/-- What a `RealmError` says. -/
inductive Reason where
  /-- `record is missing native metadata {key!r}` -/
  | missingMetadata (key : PyStr)
  /-- `record has invalid native table or object key metadata` -/
  | invalidMetadata
  /-- the text of the `NativeError` -/
  | native
  /-- `invalid Decimal128 value {text!r}` -/
  | invalidDecimal (text : PyStr)
  /-- `cannot decode field {key!r}: {cause}` -/
  | undecodable (key : PyStr) (cause : Reason)
deriving DecidableEq, Repr

/-- The exceptions of the reader and of the native module below it. -/
inductive Error where
  | nativeError
  | realmError (reason : Reason)
  | realmQueryError
  | unicodeError
  | keyError
  | indexError
  | typeError
  | valueError
  | runtimeError
deriving DecidableEq, Repr

/-- `realm_value_t`.  Floats are widened to 64 bits, decimals are the text that
Realm Core gives them; `unsupported` is any other tag. -/
inductive CoreValue where
  | null
  | int (n : Int)
  | bool (b : Bool)
  | string (data : Bytes)
  | binary (data : Bytes)
  | timestamp (seconds nanoseconds : Int)
  | float (bits : UInt64)
  | double (bits : UInt64)
  | decimal128 (text : PyStr)
  | objectId (bytes : Bytes)
  | link (targetTable target : Int)
  | uuid (bytes : Bytes)
  | unsupported
deriving DecidableEq, Repr

/-- The Python objects the native layer hands to the reader. -/
inductive Value where
  | none
  | int (n : Int)
  | bool (b : Bool)
  | float (bits : UInt64)
  | str (text : PyStr)
  | bytes (data : Bytes)
  | uuid (bytes : Bytes)
  | timestamp (seconds nanoseconds : Int)
  | objectId (text : PyStr)
  | decimal128 (text : PyStr)
  | link (tableKey objectKey : Int)
  | list (items : List Value)
  | set (items : List Value)
  | dict (entries : List (PyStr × Value))

inductive PropertyType where
  | int | bool | string | binary | mixed | timestamp | float | double | decimal128 | object
  | linkingObjects | objectId | uuid
deriving DecidableEq, Repr

inductive CollectionType where
  | none | list | set | dictionary
deriving DecidableEq, Repr

/-- The part of `PropertyMeta` the readers use. -/
structure PropertyMeta where
  name : Bytes
  type : PropertyType
  collectionType : CollectionType
  key : Int
deriving DecidableEq, Repr

structure ClassMeta where
  name : Bytes
  key : Int
  properties : List PropertyMeta
deriving DecidableEq, Repr

/-- What Realm Core answers about one object, by property key. -/
structure CoreObject where
  key : Int
  getValue : Int → Except Error CoreValue
  getList : Int → Except Error (List CoreValue)
  getSet : Int → Except Error (List CoreValue)
  getDictionary : Int → Except Error (List (Bytes × CoreValue))

/-! ## Algorithm -/

def TABLE_KEY : PyStr := "__table_key__".toList
def OBJECT_KEY : PyStr := "__object_key__".toList

def hexDigit (n : Nat) : Char := "0123456789abcdef".toList.getD n '0'

def objectIdString (bytes : Bytes) : PyStr :=
  bytes.flatMap fun b => [hexDigit (b.toNat / 16), hexDigit (b.toNat % 16)]

/-- `py::str(name)` -/
def pyStr (name : Bytes) : Except Error PyStr :=
  match decodeUtf8 name with
  | some text => .ok text
  | none => .error .unicodeError

section
variable (decodeReplace : Bytes → PyStr)

def valueToPython : CoreValue → Except Error Value
  | .null => .ok .none
  | .int n => .ok (.int n)
  | .bool b => .ok (.bool b)
  | .string data => .ok (.str (decodeReplace data))
  | .binary data => .ok (.bytes data)
  | .timestamp s ns => .ok (.timestamp s ns)
  | .float bits => .ok (.float bits)
  | .double bits => .ok (.float bits)
  | .decimal128 text => .ok (.decimal128 text)
  | .objectId bytes => .ok (.objectId (objectIdString bytes))
  | .link t k => .ok (.link t k)
  | .uuid bytes => .ok (.uuid bytes)
  | .unsupported => .error .nativeError

/-- `collection_to_python`, of a list or of a set. -/
def collectionToPython (items : Except Error (List CoreValue)) : Except Error Value := do
  let items ← items
  let result ← items.mapM (valueToPython decodeReplace)
  .ok (.list result)

/-- `result[value_to_python(key)] = value_to_python(value)` -/
def dictionaryToPython (entries : Except Error (List (Bytes × CoreValue))) :
    Except Error Value := do
  let entries ← entries
  let result ← entries.foldlM (fun result e => do
    let value ← valueToPython decodeReplace e.2
    .ok (Dict.set result (decodeReplace e.1) value)) Dict.empty
  .ok (.dict result.items)

/-- The `switch` of `object_to_dict`. -/
def propertyToPython (object : CoreObject) (property : PropertyMeta) : Except Error Value :=
  match property.collectionType with
  | .list => collectionToPython decodeReplace (object.getList property.key)
  | .set => collectionToPython decodeReplace (object.getSet property.key)
  | .dictionary => dictionaryToPython decodeReplace (object.getDictionary property.key)
  | .none => do
    let value ← object.getValue property.key
    valueToPython decodeReplace value

def objectToDict (object : CoreObject) (classMeta : ClassMeta) : Except Error (Dict PyStr Value) :=
  classMeta.properties.foldlM (fun result property =>
    if property.type = .linkingObjects then .ok result
    else do
      let value ← propertyToPython decodeReplace object property
      let name ← pyStr property.name
      .ok (result.set name value))
    ((Dict.empty.set TABLE_KEY (.int classMeta.key)).set OBJECT_KEY (.int object.key))

theorem pyStr_eq_ok_iff (name : Bytes) (text : PyStr) :
    pyStr name = .ok text ↔ encodeUtf8 text = name := by
  rw [← decodeUtf8_eq_some_iff, pyStr]
  cases decodeUtf8 name with
  | none => simp
  | some text' => simp

/-! ## What a dictionary holds -/

/-- The properties the reader sees: all but the backlinks. -/
def visible (classMeta : ClassMeta) : List PropertyMeta :=
  classMeta.properties.filter fun property => decide (property.type ≠ .linkingObjects)

/-- One entry of the dictionary: a property's name with its own value. -/
def Reads (object : CoreObject) (property : PropertyMeta) (e : PyStr × Value) : Prop :=
  pyStr property.name = .ok e.1 ∧ propertyToPython decodeReplace object property = .ok e.2

/-- The metadata `object_to_dict` starts from. -/
def metadata (object : CoreObject) (classMeta : ClassMeta) : Dict PyStr Value :=
  (Dict.empty.set TABLE_KEY (.int classMeta.key)).set OBJECT_KEY (.int object.key)

/-- The loop skips the backlinks. -/
theorem objectToDict_visible (object : CoreObject) (classMeta : ClassMeta) :
    objectToDict decodeReplace object classMeta =
      (visible classMeta).foldlM (fun result property => do
        let value ← propertyToPython decodeReplace object property
        let name ← pyStr property.name
        .ok (result.set name value)) (metadata object classMeta) := by
  rw [visible, List.foldlM_filter, objectToDict]
  congr 1
  funext result property
  by_cases ht : property.type = .linkingObjects
  · rw [if_pos ht, if_neg (by simp [ht])]
    rfl
  · rw [if_neg ht, if_pos (by simp [ht])]

/-- **The dictionary of an object**: its metadata, then each visible property's
entry set in order, so that a later one replaces an earlier one of the same name. -/
theorem objectToDict_eq_ok {object : CoreObject} {classMeta : ClassMeta} {raw : Dict PyStr Value}
    (h : objectToDict decodeReplace object classMeta = .ok raw) :
    ∃ entries, List.Forall₂ (Reads decodeReplace object) (visible classMeta) entries ∧
      raw = entries.foldl (fun d e => d.set e.1 e.2) (metadata object classMeta) := by
  rw [objectToDict_visible] at h
  refine Dict.foldlM_set (fun d property d' hd => ?_) h
  rw [bind_eq_ok_iff] at hd
  obtain ⟨value, hvalue, hd⟩ := hd
  rw [bind_eq_ok_iff] at hd
  obtain ⟨name, hname, hd⟩ := hd
  cases hd
  exact ⟨(name, value), ⟨hname, hvalue⟩, rfl⟩

end

end Pyrealm.Reader
