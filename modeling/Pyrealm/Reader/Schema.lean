import Pyrealm.Reader.Identity
import Pyrealm.Reader.Query

/-!
# The class indexes of both layers

`load_schema`, `find_class`, `schema`, `count`, `all`, `query` and
`NativeResults::get` of `module.cpp`; `Realm.__init__`, `Realm.table`,
`Table.__len__`, `all`, `where` and `Record.table_name` of `reader.py`.

* `findClassByName_eq`, `findClassByKey_eq`: the native layer keeps the first
  class of a name or key.
* `table_rel`, `tableName_rel`: the reader keeps the last.
* `describe_inj`: a schema describes one class.
-/

namespace Pyrealm.Reader

open Py Effects Indexes Interning

/-! ## Data -/

/-- `PropertyMeta` in full.  Of `flags` it has the bits that are read. -/
structure PropertyInfo extends PropertyMeta where
  publicName : Bytes
  linkTarget : Bytes
  linkOriginPropertyName : Bytes
  nullable : Bool
  primaryKey : Bool
  indexed : Bool
deriving DecidableEq, Repr

/-- `ClassMeta` in full.  Of `flags` it has the two comparisons that are made. -/
structure ClassInfo where
  name : Bytes
  primaryKey : Bytes
  key : Int
  embedded : Bool
  asymmetric : Bool
  properties : List PropertyInfo
deriving DecidableEq, Repr

def ClassInfo.toClassMeta (c : ClassInfo) : ClassMeta :=
  ⟨c.name, c.key, c.properties.map PropertyInfo.toPropertyMeta⟩

/-- `m_classes`, `m_class_names` and `m_class_indexes` of a `NativeRealm`. -/
structure NativeSchema where
  classes : List ClassInfo
  classNames : Dict Bytes Nat
  classIndexes : Dict Int Nat
  names : Positions ClassInfo.name classes classNames
  keys : Positions ClassInfo.key classes classIndexes

structure PropertySchema where
  name : PyStr
  publicName : Option PyStr
  key : Int
  type : PyStr
  collection : PyStr
  nullable : Bool
  primaryKey : Bool
  indexed : Bool
  linkTarget : Option PyStr
  linkOriginProperty : Option PyStr
deriving DecidableEq, Repr

structure TableSchema where
  name : PyStr
  key : Int
  primaryKey : Option PyStr
  embedded : Bool
  asymmetric : Bool
  properties : List PropertySchema
deriving DecidableEq, Repr

/-- The part of a `Realm` that `Realm.__init__` reads from the native schema. -/
structure RealmSchema where
  schema : List TableSchema
  byName : Dict PyStr TableSchema
  byKey : Dict Int TableSchema

/-- The `RealmError` of `Record.table_name`: `record refers to unknown Realm table key {key}`. -/
structure UnknownTable where
  key : Int
deriving DecidableEq, Repr

/-- An object of a result set, with its `realm_object_get_table`. -/
structure ResultObject where
  table : Int
  object : CoreObject

/-- A result set of Realm Core. -/
structure CoreResults where
  count : Except Error Nat
  getObject : Nat → Except Error ResultObject

/-- What Realm Core answers about the objects of a class, by class key.  The
objects of a class are of that class. -/
structure CoreRealm where
  numObjects : Int → Except Error Nat
  findAll : Int → Except Error CoreResults
  findAll_table : ∀ key results i o, findAll key = .ok results → results.getObject i = .ok o →
    o.table = key

structure NativeResults where
  results : CoreResults
  count : Nat

/-! ## Algorithm: the native layer -/

/-- One round of the loop of `load_schema`. -/
def addClass (s : NativeSchema) (c : ClassInfo) : NativeSchema where
  classes := s.classes ++ [c]
  classNames := emplace s.classNames c.name s.classes.length
  classIndexes := emplace s.classIndexes c.key s.classes.length
  names := s.names.emplace c
  keys := s.keys.emplace c

/-- `load_schema`, of the classes that Realm Core lists. -/
def loadSchema (classes : List ClassInfo) : NativeSchema :=
  classes.foldl addClass ⟨[], Dict.empty, Dict.empty, positions_empty _, positions_empty _⟩

/-- `find_class(name)` -/
def findClassByName (s : NativeSchema) (name : Bytes) : Except Error ClassInfo :=
  match h : s.classNames.get? name with
  | none => .error .keyError
  | some i => .ok (s.classes.get ⟨i, s.names.lt h⟩)

/-- `find_class(key)` -/
def findClassByKey (s : NativeSchema) (key : Int) : Except Error ClassInfo :=
  match h : s.classIndexes.get? key with
  | none => .error .nativeError
  | some i => .ok (s.classes.get ⟨i, s.keys.lt h⟩)

/-- `NativeRealm::count` -/
def nativeCount (core : CoreRealm) (s : NativeSchema) (tableName : Bytes) : Except Error Nat := do
  let classMeta ← findClassByName s tableName
  core.numObjects classMeta.key

/-- `realm_object_find_all`, and the constructor of `NativeResults`. -/
def openResults (core : CoreRealm) (key : Int) : Except Error NativeResults := do
  let results ← core.findAll key
  let count ← results.count
  .ok ⟨results, count⟩

/-- `NativeRealm::all` -/
def nativeAll (core : CoreRealm) (s : NativeSchema) (tableName : Bytes) :
    Except Error NativeResults := do
  let classMeta ← findClassByName s tableName
  openResults core classMeta.key

/-- `NativeRealm::query` -/
def nativeQueryTable (nullEmpty : Bool) (s : NativeSchema) (tableName queryText : Bytes)
    (args : List Param) : Prog CoreCall CoreAnswer Error Nat := do
  let classMeta ← Prog.done (findClassByName s tableName)
  nativeQuery nullEmpty classMeta.key queryText args

/-- The object of `NativeResults::get`; an index beyond 64 bits is no argument of it. -/
def NativeResults.object (results : NativeResults) (index : Int) : Except Error ResultObject :=
  if -2 ^ 63 ≤ index ∧ index < 2 ^ 63 then
    let index := if index < 0 then index + results.count else index
    if index < 0 ∨ results.count ≤ index then .error .indexError
    else results.results.getObject index.toNat
  else .error .typeError

/-- `NativeResults::get` -/
def nativeGet (decodeReplace : Bytes → PyStr) (s : NativeSchema) (results : NativeResults)
    (index : Int) : RawAnswer := do
  let o ← results.object index
  let classMeta ← findClassByKey s o.table
  objectToDict decodeReplace o.object classMeta.toClassMeta

def propertyTypeName : PropertyType → PyStr
  | .int => "int".toList
  | .bool => "bool".toList
  | .string => "string".toList
  | .binary => "binary".toList
  | .mixed => "mixed".toList
  | .timestamp => "timestamp".toList
  | .float => "float".toList
  | .double => "double".toList
  | .decimal128 => "decimal128".toList
  | .object => "object".toList
  | .linkingObjects => "linking_objects".toList
  | .objectId => "object_id".toList
  | .uuid => "uuid".toList

def collectionTypeName : CollectionType → PyStr
  | .none => "none".toList
  | .list => "list".toList
  | .set => "set".toList
  | .dictionary => "dictionary".toList

/-- `text.empty() ? py::none() : py::cast(text)` -/
def optionalStr (text : Bytes) : Except Error (Option PyStr) :=
  if text = [] then .ok none
  else do
    let text ← pyStr text
    .ok (some text)

/-- One property of `NativeRealm::schema`, as a `PropertySchema`. -/
def describeProperty (p : PropertyInfo) : Except Error PropertySchema := do
  let name ← pyStr p.name
  let publicName ← optionalStr p.publicName
  let linkTarget ← optionalStr p.linkTarget
  let linkOriginProperty ← optionalStr p.linkOriginPropertyName
  .ok ⟨name, publicName, p.key, propertyTypeName p.type, collectionTypeName p.collectionType,
    p.nullable, p.primaryKey, p.indexed, linkTarget, linkOriginProperty⟩

/-- One class of `NativeRealm::schema`, as a `TableSchema`. -/
def describe (c : ClassInfo) : Except Error TableSchema := do
  let name ← pyStr c.name
  let primaryKey ← optionalStr c.primaryKey
  let properties ← c.properties.mapM describeProperty
  .ok ⟨name, c.key, primaryKey, c.embedded, c.asymmetric, properties⟩

/-! ## Algorithm: the reader -/

/-- `Realm.__init__` -/
def initRealm (native : NativeSchema) : Except Error RealmSchema := do
  let schema ← native.classes.mapM describe
  .ok ⟨schema, schema.foldl (fun d item => d.set item.name item) Dict.empty,
    schema.foldl (fun d item => d.set item.key item) Dict.empty⟩

/-- `Realm.table`, as the schema of the table. -/
def RealmSchema.table (realm : RealmSchema) (name : PyStr) : Except Error TableSchema :=
  match realm.byName.get? name with
  | some schema => .ok schema
  | none => .error .keyError

/-- `Record.table_name`, of a record with this table key. -/
def RealmSchema.tableName (realm : RealmSchema) (tableKey : Int) : Except UnknownTable PyStr :=
  match realm.byKey.get? tableKey with
  | some schema => .ok schema.name
  | none => .error ⟨tableKey⟩

/-- `with _native_errors(): …`, of one native call. -/
def translated {α : Type} : Except Error α → Except Error α
  | .ok a => .ok a
  | .error e => .error (translate e)

/-- `Table.__len__` -/
def tableLen (core : CoreRealm) (s : NativeSchema) (table : TableSchema) : Except Error Nat :=
  translated (nativeCount core s (encodeUtf8 table.name))

/-- `Table.all` -/
def tableAll (core : CoreRealm) (s : NativeSchema) (table : TableSchema) :
    Except Error NativeResults :=
  translated (nativeAll core s (encodeUtf8 table.name))

/-- `Table.where` of the table's name; `tableWhere` is that of a class. -/
def queryTable (nullEmpty : Bool) (s : NativeSchema) (table : TableSchema) (query : List CodePoint)
    (parameters : List Param) : Prog CoreCall CoreAnswer Error Nat :=
  Prog.tryCatch (fun e => Prog.raise (translateQuery e))
    (match encodeStr query with
    | some text => nativeQueryTable nullEmpty s (encodeUtf8 table.name) text parameters
    | none => Prog.raise .typeError)

/-! ## The native indexes -/

theorem classes_foldl_addClass (classes : List ClassInfo) (s : NativeSchema) :
    (classes.foldl addClass s).classes = s.classes ++ classes := by
  induction classes generalizing s with
  | nil => exact (List.append_nil _).symm
  | cons c classes ih =>
    rw [List.foldl_cons, ih]
    show (s.classes ++ [c]) ++ classes = _
    rw [List.append_assoc, List.singleton_append]

@[simp] theorem classes_loadSchema (classes : List ClassInfo) : (loadSchema classes).classes = classes :=
  classes_foldl_addClass classes _

/-- **A name finds the first class of the name.** -/
theorem findClassByName_eq (s : NativeSchema) (name : Bytes) :
    findClassByName s name =
      (firstOf ClassInfo.name name s.classes).elim (.error .keyError) .ok := by
  unfold findClassByName
  split
  · next h => rw [s.names.firstOf_of_none h, Option.elim_none]
  · next i h => rw [s.names.firstOf_of_some h, Option.elim_some]

/-- **A key finds the first class of the key.** -/
theorem findClassByKey_eq (s : NativeSchema) (key : Int) :
    findClassByKey s key = (firstOf ClassInfo.key key s.classes).elim (.error .nativeError) .ok := by
  unfold findClassByKey
  split
  · next h => rw [s.keys.firstOf_of_none h, Option.elim_none]
  · next i h => rw [s.keys.firstOf_of_some h, Option.elim_some]

theorem findClassByName_of_first {classes : List ClassInfo} {name : Bytes} {c : ClassInfo}
    (h : firstOf ClassInfo.name name classes = some c) :
    findClassByName (loadSchema classes) name = .ok c := by
  rw [findClassByName_eq, classes_loadSchema, h, Option.elim_some]

theorem findClassByKey_of_first {classes : List ClassInfo} {key : Int} {c : ClassInfo}
    (h : firstOf ClassInfo.key key classes = some c) :
    findClassByKey (loadSchema classes) key = .ok c := by
  rw [findClassByKey_eq, classes_loadSchema, h, Option.elim_some]

/-! ## The reader's indexes -/

theorem optionalStr_inj {a b : Bytes} {text : Option PyStr} (ha : optionalStr a = .ok text)
    (hb : optionalStr b = .ok text) : a = b := by
  unfold optionalStr at ha hb
  by_cases h : a = []
  · by_cases h' : b = []
    · rw [h, h']
    · rw [if_pos h] at ha
      rw [if_neg h', bind_eq_ok_iff] at hb
      obtain ⟨t, -, hb⟩ := hb
      cases ha
      cases hb
  · by_cases h' : b = []
    · rw [if_pos h'] at hb
      rw [if_neg h, bind_eq_ok_iff] at ha
      obtain ⟨t, -, ha⟩ := ha
      cases hb
      cases ha
    · rw [if_neg h, bind_eq_ok_iff] at ha
      rw [if_neg h', bind_eq_ok_iff] at hb
      obtain ⟨t, ht, ha⟩ := ha
      obtain ⟨t', ht', hb⟩ := hb
      cases ha
      cases hb
      rw [← (pyStr_eq_ok_iff a t).mp ht, (pyStr_eq_ok_iff b t).mp ht']

theorem pyStr_inj {a b : Bytes} {text : PyStr} (ha : pyStr a = .ok text) (hb : pyStr b = .ok text) :
    a = b := by
  rw [← (pyStr_eq_ok_iff a text).mp ha, (pyStr_eq_ok_iff b text).mp hb]

theorem propertyTypeName_inj {a b : PropertyType} (h : propertyTypeName a = propertyTypeName b) :
    a = b := by
  revert h
  cases a <;> cases b <;> decide

theorem collectionTypeName_inj {a b : CollectionType}
    (h : collectionTypeName a = collectionTypeName b) : a = b := by
  revert h
  cases a <;> cases b <;> decide

theorem describeProperty_eq_ok {p : PropertyInfo} {q : PropertySchema}
    (h : describeProperty p = .ok q) :
    pyStr p.name = .ok q.name ∧ optionalStr p.publicName = .ok q.publicName ∧
      optionalStr p.linkTarget = .ok q.linkTarget ∧
      optionalStr p.linkOriginPropertyName = .ok q.linkOriginProperty ∧
      q = ⟨q.name, q.publicName, p.key, propertyTypeName p.type, collectionTypeName p.collectionType,
        p.nullable, p.primaryKey, p.indexed, q.linkTarget, q.linkOriginProperty⟩ := by
  rw [describeProperty, bind_eq_ok_iff] at h
  obtain ⟨name, h1, h⟩ := h
  rw [bind_eq_ok_iff] at h
  obtain ⟨publicName, h2, h⟩ := h
  rw [bind_eq_ok_iff] at h
  obtain ⟨linkTarget, h3, h⟩ := h
  rw [bind_eq_ok_iff] at h
  obtain ⟨linkOriginProperty, h4, h⟩ := h
  cases h
  exact ⟨h1, h2, h3, h4, rfl⟩

theorem describeProperty_inj {p p' : PropertyInfo} {q : PropertySchema}
    (h : describeProperty p = .ok q) (h' : describeProperty p' = .ok q) : p = p' := by
  obtain ⟨h1, h2, h3, h4, h5⟩ := describeProperty_eq_ok h
  obtain ⟨h1', h2', h3', h4', h5'⟩ := describeProperty_eq_ok h'
  rw [h5', PropertySchema.mk.injEq] at h5
  obtain ⟨-, -, hkey, htype, hcol, hnull, hprim, hidx, -, -⟩ := h5
  obtain ⟨⟨name, type, collectionType, key⟩, publicName, linkTarget, origin, nullable, primaryKey,
    indexed⟩ := p
  obtain ⟨⟨name', type', collectionType', key'⟩, publicName', linkTarget', origin', nullable',
    primaryKey', indexed'⟩ := p'
  cases pyStr_inj h1 h1'
  cases optionalStr_inj h2 h2'
  cases optionalStr_inj h3 h3'
  cases optionalStr_inj h4 h4'
  cases propertyTypeName_inj htype
  cases collectionTypeName_inj hcol
  simp only at hkey hnull hprim hidx
  rw [hkey, hnull, hprim, hidx]

theorem describe_eq_ok {c : ClassInfo} {table : TableSchema} (h : describe c = .ok table) :
    pyStr c.name = .ok table.name ∧ optionalStr c.primaryKey = .ok table.primaryKey ∧
      List.Forall₂ (fun p q => describeProperty p = .ok q) c.properties table.properties ∧
      table = ⟨table.name, c.key, table.primaryKey, c.embedded, c.asymmetric, table.properties⟩ := by
  rw [describe, bind_eq_ok_iff] at h
  obtain ⟨name, h1, h⟩ := h
  rw [bind_eq_ok_iff] at h
  obtain ⟨primaryKey, h2, h⟩ := h
  rw [bind_eq_ok_iff] at h
  obtain ⟨properties, h3, h⟩ := h
  cases h
  exact ⟨h1, h2, forall₂_of_mapM h3, rfl⟩

theorem key_of_describe {c : ClassInfo} {table : TableSchema} (h : describe c = .ok table) :
    table.key = c.key := by
  obtain ⟨-, -, -, he⟩ := describe_eq_ok h
  rw [he]

theorem describeProperty_leftUnique :
    Relator.LeftUnique fun (p : PropertyInfo) (q : PropertySchema) => describeProperty p = .ok q :=
  fun _ _ _ => describeProperty_inj

/-- **A schema describes one class.** -/
theorem describe_inj {c c' : ClassInfo} {table : TableSchema} (h : describe c = .ok table)
    (h' : describe c' = .ok table) : c = c' := by
  obtain ⟨h1, h2, h3, h4⟩ := describe_eq_ok h
  obtain ⟨h1', h2', h3', h4'⟩ := describe_eq_ok h'
  rw [h4', TableSchema.mk.injEq] at h4
  obtain ⟨-, hkey, -, hemb, hasym, -⟩ := h4
  obtain ⟨name, primaryKey, key, embedded, asymmetric, properties⟩ := c
  obtain ⟨name', primaryKey', key', embedded', asymmetric', properties'⟩ := c'
  cases pyStr_inj h1 h1'
  cases optionalStr_inj h2 h2'
  cases describeProperty_leftUnique.forall₂ h3 h3'
  simp only at hkey hemb hasym
  rw [hkey, hemb, hasym]

section
variable {classes : List ClassInfo} {realm : RealmSchema}

theorem initRealm_eq_ok (h : initRealm (loadSchema classes) = .ok realm) :
    List.Forall₂ (fun c table => describe c = .ok table) classes realm.schema ∧
      (∀ name, realm.byName.get? name = lastOf TableSchema.name name realm.schema) ∧
      ∀ key, realm.byKey.get? key = lastOf TableSchema.key key realm.schema := by
  rw [initRealm, classes_loadSchema, bind_eq_ok_iff] at h
  obtain ⟨schema, hschema, h⟩ := h
  cases h
  exact ⟨forall₂_of_mapM hschema, fun name => get?_foldl_set_key _ _ name,
    fun key => get?_foldl_set_key _ _ key⟩

/-- **A table is the last class of its name.** -/
theorem table_rel (h : initRealm (loadSchema classes) = .ok realm) (name : PyStr) :
    Option.Rel (fun c table => describe c = .ok table)
      (lastOf ClassInfo.name (encodeUtf8 name) classes) (realm.byName.get? name) := by
  obtain ⟨hall, hname, -⟩ := initRealm_eq_ok h
  rw [hname]
  refine lastOf_rel (hall.imp fun c table hd => ⟨?_, hd⟩)
  have hn := (describe_eq_ok hd).1
  rw [pyStr_eq_ok_iff] at hn
  constructor
  · intro he
    exact Except.ok.inj (((pyStr_eq_ok_iff _ _).mpr (hn.trans he)).symm.trans
      ((pyStr_eq_ok_iff _ _).mpr rfl))
  · rintro rfl
    exact hn.symm

/-- **A record is called after the last class of its key.** -/
theorem tableName_rel (h : initRealm (loadSchema classes) = .ok realm) (key : Int) :
    Option.Rel (fun c table => describe c = .ok table)
      (lastOf ClassInfo.key key classes) (realm.byKey.get? key) := by
  obtain ⟨hall, -, hkey⟩ := initRealm_eq_ok h
  rw [hkey]
  exact lastOf_rel (hall.imp fun c table hd => ⟨by rw [key_of_describe hd], hd⟩)

end

end Pyrealm.Reader
