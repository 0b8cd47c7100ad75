import Pyrealm.Pool.Effects
import Pyrealm.Pool.PyCodec
import Pyrealm.Pool.PyDict
import Pyrealm.Reader.Schema

/-!
# Opening a realm

`open_realm` and `Realm.__init__`, whatever the native layer does: the value of
`schema()` may be of any shape.

    a realm, its handle open  or  RealmOpenError, its handle closed once      (openRealm_closes)

* `initTables_raisesOnly`: the walk through the schema raises `KeyError` or `TypeError` only.
* `initTables_tables`: it accepts the schema of any classes.
-/

namespace Pyrealm.Reader

open Py Effects

/-! ## Data -/

/-- The hashable values. -/
inductive Scalar where
  | none
  | bool (b : Bool)
  | int (n : Int)
  | float (bits : UInt64)
  | str (text : List CodePoint)
deriving DecidableEq

/-- Values of built-in types. -/
inductive Dyn where
  | scalar (value : Scalar)
  | list (items : List Dyn)
  | dict (entries : List (Scalar × Dyn))

/-- A `PropertySchema`, whose annotations nothing checks. -/
structure DynProperty where
  name : Dyn
  publicName : Dyn
  key : Dyn
  type : Dyn
  collection : Dyn
  nullable : Dyn
  primaryKey : Dyn
  indexed : Dyn
  linkTarget : Dyn
  linkOriginProperty : Dyn

/-- A `TableSchema`, whose annotations nothing checks. -/
structure DynTable where
  name : Dyn
  key : Dyn
  primaryKey : Dyn
  embedded : Dyn
  asymmetric : Dyn
  properties : List DynProperty

/-- A `Realm`.  Of its dictionaries it has the pairs they are made of, in order. -/
structure OpenedRealm where
  path : PyStr
  schema : List DynTable
  byName : List (Scalar × DynTable)
  byKey : List (Scalar × DynTable)

/-- The exceptions of `open_realm`. -/
inductive OpenError where
  | raised (e : Error)
  | osError
  /-- `{cause}.{advice}` -/
  | realmOpenError (cause : Error) (advice : PyStr)
deriving DecidableEq

/-- What `open_realm` asks of the native layer. -/
inductive OpenCall where
  /-- `_native.NativeRealm(path, key)` -/
  | construct (path : PyStr) (key : Bytes)
  /-- `native.schema()` -/
  | schema
  /-- `native.close()` -/
  | close

abbrev OpenAnswer : OpenCall → Type
  | .construct _ _ => Unit
  | .schema => Dyn
  | .close => Unit

abbrev OpenAction : Type → Type := Prog OpenCall OpenAnswer OpenError

abbrev OpenEvent : Type := Effects.Event OpenCall OpenAnswer OpenError

/-- The file system: `Path(path).expanduser().resolve(strict=True)` and `read_bytes`. -/
structure Files where
  resolve : PyStr → Except OpenError PyStr
  readBytes : PyStr → Except OpenError Bytes

/-! ## Algorithm: the schema -/

/-- `for item in value` -/
def iterate : Dyn → Except Error (List Dyn)
  | .scalar (.str text) => .ok (text.map fun c => .scalar (.str [c]))
  | .scalar _ => .error .typeError
  | .list items => .ok items
  | .dict entries => .ok (entries.map fun e => .scalar e.1)

/-- `value[key]` -/
def subscript (value : Dyn) (key : String) : Except Error Dyn :=
  match value with
  | .dict entries =>
    match Dict.lookupItem (.str (codePoints key)) entries with
    | some item => .ok item
    | none => .error .keyError
  | _ => .error .typeError

/-- The parameters of `PropertySchema`, none of which has a default. -/
def propertyFields : List String :=
  ["name", "public_name", "key", "type", "collection", "nullable", "primary_key", "indexed",
    "link_target", "link_origin_property"]

/-- An argument by keyword. -/
def argument (entries : List (Scalar × Dyn)) (name : String) : Except Error Dyn :=
  match Dict.lookupItem (.str (codePoints name)) entries with
  | some value => .ok value
  | none => .error .typeError

/-- `PropertySchema(**prop)` -/
def dynProperty : Dyn → Except Error DynProperty
  | .dict entries =>
    if ∀ e ∈ entries, e.1 ∈ propertyFields.map fun name => Scalar.str (codePoints name) then do
      let name ← argument entries "name"
      let publicName ← argument entries "public_name"
      let key ← argument entries "key"
      let type ← argument entries "type"
      let collection ← argument entries "collection"
      let nullable ← argument entries "nullable"
      let primaryKey ← argument entries "primary_key"
      let indexed ← argument entries "indexed"
      let linkTarget ← argument entries "link_target"
      let linkOriginProperty ← argument entries "link_origin_property"
      .ok ⟨name, publicName, key, type, collection, nullable, primaryKey, indexed, linkTarget,
        linkOriginProperty⟩
    else .error .typeError
  | _ => .error .typeError

/-- `TableSchema(name=item["name"], …)` -/
def dynTable (item : Dyn) : Except Error DynTable := do
  let name ← subscript item "name"
  let key ← subscript item "key"
  let primaryKey ← subscript item "primary_key"
  let embedded ← subscript item "embedded"
  let asymmetric ← subscript item "asymmetric"
  let properties ← subscript item "properties"
  let props ← iterate properties
  let properties ← props.mapM dynProperty
  .ok ⟨name, key, primaryKey, embedded, asymmetric, properties⟩

/-- `hash(value)` -/
def hashed : Dyn → Except Error Scalar
  | .scalar value => .ok value
  | _ => .error .typeError

/-- `Realm.__init__`, from the value of `native.schema()` on. -/
def initTables (path : PyStr) (value : Dyn) : Except Error OpenedRealm := do
  let items ← iterate value
  let schema ← items.mapM dynTable
  let byName ← schema.mapM fun item => do
    let name ← hashed item.name
    .ok (name, item)
  let byKey ← schema.mapM fun item => do
    let key ← hashed item.key
    .ok (key, item)
  .ok ⟨path, schema, byName, byKey⟩

/-! ## Algorithm: `open_realm` -/

/-- `_recovery_advice` -/
def recoveryAdvice (path : PyStr) : PyStr :=
  " Preserve the original file, verify the encryption key and source copy, then run ".toList ++
    "`pyrealm-recover inspect ".toList ++ path ++
    "`; use `pyrealm-recover carve` if logical access still fails.".toList

/-- The path and the key, checked. -/
def openArguments (files : Files) (path : PyStr) (key : Option Bytes) (keyFile : Option PyStr) :
    Except OpenError (PyStr × Bytes) := do
  if key.isSome ∧ keyFile.isSome then .error (.raised .valueError)
  else do
    let resolved ← files.resolve path
    let keyData ← match keyFile with
      | some file => do
        let keyPath ← files.resolve file
        files.readBytes keyPath
      | none => .ok (key.getD [])
    if keyData.length = 0 ∨ keyData.length = 64 then .ok (resolved, keyData)
    else .error (.raised .valueError)

/-- `except (_native.NativeError, KeyError, TypeError, UnicodeError)` -/
def Caught : OpenError → Option Error
  | .raised .nativeError => some .nativeError
  | .raised .keyError => some .keyError
  | .raised .typeError => some .typeError
  | .raised .unicodeError => some .unicodeError
  | _ => none

/-- `with contextlib.suppress(_native.NativeError): native.close()` -/
def closeSuppressed : OpenAction Unit :=
  Prog.tryCatch (fun e => if e = .raised .nativeError then pure () else Prog.raise e)
    (Prog.perform OpenCall.close)

/-- The `except` clause; `native` is not `None` once the handle was constructed. -/
def exceptClause (path : PyStr) (constructed : Bool) (e : OpenError) : OpenAction OpenedRealm :=
  match Caught e with
  | none => Prog.raise e
  | some cause =>
    if constructed then do
      closeSuppressed
      Prog.raise (.realmOpenError cause (recoveryAdvice path))
    else Prog.raise (.realmOpenError cause (recoveryAdvice path))

/-- `Realm(resolved, native)` -/
def newRealm (path : PyStr) : OpenAction OpenedRealm := do
  let value ← Prog.perform .schema
  Prog.done ((initTables path value).mapError .raised)

/-- `open_realm` -/
def openRealm (files : Files) (path : PyStr) (key : Option Bytes) (keyFile : Option PyStr) :
    OpenAction OpenedRealm := do
  let arguments ← Prog.done (openArguments files path key keyFile)
  Prog.call (.construct arguments.1 arguments.2) fun answer =>
    match answer with
    | .error e => exceptClause arguments.1 false e
    | .ok _ => Prog.tryCatch (exceptClause arguments.1 true) (newRealm arguments.1)

/-! ## What a schema raises -/

/-- What a malformed value raises. -/
def Malformed (e : Error) : Prop := e = .keyError ∨ e = .typeError

theorem malformed_keyError : Malformed .keyError := Or.inl rfl

theorem malformed_typeError : Malformed .typeError := Or.inr rfl

theorem iterate_raisesOnly (value : Dyn) : RaisesOnly Malformed (iterate value) := by
  unfold iterate
  split
  · exact .ok _
  · exact .error malformed_typeError
  · exact .ok _
  · exact .ok _

theorem subscript_raisesOnly (value : Dyn) (key : String) : RaisesOnly Malformed (subscript value key) := by
  unfold subscript
  split
  · split
    · exact .ok _
    · exact .error malformed_keyError
  · exact .error malformed_typeError

theorem argument_raisesOnly (entries : List (Scalar × Dyn)) (name : String) :
    RaisesOnly Malformed (argument entries name) := by
  unfold argument
  split
  · exact .ok _
  · exact .error malformed_typeError

theorem hashed_raisesOnly (value : Dyn) : RaisesOnly Malformed (hashed value) := by
  unfold hashed
  split
  · exact .ok _
  · exact .error malformed_typeError

theorem dynProperty_raisesOnly (prop : Dyn) : RaisesOnly Malformed (dynProperty prop) := by
  unfold dynProperty
  split
  · next entries =>
    have harg := argument_raisesOnly entries
    split
    · exact (harg _).bind fun _ => (harg _).bind fun _ => (harg _).bind fun _ => (harg _).bind
        fun _ => (harg _).bind fun _ => (harg _).bind fun _ => (harg _).bind fun _ =>
          (harg _).bind fun _ => (harg _).bind fun _ => (harg _).bind fun _ => .ok _
    · exact .error malformed_typeError
  · exact .error malformed_typeError

theorem dynTable_raisesOnly (item : Dyn) : RaisesOnly Malformed (dynTable item) := by
  have hsub := subscript_raisesOnly item
  unfold dynTable
  exact (hsub _).bind fun _ => (hsub _).bind fun _ => (hsub _).bind fun _ => (hsub _).bind
    fun _ => (hsub _).bind fun _ => (hsub _).bind fun properties =>
      (iterate_raisesOnly properties).bind fun props =>
        (RaisesOnly.mapM dynProperty_raisesOnly props).bind fun _ => .ok _

/-- **The walk through any schema** raises `KeyError` or `TypeError`, or returns. -/
theorem initTables_raisesOnly (path : PyStr) (value : Dyn) : RaisesOnly Malformed (initTables path value) := by
  unfold initTables
  refine (iterate_raisesOnly value).bind fun items =>
    (RaisesOnly.mapM dynTable_raisesOnly items).bind fun schema => ?_
  refine RaisesOnly.bind (.mapM (fun item => ?_) schema) fun byName =>
    RaisesOnly.bind (.mapM (fun item => ?_) schema) fun byKey => .ok _
  · exact (hashed_raisesOnly item.name).bind fun _ => .ok _
  · exact (hashed_raisesOnly item.key).bind fun _ => .ok _

/-! ## The schema of classes -/

/-- A Python `str`. -/
def dynStr (text : PyStr) : Dyn := .scalar (.str (codePoints (String.ofList text)))

def dynOptional : Option PyStr → Dyn
  | some text => dynStr text
  | none => .scalar .none

/-- The dictionary that `NativeRealm::schema` makes of a property. -/
def propertyInfo (p : PropertySchema) : Dyn :=
  .dict [(.str (codePoints "name"), dynStr p.name),
    (.str (codePoints "public_name"), dynOptional p.publicName),
    (.str (codePoints "key"), .scalar (.int p.key)), (.str (codePoints "type"), dynStr p.type),
    (.str (codePoints "collection"), dynStr p.collection),
    (.str (codePoints "nullable"), .scalar (.bool p.nullable)),
    (.str (codePoints "primary_key"), .scalar (.bool p.primaryKey)),
    (.str (codePoints "indexed"), .scalar (.bool p.indexed)),
    (.str (codePoints "link_target"), dynOptional p.linkTarget),
    (.str (codePoints "link_origin_property"), dynOptional p.linkOriginProperty)]

/-- The dictionary that it makes of a class. -/
def classInfo (t : TableSchema) : Dyn :=
  .dict [(.str (codePoints "name"), dynStr t.name), (.str (codePoints "key"), .scalar (.int t.key)),
    (.str (codePoints "primary_key"), dynOptional t.primaryKey),
    (.str (codePoints "embedded"), .scalar (.bool t.embedded)),
    (.str (codePoints "asymmetric"), .scalar (.bool t.asymmetric)),
    (.str (codePoints "properties"), .list (t.properties.map propertyInfo))]

def PropertySchema.opened (p : PropertySchema) : DynProperty :=
  ⟨dynStr p.name, dynOptional p.publicName, .scalar (.int p.key), dynStr p.type,
    dynStr p.collection, .scalar (.bool p.nullable), .scalar (.bool p.primaryKey),
    .scalar (.bool p.indexed), dynOptional p.linkTarget, dynOptional p.linkOriginProperty⟩

def TableSchema.opened (t : TableSchema) : DynTable :=
  ⟨dynStr t.name, .scalar (.int t.key), dynOptional t.primaryKey, .scalar (.bool t.embedded),
    .scalar (.bool t.asymmetric), t.properties.map PropertySchema.opened⟩

theorem dynProperty_propertyInfo (p : PropertySchema) :
    dynProperty (propertyInfo p) = .ok p.opened := by
  rfl

theorem dynTable_classInfo (t : TableSchema) : dynTable (classInfo t) = .ok t.opened := by
  have hall : (t.properties.map propertyInfo).mapM dynProperty =
      .ok (t.properties.map PropertySchema.opened) := by
    rw [List.mapM_map]
    exact mapM_eq_ok _ _ _ fun p _ => dynProperty_propertyInfo p
  show ((t.properties.map propertyInfo).mapM dynProperty >>= _) = _
  rw [hall]
  rfl

/-- **The schema of any classes opens**, and is the reader's. -/
theorem initTables_tables {native : NativeSchema} {realm : RealmSchema}
    (h : initRealm native = .ok realm) (path : PyStr) :
    ∃ tables, native.classes.mapM describe = .ok tables ∧
      ∃ opened, initTables path (.list (tables.map classInfo)) = .ok opened ∧
        opened.schema = realm.schema.map TableSchema.opened := by
  rw [initRealm, bind_eq_ok_iff] at h
  obtain ⟨tables, htables, h⟩ := h
  cases h
  refine ⟨tables, htables, ?_⟩
  have hall : (tables.map classInfo).mapM dynTable = .ok (tables.map TableSchema.opened) := by
    rw [List.mapM_map]
    exact mapM_eq_ok _ _ _ fun t _ => dynTable_classInfo t
  have hpairs : ∀ {f : TableSchema → Scalar} {g : DynTable → Dyn},
      (∀ t, g (TableSchema.opened t) = .scalar (f t)) →
      ((tables.map TableSchema.opened).mapM fun item => do
        let key ← hashed (g item)
        Except.ok (key, item)) = .ok (tables.map fun t => (f t, t.opened)) := by
    intro f g hg
    rw [List.mapM_map]
    refine mapM_eq_ok _ _ _ fun t _ => ?_
    show (hashed (g t.opened) >>= _) = _
    rw [hg]
    rfl
  refine ⟨⟨path, tables.map TableSchema.opened,
    tables.map fun t => (.str (codePoints (String.ofList t.name)), t.opened),
    tables.map fun t => (.int t.key, t.opened)⟩, ?_, rfl⟩
  show ((tables.map classInfo).mapM dynTable >>= _) = _
  rw [hall, ok_bind, hpairs (g := DynTable.name) fun t => rfl, ok_bind,
    hpairs (g := DynTable.key) fun t => rfl]
  rfl

/-! ## The handle -/

/-- What the native layer does while a realm is opened. -/
def OpenAnswers (_ : List OpenEvent) : OpenEvent → Prop
  | ⟨.construct _ _, answer⟩ =>
    ∀ e, answer = .error e → e = .raised .nativeError ∨ e = .raised .unicodeError
  | ⟨.schema, answer⟩ =>
    ∀ e, answer = .error e → e = .raised .nativeError ∨ e = .raised .unicodeError
  | ⟨.close, answer⟩ => ∀ e, answer = .error e → e = .raised .nativeError

/-- A handle was constructed. -/
def Constructed (events : List OpenEvent) : Prop :=
  ∃ path key, ⟨.construct path key, .ok ()⟩ ∈ events

def OpenCall.isClose : OpenCall → Bool
  | .close => true
  | _ => false

/-- How often it was closed. -/
def closes (events : List OpenEvent) : Nat :=
  events.countP fun event => event.command.isClose

/-- A realm with an open handle, or `RealmOpenError` and no open handle. -/
def OpensOrCloses (events : List OpenEvent) : Except OpenError OpenedRealm → Prop
  | .ok _ => Constructed events ∧ closes events = 0
  | .error e => (∃ cause advice, e = .realmOpenError cause advice) ∧
      (Constructed events → closes events = 1) ∧ (¬ Constructed events → closes events = 0)

theorem openAnswers_serial (past : List OpenEvent) (c : OpenCall) :
    ∃ answer, OpenAnswers past ⟨c, answer⟩ := by
  refine ⟨.error (.raised .nativeError), ?_⟩
  cases c with
  | construct path key =>
    intro e he
    cases he
    exact Or.inl rfl
  | schema =>
    intro e he
    cases he
    exact Or.inl rfl
  | close =>
    intro e he
    cases he
    rfl

section
variable {past : List OpenEvent}

theorem Constructed.append (h : Constructed past) (events : List OpenEvent) :
    Constructed (past ++ events) := by
  obtain ⟨path, key, hm⟩ := h
  exact ⟨path, key, List.mem_append_left _ hm⟩

/-- The constructor of `Realm` leaves the handle open, and what it raises is caught. -/
theorem newRealm_spec (hopen : Constructed past) (hnone : closes past = 0) (path : PyStr) :
    wp (recorded OpenAnswers) (newRealm path) (fun _ now => Constructed now ∧ closes now = 0)
      (fun e now => (Constructed now ∧ closes now = 0) ∧ ∃ cause, Caught e = some cause) past := by
  have hasked : ∀ answer : Except OpenError Dyn, Constructed (past ++ [⟨.schema, answer⟩]) ∧
      closes (past ++ [⟨.schema, answer⟩]) = 0 := by
    intro answer
    refine ⟨hopen.append _, ?_⟩
    rw [closes, List.countP_append, ← closes, hnone]
    rfl
  rw [newRealm, wp_bind, wp_recorded]
  constructor
  · intro value _
    cases hinit : initTables path value with
    | ok realm => exact hasked (.ok value)
    | error e =>
      refine ⟨hasked (.ok value), ?_⟩
      rcases initTables_raisesOnly path value e hinit with rfl | rfl
      · exact ⟨_, rfl⟩
      · exact ⟨_, rfl⟩
  · intro e hschema
    refine ⟨hasked (.error e), ?_⟩
    rcases hschema e rfl with rfl | rfl
    · exact ⟨_, rfl⟩
    · exact ⟨_, rfl⟩

/-- **The `except` clause** closes the handle once, whether or not closing fails. -/
theorem exceptClause_closes (hopen : Constructed past) (hnone : closes past = 0) {e : OpenError}
    {cause : Error} (he : Caught e = some cause) (path : PyStr) :
    wp (recorded OpenAnswers) (exceptClause path true e)
      (fun realm now => OpensOrCloses now (.ok realm)) (fun e now => OpensOrCloses now (.error e))
      past := by
  have hclosed : ∀ answer : Except OpenError Unit,
      OpensOrCloses (past ++ [⟨.close, answer⟩])
        (.error (.realmOpenError cause (recoveryAdvice path))) := by
    intro answer
    refine ⟨⟨_, _, rfl⟩, fun _ => ?_, fun hno => absurd (hopen.append _) hno⟩
    rw [closes, List.countP_append, ← closes, hnone]
    rfl
  unfold exceptClause
  rw [he]
  show wp _ (closeSuppressed >>= _) _ _ past
  rw [wp_bind, closeSuppressed, wp_tryCatch, wp_recorded]
  constructor
  · intro _ _
    exact hclosed (.ok ())
  · intro e' hclose
    rw [if_pos (hclose e' rfl)]
    exact hclosed (.error e')

end

/-- **Opening** returns a realm and leaves its handle open, or raises
`RealmOpenError`, having closed the handle once if there was one: whatever the
constructor, `schema()` and `close()` do. -/
theorem openRealm_closes {files : Files} {path : PyStr} {key : Option Bytes}
    {keyFile : Option PyStr} {resolved : PyStr × Bytes}
    (h : openArguments files path key keyFile = .ok resolved) :
    (∃ events out, Runs (recorded OpenAnswers) [] (openRealm files path key keyFile) events out) ∧
    ∀ events out, Runs (recorded OpenAnswers) [] (openRealm files path key keyFile) events out →
      OpensOrCloses events out := by
  refine ⟨exists_runs _ (recorded_serial openAnswers_serial) _ [], fun events out hrun => ?_⟩
  have hspec : wp (recorded OpenAnswers) (openRealm files path key keyFile)
      (fun realm now => OpensOrCloses now (.ok realm)) (fun e now => OpensOrCloses now (.error e))
      [] := by
    rw [openRealm, h]
    rintro answer _ ⟨ha, rfl⟩
    cases answer with
    | error e =>
      -- no handle was constructed
      have hno : ¬ Constructed [⟨.construct resolved.1 resolved.2, .error e⟩] := by
        rintro ⟨path, key, hm⟩
        cases List.mem_singleton.mp hm
      rcases ha e rfl with rfl | rfl
      · exact ⟨⟨_, _, rfl⟩, fun hopen => absurd hopen hno, fun _ => rfl⟩
      · exact ⟨⟨_, _, rfl⟩, fun hopen => absurd hopen hno, fun _ => rfl⟩
    | ok _ =>
      have hopen : Constructed [⟨.construct resolved.1 resolved.2, .ok ()⟩] :=
        ⟨_, _, List.mem_cons_self⟩
      show wp _ (Prog.tryCatch _ (newRealm resolved.1)) _ _ _
      rw [wp_tryCatch]
      refine wp_mono (newRealm_spec hopen rfl resolved.1) (fun _ _ hnow => hnow) ?_
      rintro e now ⟨⟨hopen', hnone⟩, cause, he⟩
      exact exceptClause_closes hopen' hnone he resolved.1
  exact hrun.of_wp hspec

/-- A class without a name, as the malformed schema of the tests has it; `close()` fails too. -/
theorem openRealm_closes_malformed : ∃ events,
    Runs (recorded OpenAnswers) [] (openRealm ⟨.ok, fun _ => .ok []⟩ "a".toList none none) events
      (.error (.realmOpenError .keyError (recoveryAdvice "a".toList))) ∧
    Constructed events ∧ closes events = 1 := by
  let value : Dyn := .list [.dict [(.str (codePoints "key"), .scalar (.int 1))]]
  have hrun : Runs (recorded OpenAnswers) []
      (openRealm ⟨.ok, fun _ => .ok []⟩ "a".toList none none)
      [⟨.construct "a".toList [], .ok ()⟩, ⟨.schema, .ok value⟩,
        ⟨.close, .error (.raised .nativeError)⟩]
      (.error (.realmOpenError .keyError (recoveryAdvice "a".toList))) := by
    refine .call (.ok ()) ⟨?_, rfl⟩ ?_
    · intro e he
      cases he
    · refine .call (.ok value) ⟨?_, rfl⟩ ?_
      · intro e he
        cases he
      · refine .call (.error (.raised .nativeError)) ⟨?_, rfl⟩ (.done _ _)
        intro e he
        cases he
        rfl
  have hopen : Constructed [⟨.construct "a".toList [], .ok ()⟩, ⟨.schema, .ok value⟩,
      ⟨.close, .error (.raised .nativeError)⟩] := ⟨_, _, List.mem_cons_self⟩
  have harguments : openArguments ⟨.ok, fun _ => .ok []⟩ "a".toList none none =
      .ok ("a".toList, []) := by rfl
  have hends := (openRealm_closes harguments).2 _ _ hrun
  exact ⟨_, hrun, hopen, hends.2.1 hopen⟩

end Pyrealm.Reader
