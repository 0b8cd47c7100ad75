import Mathlib.Data.List.Forall2
import Mathlib.Data.List.TakeWhile
import Pyrealm.Pool.Effects
import Pyrealm.Reader.Native

/-!
# Query marshalling

`Table.where`, `NativeRealm::query` and `query_value`: the text of a query and
its parameters on their way to Realm Core.

    every run is faithful  ↔  Marshals      (where_faithful_iff)

* `parameters_read`: after the second loop, Realm Core reads every argument from
  the storage of its own parameter.
-/

namespace Pyrealm.Reader

open Py Effects

/-! ## Data -/

inductive Param where
  | none
  | bool (b : Bool)
  | int (n : Int)
  | float (bits : UInt64)
  | str (text : List CodePoint)
  | bytes (data : Bytes)
deriving DecidableEq

inductive PyType where
  | bool | int | float | str | bytes

/-- `isinstance(p, type)`; `bool` is a subclass of `int`. -/
def Param.isinstance : Param → PyType → Bool
  | .bool _, .bool | .bool _, .int | .int _, .int | .float _, .float | .str _, .str
  | .bytes _, .bytes => true
  | _, _ => false

/-- Where a `QueryValue` is in memory: in `query_value`, or in the vector `values`. -/
inductive Place where
  | output
  | slot (i : Nat)
deriving DecidableEq

/-- The `data()` of a storage, by the place of the `QueryValue` it belongs to. -/
inductive Pointer where
  | null
  | string (place : Place)
  | binary (place : Place)
deriving DecidableEq

/-- `realm_value_t` -/
inductive RealmValue where
  | null
  | bool (b : Bool)
  | int (n : Int)
  | double (bits : UInt64)
  | string (data : Pointer) (size : Nat)
  | binary (data : Pointer) (size : Nat)

structure QueryValue where
  value : RealmValue
  stringStorage : Bytes
  binaryStorage : Bytes

/-- What Realm Core finds behind an argument.  `dangling` is a read of memory
that no longer holds the value. -/
inductive CoreArg where
  | null
  | bool (b : Bool)
  | int (n : Int)
  | double (bits : UInt64)
  | string (data : Bytes)
  | binary (data : Bytes)
  | dangling
deriving DecidableEq

inductive CoreCall where
  /-- `realm_query_parse` -/
  | parse (classKey : Int) (text : Bytes) (args : List CoreArg)
  /-- `realm_query_find_all` -/
  | findAll
  /-- `realm_results_count` -/
  | count

abbrev CoreAnswer : CoreCall → Type
  | .parse _ _ _ => Unit
  | .findAll => Unit
  | .count => Nat

abbrev CoreEvent : Type := Event CoreCall CoreAnswer Error

/-- A call of Realm Core returns, or the native layer throws `NativeError`. -/
def CoreAnswers (_ : List CoreEvent) (ev : CoreEvent) : Prop :=
  ∀ e, ev.answer = .error e → e = .nativeError

/-! ## Algorithm -/

/-- `py::cast<bool>` -/
def castBool : Param → Except Error Bool
  | .bool b => .ok b
  | _ => .error .runtimeError

/-- `py::cast<std::int64_t>`; a value that does not fit raises `cast_error`. -/
def castInt64 : Param → Except Error Int
  | .int n => if -2 ^ 63 ≤ n ∧ n < 2 ^ 63 then .ok n else .error .runtimeError
  | .bool b => .ok b.toNat
  | _ => .error .runtimeError

/-- `py::cast<double>`, of a `float`. -/
def castDouble : Param → Except Error UInt64
  | .float bits => .ok bits
  | _ => .error .runtimeError

/-- `py::cast<std::string>`: the UTF-8 encoding of a `str`, the bytes of a `bytes`. -/
def castString : Param → Except Error Bytes
  | .str text =>
    match encodeStr text with
    | some data => .ok data
    | none => .error .runtimeError
  | .bytes data => .ok data
  | _ => .error .runtimeError

section
/- Whether `data()` of an empty vector is a null pointer. -/
variable (nullEmpty : Bool)

/-- `binary_storage.data()` -/
def binaryData (place : Place) (storage : Bytes) : Pointer :=
  if nullEmpty = true ∧ storage = [] then .null else .binary place

/-- `query_value` -/
def queryValue (input : Param) : Except Error QueryValue :=
  if input = .none then .ok ⟨.null, [], []⟩
  else if input.isinstance .bool then do
    let b ← castBool input
    .ok ⟨.bool b, [], []⟩
  else if input.isinstance .int then do
    let n ← castInt64 input
    .ok ⟨.int n, [], []⟩
  else if input.isinstance .float then do
    let bits ← castDouble input
    .ok ⟨.double bits, [], []⟩
  else if input.isinstance .str then do
    let storage ← castString input
    .ok ⟨.string (.string .output) storage.length, storage, []⟩
  else if input.isinstance .bytes then do
    let storage ← castString input
    .ok ⟨.binary (binaryData nullEmpty .output storage) storage.length, [], storage⟩
  else .error .typeError

/-- The body of the second loop of `NativeRealm::query`, for `values[i]`. -/
def repoint (i : Nat) (v : QueryValue) : QueryValue :=
  match v.value with
  | .string _ _ => { v with value := .string (.string (.slot i)) v.stringStorage.length }
  | .binary _ _ =>
    { v with value := .binary (binaryData nullEmpty (.slot i) v.binaryStorage) v.binaryStorage.length }
  | _ => v

/-- What `realm_query_parse` reads through an argument, the vector being in memory. -/
def readArg (values : List QueryValue) : RealmValue → CoreArg
  | .null => .null
  | .bool b => .bool b
  | .int n => .int n
  | .double bits => .double bits
  | .string .null _ => .null
  | .string (.string (.slot i)) size =>
    (values[i]?).elim .dangling fun v => .string (v.stringStorage.take size)
  | .string _ _ => .dangling
  | .binary .null _ => .null
  | .binary (.binary (.slot i)) size =>
    (values[i]?).elim .dangling fun v => .binary (v.binaryStorage.take size)
  | .binary _ _ => .dangling

/-- The text behind a `const char*`. -/
def cString (data : Bytes) : Bytes := data.takeWhile (· ≠ 0)

def call (c : CoreCall) : Prog CoreCall CoreAnswer Error (CoreAnswer c) := Prog.perform c

/-- `NativeRealm::query`, for the class of the table's name. -/
def nativeQuery (classKey : Int) (queryText : Bytes) (args : List Param) :
    Prog CoreCall CoreAnswer Error Nat := do
  let values ← Prog.done (args.mapM (queryValue nullEmpty))
  let values := values.mapIdx (repoint nullEmpty)
  call (.parse classKey (cString queryText) (values.map fun v => readArg values v.value))
  call .findAll
  call .count

/-- `except _native.NativeError as error` in `Table.where` -/
def translateQuery : Error → Error
  | .nativeError => .realmQueryError
  | e => e

/-- The call of `self._realm._native.query`; text that does not encode is no
argument of the bound function. -/
def callQuery (classKey : Int) (query : List CodePoint) (parameters : List Param) :
    Prog CoreCall CoreAnswer Error Nat :=
  match encodeStr query with
  | some text => nativeQuery nullEmpty classKey text parameters
  | none => Prog.raise .typeError

/-- `Table.where` -/
def tableWhere (classKey : Int) (query : List CodePoint) (parameters : List Param) :
    Prog CoreCall CoreAnswer Error Nat :=
  Prog.tryCatch (fun e => Prog.raise (translateQuery e))
    (callQuery nullEmpty classKey query parameters)

end

/-! ## Faithful runs -/

/-- An argument of the parameter's type with the parameter's value. -/
def Denotes : Param → CoreArg → Prop
  | .none, arg => arg = .null
  | .bool b, arg => arg = .bool b
  | .int n, arg => arg = .int n
  | .float bits, arg => arg = .double bits
  | .str text, arg => ∃ data, encodeStr text = some data ∧ arg = .string data
  | .bytes data, arg => arg = .binary data

/-- Realm Core parses the whole text, with the parameters. -/
def Exact (classKey : Int) (query : List CodePoint) (parameters : List Param) (c : CoreCall) : Prop :=
  ∃ text args, c = .parse classKey text args ∧ encodeStr query = some text ∧
    List.Forall₂ Denotes parameters args

def CoreCall.IsParse : CoreCall → Prop
  | .parse _ _ _ => True
  | _ => False

/-- The query was parsed, and only as it stands. -/
def ParsedExactly (classKey : Int) (query : List CodePoint) (parameters : List Param)
    (final : List CoreEvent) : Prop :=
  (∃ ev ∈ final, Exact classKey query parameters ev.command) ∧
    ∀ ev ∈ final, ev.command.IsParse → Exact classKey query parameters ev.command

/-- A run of `Table.where`: the query is parsed as it stands, or the call raises
`RealmQueryError` or `TypeError` and no query runs. -/
def Faithful (classKey : Int) (query : List CodePoint) (parameters : List Param)
    (final : List CoreEvent) (out : Except Error Nat) : Prop :=
  ParsedExactly classKey query parameters final ∨
    (out = .error .realmQueryError ∨ out = .error .typeError) ∧ ∀ ev ∈ final, ev.command ≠ .findAll

/-- The parameter has a value of its C++ type. -/
def Castable : Param → Prop
  | .int n => -2 ^ 63 ≤ n ∧ n < 2 ^ 63
  | .str text => ∀ c ∈ text, ¬ IsSurrogate c
  | _ => True

/-- The text holds a surrogate; or no U+0000, and the parameters have values of
their C++ types, and no empty `bytes` becomes a null pointer. -/
def Marshals (nullEmpty : Bool) (query : List CodePoint) (parameters : List Param) : Prop :=
  (∃ c ∈ query, IsSurrogate c) ∨
    0 ∉ query ∧ ∀ p ∈ parameters, Castable p ∧ ¬ (nullEmpty = true ∧ p = .bytes [])

/-- The parameter that an argument denotes a text of. -/
theorem denotes_string_iff (p : Param) (data : Bytes) :
    Denotes p (.string data) ↔ ∃ text, p = .str text ∧ encodeStr text = some data := by
  cases p <;> simp [Denotes, eq_comm]

/-- Different parameters never have one argument. -/
theorem denotes_inj {p q : Param} {arg : CoreArg} (hp : Denotes p arg) (hq : Denotes q arg) :
    p = q := by
  cases arg with
  | string data =>
    obtain ⟨text, rfl, ht⟩ := (denotes_string_iff p data).mp hp
    obtain ⟨text', rfl, ht'⟩ := (denotes_string_iff q data).mp hq
    rw [encodeStr_inj ht ht']
  | _ =>
    cases p <;> simp only [Denotes, reduceCtorEq, and_false, exists_false] at hp
    all_goals cases q <;> simp only [Denotes, reduceCtorEq, and_false, exists_false] at hq
    all_goals grind

/-! ## Parameters -/

section
variable (nullEmpty : Bool)

/-- What Realm Core finds behind the argument of a castable parameter. -/
def argOf : Param → CoreArg
  | .none => .null
  | .bool b => .bool b
  | .int n => .int n
  | .float bits => .double bits
  | .str text => .string ((encodeStr text).getD [])
  | .bytes data => if nullEmpty = true ∧ data = [] then .null else .binary data

/-- `v`, at any place of the vector, is read as the argument of `p`. -/
def ReadsAs (p : Param) (v : QueryValue) : Prop :=
  ∀ (values : List QueryValue) (i : Nat), values[i]? = some (repoint nullEmpty i v) →
    readArg values (repoint nullEmpty i v).value = argOf nullEmpty p

theorem castable_str_iff (text : List CodePoint) :
    Castable (.str text) ↔ ∃ data, encodeStr text = some data := by
  rw [← Option.ne_none_iff_exists', Ne, encodeStr_eq_none_iff]
  simp only [Castable, not_exists, not_and]

theorem queryValue_int (n : Int) : queryValue nullEmpty (.int n) =
    castInt64 (.int n) >>= fun n => .ok (QueryValue.mk (.int n) [] []) := rfl

theorem queryValue_str (text : List CodePoint) : queryValue nullEmpty (.str text) =
    castString (.str text) >>= fun s =>
      .ok (QueryValue.mk (.string (.string .output) s.length) s []) := rfl

theorem queryValue_of_castable {p : Param} (h : Castable p) :
    ∃ v, queryValue nullEmpty p = .ok v ∧ ReadsAs nullEmpty p v := by
  cases p with
  | none => exact ⟨_, rfl, fun _ _ _ => rfl⟩
  | bool b => exact ⟨_, rfl, fun _ _ _ => rfl⟩
  | int n =>
    have hcast : castInt64 (.int n) = .ok n := if_pos h
    exact ⟨⟨.int n, [], []⟩, by rw [queryValue_int, hcast, ok_bind], fun _ _ _ => rfl⟩
  | float bits => exact ⟨_, rfl, fun _ _ _ => rfl⟩
  | str text =>
    obtain ⟨data, hd⟩ := (castable_str_iff text).mp h
    have hcast : castString (.str text) = .ok data := by rw [castString, hd]
    refine ⟨⟨.string (.string .output) data.length, data, []⟩, ?_, fun values i hv => ?_⟩
    · rw [queryValue_str, hcast, ok_bind]
    · simp only [repoint] at hv ⊢
      simp only [readArg, hv, Option.elim_some, List.take_length, argOf, hd, Option.getD_some]
  | bytes data =>
    refine ⟨_, rfl, fun values i hv => ?_⟩
    simp only [repoint] at hv ⊢
    unfold argOf
    by_cases he : nullEmpty = true ∧ data = []
    · simp only [binaryData, if_pos he, readArg]
    · simp only [binaryData, if_neg he] at hv ⊢
      simp only [readArg, hv, Option.elim_some, List.take_length]

theorem queryValue_of_not_castable {p : Param} (h : ¬ Castable p) :
    queryValue nullEmpty p = .error .runtimeError := by
  cases p with
  | int n =>
    have hcast : castInt64 (.int n) = .error .runtimeError := if_neg h
    rw [queryValue_int, hcast, error_bind]
  | str text =>
    have hnone : encodeStr text = none := by
      rw [castable_str_iff, not_exists] at h
      exact Option.eq_none_iff_forall_ne_some.mpr h
    have hcast : castString (.str text) = .error .runtimeError := by rw [castString, hnone]
    rw [queryValue_str, hcast, error_bind]
  | _ => exact absurd trivial h

theorem mapM_queryValue_of_castable {parameters : List Param} (h : ∀ p ∈ parameters, Castable p) :
    ∃ values, parameters.mapM (queryValue nullEmpty) = .ok values ∧
      List.Forall₂ (ReadsAs nullEmpty) parameters values := by
  induction parameters with
  | nil => exact ⟨[], rfl, .nil⟩
  | cons p parameters ih =>
    obtain ⟨v, hv, hr⟩ := queryValue_of_castable nullEmpty (h p List.mem_cons_self)
    obtain ⟨values, hvs, hrs⟩ := ih fun q hq => h q (List.mem_cons_of_mem _ hq)
    refine ⟨v :: values, ?_, .cons hr hrs⟩
    rw [List.mapM_cons, hv, ok_bind, hvs, ok_bind]
    rfl

theorem mapM_queryValue_of_not_castable {parameters : List Param} {p : Param} (hp : p ∈ parameters)
    (h : ¬ Castable p) : parameters.mapM (queryValue nullEmpty) = .error .runtimeError := by
  induction parameters with
  | nil => cases hp
  | cons q parameters ih =>
    rw [List.mapM_cons]
    by_cases hq : Castable q
    · obtain ⟨v, hv, -⟩ := queryValue_of_castable nullEmpty hq
      rcases List.mem_cons.mp hp with rfl | hp
      · exact absurd hq h
      · rw [hv, ok_bind, ih hp, error_bind]
    · rw [queryValue_of_not_castable nullEmpty hq, error_bind]

/-- **Every argument is read from its own parameter's storage.** -/
theorem parameters_read {parameters : List Param} {values : List QueryValue}
    (h : List.Forall₂ (ReadsAs nullEmpty) parameters values) :
    ((values.mapIdx (repoint nullEmpty)).map fun v =>
      readArg (values.mapIdx (repoint nullEmpty)) v.value) = parameters.map (argOf nullEmpty) := by
  have hlen := h.length_eq
  apply List.ext_getElem
  · simp only [List.length_map, List.length_mapIdx, hlen]
  · intro i h1 h2
    rw [List.length_map] at h2
    have hi : i < values.length := by omega
    have hr := h.get h2 hi
    rw [List.getElem_map, List.getElem_map, List.getElem_mapIdx]
    refine hr _ i ?_
    rw [List.getElem?_mapIdx, List.getElem?_eq_getElem hi]
    rfl

theorem denotes_argOf_iff {p : Param} (h : Castable p) :
    Denotes p (argOf nullEmpty p) ↔ ¬ (nullEmpty = true ∧ p = .bytes []) := by
  cases p with
  | str text =>
    obtain ⟨data, hd⟩ := (castable_str_iff text).mp h
    simp [Denotes, argOf, hd]
  | bytes data =>
    by_cases he : nullEmpty = true ∧ data = []
    · simp [Denotes, argOf, he]
    · simp [Denotes, argOf, he]
  | _ => simp [Denotes, argOf]

theorem forall₂_denotes_iff {parameters : List Param} (h : ∀ p ∈ parameters, Castable p) :
    List.Forall₂ Denotes parameters (parameters.map (argOf nullEmpty)) ↔
      ∀ p ∈ parameters, ¬ (nullEmpty = true ∧ p = .bytes []) := by
  rw [List.forall₂_map_right_iff, List.forall₂_same]
  exact forall₂_congr fun p hp => denotes_argOf_iff nullEmpty (h p hp)

/-! ## Runs -/

theorem cString_eq_self_iff (data : Bytes) : cString data = data ↔ 0 ∉ data := by
  rw [cString, List.takeWhile_eq_self_iff]
  constructor
  · intro h h0
    exact absurd rfl (of_decide_eq_true (h 0 h0))
  · intro h b hb
    refine decide_eq_true fun h0 => ?_
    subst h0
    exact h hb

variable (classKey : Int) {query : List CodePoint} {parameters : List Param}

/-- What the castable case of `Table.where` comes to. -/
theorem callQuery_of_castable {text : Bytes} (ht : encodeStr query = some text)
    (h : ∀ p ∈ parameters, Castable p) :
    callQuery nullEmpty classKey query parameters =
      call (.parse classKey (cString text) (parameters.map (argOf nullEmpty))) >>= fun _ =>
        call .findAll >>= fun _ => call .count := by
  obtain ⟨values, hv, hr⟩ := mapM_queryValue_of_castable nullEmpty h
  rw [callQuery, ht]
  show nativeQuery nullEmpty classKey text parameters = _
  rw [nativeQuery, hv, ← parameters_read nullEmpty hr]
  rfl

theorem callQuery_of_not_castable {text : Bytes} (ht : encodeStr query = some text) {p : Param}
    (hp : p ∈ parameters) (h : ¬ Castable p) :
    callQuery nullEmpty classKey query parameters = Prog.raise .runtimeError := by
  rw [callQuery, ht]
  show nativeQuery nullEmpty classKey text parameters = _
  rw [nativeQuery, mapM_queryValue_of_not_castable nullEmpty hp h]
  rfl

theorem exact_parse_iff {text : Bytes} (ht : encodeStr query = some text)
    (h : ∀ p ∈ parameters, Castable p) :
    Exact classKey query parameters
        (.parse classKey (cString text) (parameters.map (argOf nullEmpty))) ↔
      0 ∉ query ∧ ∀ p ∈ parameters, ¬ (nullEmpty = true ∧ p = .bytes []) := by
  rw [← forall₂_denotes_iff nullEmpty h, ← zero_mem_encodeStr ht, ← cString_eq_self_iff]
  constructor
  · rintro ⟨text', args, he, ht', hd⟩
    cases he
    rw [ht] at ht'
    exact ⟨(Option.some.inj ht').symm, hd⟩
  · rintro ⟨hc, hd⟩
    exact ⟨_, _, rfl, ht.trans (congrArg some hc.symm), hd⟩

/-- Calls after an exact parse do not parse again. -/
theorem ParsedExactly.append {final : List CoreEvent} (h : ParsedExactly classKey query parameters final)
    {ev : CoreEvent} (hev : ¬ ev.command.IsParse) :
    ParsedExactly classKey query parameters (final ++ [ev]) := by
  obtain ⟨⟨ev', hm, he⟩, hall⟩ := h
  refine ⟨⟨ev', List.mem_append_left _ hm, he⟩, fun ev'' hm'' hp => ?_⟩
  rcases List.mem_append.mp hm'' with hm'' | hm''
  · exact hall ev'' hm'' hp
  · rw [List.mem_singleton] at hm''
    exact absurd (hm'' ▸ hp) hev

theorem wp_after_parse {final : List CoreEvent} (h : ParsedExactly classKey query parameters final) :
    wp (recorded CoreAnswers) (call .findAll >>= fun _ => call .count)
      (fun _ now => ParsedExactly classKey query parameters now)
      (fun _ now => ParsedExactly classKey query parameters now) final := by
  rw [wp_bind, call, wp_recorded]
  refine ⟨fun a _ => ?_, fun e _ => h.append classKey id⟩
  rw [call, wp_recorded]
  exact ⟨fun n _ => (h.append classKey id).append classKey id,
    fun e _ => (h.append classKey id).append classKey id⟩

theorem tableWhere_spec (h : Marshals nullEmpty query parameters) :
    wp (recorded CoreAnswers) (tableWhere nullEmpty classKey query parameters)
      (fun n final => Faithful classKey query parameters final (.ok n))
      (fun e final => Faithful classKey query parameters final (.error e)) [] := by
  rw [tableWhere, wp_tryCatch]
  rcases h with hs | ⟨h0, hp⟩
  · rw [callQuery, (encodeStr_eq_none_iff query).mpr hs]
    exact Or.inr ⟨Or.inr rfl, nofun⟩
  · cases ht : encodeStr query with
    | none =>
      rw [callQuery, ht]
      exact Or.inr ⟨Or.inr rfl, nofun⟩
    | some text =>
      have hcast : ∀ p ∈ parameters, Castable p := fun p hm => (hp p hm).1
      have hexact := (exact_parse_iff nullEmpty classKey ht hcast).mpr ⟨h0, fun p hm => (hp p hm).2⟩
      have hone : ∀ answer, ParsedExactly classKey query parameters
          ([] ++ [⟨.parse classKey (cString text) (parameters.map (argOf nullEmpty)), answer⟩]) := by
        intro answer
        refine ⟨⟨_, List.mem_singleton_self _, hexact⟩, fun ev hm _ => ?_⟩
        rw [List.nil_append, List.mem_singleton] at hm
        rw [hm]
        exact hexact
      rw [callQuery_of_castable nullEmpty classKey ht hcast, wp_bind, call, wp_recorded]
      refine ⟨fun a _ => ?_, fun e _ => Or.inl (hone _)⟩
      exact wp_mono (wp_after_parse classKey (hone _)) (fun _ _ => Or.inl) fun _ _ => Or.inl

/-- The calls when Realm Core accepts everything. -/
def accepted (text : Bytes) (parameters : List Param) : List CoreEvent :=
  [⟨.parse classKey (cString text) (parameters.map (argOf nullEmpty)), .ok ()⟩,
    ⟨.findAll, .ok ()⟩, ⟨.count, .ok 0⟩]

theorem tableWhere_accepted {text : Bytes} (ht : encodeStr query = some text)
    (h : ∀ p ∈ parameters, Castable p) :
    Runs (recorded CoreAnswers) [] (tableWhere nullEmpty classKey query parameters)
      (accepted nullEmpty classKey text parameters) (.ok 0) := by
  rw [tableWhere, callQuery_of_castable nullEmpty classKey ht h]
  apply Runs.call (.ok ()) ⟨nofun, rfl⟩
  apply Runs.call (.ok ()) ⟨nofun, rfl⟩
  apply Runs.call (.ok 0) ⟨nofun, rfl⟩
  exact Runs.done _ _

theorem exact_of_faithful_accepted {text : Bytes}
    (h : Faithful classKey query parameters (accepted nullEmpty classKey text parameters) (.ok 0)) :
    Exact classKey query parameters
      (.parse classKey (cString text) (parameters.map (argOf nullEmpty))) := by
  rcases h with ⟨-, hall⟩ | ⟨ho | ho, -⟩
  · exact hall _ List.mem_cons_self trivial
  · cases ho
  · cases ho

theorem tableWhere_not_castable {text : Bytes} (ht : encodeStr query = some text) {p : Param}
    (hp : p ∈ parameters) (h : ¬ Castable p) :
    Runs (recorded CoreAnswers) [] (tableWhere nullEmpty classKey query parameters) []
      (.error .runtimeError) := by
  rw [tableWhere, callQuery_of_not_castable nullEmpty classKey ht hp h]
  exact Runs.done _ _

theorem not_faithful_runtimeError :
    ¬ Faithful classKey query parameters [] (.error .runtimeError) := by
  rintro (⟨⟨ev, hm, -⟩, -⟩ | ⟨ho | ho, -⟩)
  · cases hm
  · cases ho
  · cases ho

/-- **A query is marshalled faithfully in all runs exactly when `Marshals` says so.** -/
theorem where_faithful_iff (query : List CodePoint) (parameters : List Param) :
    (∀ final out, Runs (recorded CoreAnswers) []
        (tableWhere nullEmpty classKey query parameters) final out →
      Faithful classKey query parameters final out) ↔ Marshals nullEmpty query parameters := by
  constructor
  · intro h
    cases ht : encodeStr query with
    | none => exact Or.inl ((encodeStr_eq_none_iff query).mp ht)
    | some text =>
      have hcast : ∀ p ∈ parameters, Castable p := by
        by_contra hno
        simp only [not_forall] at hno
        obtain ⟨p, hp, hnp⟩ := hno
        exact not_faithful_runtimeError classKey
          (h _ _ (tableWhere_not_castable nullEmpty classKey ht hp hnp))
      have hexact := exact_of_faithful_accepted nullEmpty classKey
        (h _ _ (tableWhere_accepted nullEmpty classKey ht hcast))
      obtain ⟨h0, hp⟩ := (exact_parse_iff nullEmpty classKey ht hcast).mp hexact
      exact Or.inr ⟨h0, fun p hm => ⟨hcast p hm, hp p hm⟩⟩
  · intro h final out hrun
    exact hrun.of_wp (tableWhere_spec nullEmpty classKey h)

end

/-! ## Queries that drift -/

def codePoints (s : String) : List CodePoint := s.toList.map fun c => Fin.ofNat _ c.toNat

/-- A text is cut at U+0000, an empty `bytes` becomes null, and an integer that
does not fit raises `RuntimeError`. -/
theorem where_drifts :
    (∃ final, Runs (recorded CoreAnswers) []
        (tableWhere true 5 (codePoints "a == 1\x00 AND b == 2") []) final (.ok 0) ∧
      ¬ Faithful 5 (codePoints "a == 1\x00 AND b == 2") [] final (.ok 0)) ∧
    (∃ final, Runs (recorded CoreAnswers) []
        (tableWhere true 5 (codePoints "data == $0") [.bytes []]) final (.ok 0) ∧
      ¬ Faithful 5 (codePoints "data == $0") [.bytes []] final (.ok 0)) ∧
    ∃ final, Runs (recorded CoreAnswers) []
        (tableWhere true 5 (codePoints "n == $0") [.int (2 ^ 63)]) final (.error .runtimeError) ∧
      ¬ Faithful 5 (codePoints "n == $0") [.int (2 ^ 63)] final (.error .runtimeError) := by
  have htext : encodeStr (codePoints "a == 1\x00 AND b == 2") =
      some (encodeUtf8 "a == 1\x00 AND b == 2".toList) := by decide +kernel
  have hdata : encodeStr (codePoints "data == $0") = some (encodeUtf8 "data == $0".toList) := by
    decide +kernel
  have hn : encodeStr (codePoints "n == $0") = some (encodeUtf8 "n == $0".toList) := by
    decide +kernel
  have hnil : ∀ p ∈ ([] : List Param), Castable p := List.forall_mem_nil _
  have hbytes : ∀ p ∈ [Param.bytes []], Castable p := List.forall_mem_singleton.mpr trivial
  refine ⟨⟨_, tableWhere_accepted true 5 htext hnil, fun h => ?_⟩,
    ⟨_, tableWhere_accepted true 5 hdata hbytes, fun h => ?_⟩,
    ⟨_, tableWhere_not_castable true 5 hn (List.mem_singleton_self _) ?_,
      not_faithful_runtimeError 5⟩⟩
  · have hexact := exact_of_faithful_accepted true 5 h
    have h0 := ((exact_parse_iff true 5 htext hnil).mp hexact).1
    exact h0 (by decide +kernel)
  · have hexact := exact_of_faithful_accepted true 5 h
    have hp := ((exact_parse_iff true 5 hdata hbytes).mp hexact).2
    exact hp _ (List.mem_singleton_self _) ⟨rfl, rfl⟩
  · exact fun h => absurd h.2 (by decide)

end Pyrealm.Reader
