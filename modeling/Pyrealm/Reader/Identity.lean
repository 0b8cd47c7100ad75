import Mathlib.Data.List.Forall2
import Pyrealm.Pool.Indexes
import Pyrealm.Reader.Results

/-!
# From an object to its record

`object_to_dict` puts the metadata and the properties into one dictionary, and
`Record.__init__` takes the metadata out again.

    the record is the object's own  ↔  ClearNames      (builds_own_record_iff)

A property named `__table_key__` or `__object_key__` replaces the metadata.
-/

namespace Pyrealm.Reader

open Py Effects Indexes Interning

section
variable (decodeReplace : Bytes → PyStr)

/-! ## The record of an object -/

/-- The record has the keys, the field names and the values of the object. -/
structure OwnRecord (object : CoreObject) (classMeta : ClassMeta) (record : Record) : Prop where
  identity : record.identity = (classMeta.key, object.key)
  names : ∀ name, name ∈ record.raw ↔ ∃ property ∈ visible classMeta, pyStr property.name = .ok name
  values : ∀ property ∈ visible classMeta, ∃ e, Reads decodeReplace object property e ∧
    record.raw.get? e.1 = some e.2

/-- `_record_from_raw`, given the raw dictionary in a realm that has read nothing
else, returns the object's own record. -/
def BuildsOwn (parseDecimal : PyStr → Option PyStr) (object : CoreObject) (classMeta : ClassMeta)
    (raw : Dict PyStr Value) : Prop :=
  ∀ t out, Runs step ⟨Heap.empty, [.ok raw]⟩ (recordFromRaw raw) t out →
    ∃ r record, out = .ok r ∧ t.heap.live r = some record ∧
      Sound parseDecimal [.ok raw] record ∧ OwnRecord decodeReplace object classMeta record

/-- `_record(table_key, object_key)`, in any state of any realm, only returns a
record of that identity when the native layer answers with the raw dictionary. -/
def ReturnsOwn (parseDecimal : PyStr → Option PyStr) (object : CoreObject) (classMeta : ClassMeta)
    (raw : Dict PyStr Value) : Prop :=
  ∀ s, Reachable parseDecimal s → ∀ t r,
    Runs step s (record classMeta.key object.key) t (.ok r) →
    (∀ new, t.answers = s.answers ++ new → ∀ raw', .ok raw' ∈ new → raw' = raw) →
      Yields t r (classMeta.key, object.key)

/-- No visible property has a name of the metadata, and properties of one name
hold one value. -/
structure ClearNames (object : CoreObject) (classMeta : ClassMeta) : Prop where
  unreserved : ∀ property ∈ visible classMeta,
    property.name ≠ encodeUtf8 TABLE_KEY ∧ property.name ≠ encodeUtf8 OBJECT_KEY
  agree : ∀ p ∈ visible classMeta, ∀ q ∈ visible classMeta, p.name = q.name →
    propertyToPython decodeReplace object p = propertyToPython decodeReplace object q

variable {decodeReplace}

/-! ## Metadata and properties in one dictionary -/

theorem get?_metadata (object : CoreObject) (classMeta : ClassMeta) (name : PyStr) :
    (metadata object classMeta).get? name =
      if name = OBJECT_KEY then some (.int object.key)
      else if name = TABLE_KEY then some (.int classMeta.key) else none := by
  rw [metadata, Dict.get?_set, Dict.get?_set, Dict.get?_empty]

section
variable {object : CoreObject} {classMeta : ClassMeta} {raw : Dict PyStr Value}

theorem lastOf_named {entries : List (PyStr × Value)}
    (he : List.Forall₂ (Reads decodeReplace object) (visible classMeta) entries) (name : PyStr) :
    Option.Rel (fun property e => propertyToPython decodeReplace object property = .ok e.2)
      (lastOf PropertyMeta.name (encodeUtf8 name) (visible classMeta))
      (lastOf Prod.fst name entries) := by
  refine lastOf_rel (he.imp fun property e hread => ⟨?_, hread.2⟩)
  constructor
  · intro hn
    have hname := (pyStr_eq_ok_iff _ _).mpr hn.symm
    exact Except.ok.inj (hread.1.symm.trans hname)
  · rintro rfl
    exact ((pyStr_eq_ok_iff _ _).mp hread.1).symm

/-- The entry under a name is made from the last visible property of the name, if there is one. -/
theorem get?_lastOf (h : objectToDict decodeReplace object classMeta = .ok raw) (name : PyStr) :
    ∃ found : Option (PyStr × Value),
      Option.Rel (fun property e => propertyToPython decodeReplace object property = .ok e.2)
        (lastOf PropertyMeta.name (encodeUtf8 name) (visible classMeta)) found ∧
      raw.get? name = (found.map Prod.snd).or ((metadata object classMeta).get? name) := by
  obtain ⟨entries, he, rfl⟩ := objectToDict_eq_ok decodeReplace h
  exact ⟨_, lastOf_named he name, get?_foldl_set entries _ name⟩

/-- What the dictionary has under a name is the last visible property of the name. -/
theorem get?_of_last (h : objectToDict decodeReplace object classMeta = .ok raw) {name : PyStr}
    {property : PropertyMeta}
    (hl : lastOf PropertyMeta.name (encodeUtf8 name) (visible classMeta) = some property) :
    ∃ value, propertyToPython decodeReplace object property = .ok value ∧
      raw.get? name = some value := by
  obtain ⟨found, hrel, hget⟩ := get?_lastOf h name
  rw [hl] at hrel
  cases hrel with
  | some hread => exact ⟨_, hread, hget⟩

/-- Under the name of no visible property it has the metadata. -/
theorem get?_of_no_property (h : objectToDict decodeReplace object classMeta = .ok raw) {name : PyStr}
    (hl : lastOf PropertyMeta.name (encodeUtf8 name) (visible classMeta) = none) :
    raw.get? name = (metadata object classMeta).get? name := by
  obtain ⟨found, hrel, hget⟩ := get?_lastOf h name
  rw [hl] at hrel
  cases hrel
  exact hget

theorem reserved_not_mem {entries : List (PyStr × Value)}
    (he : List.Forall₂ (Reads decodeReplace object) (visible classMeta) entries) {key : PyStr}
    (hkey : ∀ property ∈ visible classMeta, property.name ≠ encodeUtf8 key) :
    key ∉ entries.map Prod.fst := by
  intro hm
  obtain ⟨e, hme, rfl⟩ := List.mem_map.mp hm
  obtain ⟨property, hp, hread, -⟩ := forall₂_mem_right he hme
  exact hkey property hp ((pyStr_eq_ok_iff _ _).mp hread).symm

theorem names_of_clearNames (h : objectToDict decodeReplace object classMeta = .ok raw)
    (hc : ClearNames decodeReplace object classMeta) : Names raw (classMeta.key, object.key) := by
  obtain ⟨entries, he, rfl⟩ := objectToDict_eq_ok decodeReplace h
  constructor
  · rw [Dict.get?_foldl_set_of_not_mem (reserved_not_mem he fun p hp => (hc.unreserved p hp).1),
      get?_metadata, if_neg key_ne, if_pos rfl]
  · rw [Dict.get?_foldl_set_of_not_mem (reserved_not_mem he fun p hp => (hc.unreserved p hp).2),
      get?_metadata, if_pos rfl]

theorem ownRecord_of_clearNames (h : objectToDict decodeReplace object classMeta = .ok raw)
    (hc : ClearNames decodeReplace object classMeta) {record : Record}
    (hi : recordIdentity raw = .ok record.identity) (hr : record.raw = fieldsOf raw) :
    OwnRecord decodeReplace object classMeta record := by
  have hid : record.identity = (classMeta.key, object.key) := by
    rw [(recordIdentity_eq_ok _ _).mpr (names_of_clearNames h hc)] at hi
    exact (Except.ok.inj hi).symm
  obtain ⟨entries, he, rfl⟩ := objectToDict_eq_ok decodeReplace h
  have hother : ∀ property ∈ visible classMeta, ∀ name, pyStr property.name = .ok name →
      name ≠ TABLE_KEY ∧ name ≠ OBJECT_KEY := by
    intro property hp name hn
    rw [pyStr_eq_ok_iff] at hn
    constructor
    · rintro rfl
      exact (hc.unreserved property hp).1 hn.symm
    · rintro rfl
      exact (hc.unreserved property hp).2 hn.symm
  refine ⟨hid, fun name => ?_, fun property hp => ?_⟩
  · rw [hr, mem_fieldsOf, Dict.mem_foldl_set, metadata, Dict.mem_set, Dict.mem_set]
    constructor
    · rintro ⟨hm | rfl | rfl | hm, h1, h2⟩
      · obtain ⟨e, hme, rfl⟩ := List.mem_map.mp hm
        obtain ⟨property, hp, hread, -⟩ := forall₂_mem_right he hme
        exact ⟨property, hp, hread⟩
      · exact absurd rfl h2
      · exact absurd rfl h1
      · exact absurd hm (Dict.not_mem_empty _)
    · rintro ⟨property, hp, hn⟩
      obtain ⟨e, hm, hread, -⟩ := forall₂_mem_left he hp
      rw [hn] at hread
      cases hread
      exact ⟨Or.inl (List.mem_map_of_mem hm), hother property hp _ hn⟩
  · obtain ⟨e, hm, hread⟩ := forall₂_mem_left he hp
    obtain ⟨h1, h2⟩ := hother property hp e.1 hread.1
    refine ⟨e, hread, ?_⟩
    rw [hr, get?_fieldsOf, if_neg (by simp [h1, h2])]
    have hmem : e.1 ∈ entries.foldl (fun d e => d.set e.1 e.2) (metadata object classMeta) :=
      (Dict.mem_foldl_set _ _ _).mpr (Or.inl (List.mem_map_of_mem hm))
    obtain ⟨value, hv⟩ := (Dict.mem_iff_get? _ _).mp hmem
    rw [hv]
    -- the value is that of some property of the same name
    rcases Dict.mem_of_get?_foldl_set hv with hv | hv
    · obtain ⟨q, hq, hname, hvalue⟩ := forall₂_mem_right he hv
      have hsame : q.name = property.name :=
        ((pyStr_eq_ok_iff _ _).mp hname).symm.trans ((pyStr_eq_ok_iff _ _).mp hread.1)
      rw [hc.agree q hq property hp hsame, hread.2] at hvalue
      cases hvalue
      rfl
    · rw [get?_metadata, if_neg h2, if_neg h1] at hv
      cases hv

theorem clearNames_of_ownRecord {record : Record} (hr : record.raw = fieldsOf raw)
    (ho : OwnRecord decodeReplace object classMeta record) :
    ClearNames decodeReplace object classMeta where
  unreserved := by
    intro property hp
    constructor
    · intro hn
      have hm := (ho.names TABLE_KEY).mpr ⟨property, hp, (pyStr_eq_ok_iff _ _).mpr hn.symm⟩
      rw [hr, mem_fieldsOf] at hm
      exact hm.2.1 rfl
    · intro hn
      have hm := (ho.names OBJECT_KEY).mpr ⟨property, hp, (pyStr_eq_ok_iff _ _).mpr hn.symm⟩
      rw [hr, mem_fieldsOf] at hm
      exact hm.2.2 rfl
  agree := by
    intro p hp q hq hn
    obtain ⟨e, hep, hve⟩ := ho.values p hp
    obtain ⟨e', heq, hve'⟩ := ho.values q hq
    have hname : e.1 = e'.1 := by
      have h1 := hep.1
      rw [hn, heq.1] at h1
      exact (Except.ok.inj h1).symm
    rw [hname, hve'] at hve
    rw [hep.2, heq.2, Option.some.inj hve]

/-! ## The reader -/

/-- Every command can be answered. -/
theorem step_serial (s : Memory) (c : Command) : ∃ answer t, step s c answer t := by
  cases c with
  | native read => exact ⟨.error .nativeError, _, _, .refl, rfl⟩
  | nativeLen results => exact ⟨.error .nativeError, _, _, .refl, rfl⟩
  | _ => exact ⟨_, _, _, .refl, rfl, rfl⟩

variable (parseDecimal : PyStr → Option PyStr)

/-- What `_record_from_raw` makes of a raw dictionary in a realm that has read
nothing else: a record with the fields of the dictionary. -/
theorem recordFromRaw_spec (raw : Dict PyStr Value) :
    wp step (recordFromRaw raw)
      (fun r t => ∃ record, t.heap.live r = some record ∧ Sound parseDecimal [.ok raw] record ∧
        recordIdentity raw = .ok record.identity ∧ record.raw = fieldsOf raw)
      (fun e _ => recordIdentity raw = .error e) ⟨Heap.empty, [.ok raw]⟩ := by
  have hstart := (inv_initial parseDecimal).start.answered (.ok raw)
  refine hstart.wp_recordFromRaw (List.mem_singleton_self _) (fun identity r t hi ht hy => ?_)
    fun e he => he
  obtain ⟨record, hl, hid⟩ := hy.live
  have hsound := ht.sound r record hl
  rw [ht.answers] at hsound
  refine ⟨record, hl, hsound, hid ▸ hi, ?_⟩
  obtain ⟨raw', hm, -, hraw⟩ := hsound.source
  have hsame := List.mem_singleton.mp hm
  cases hsame
  exact hraw

theorem returnsOwn_of_names (hn : Names raw (classMeta.key, object.key)) :
    ReturnsOwn parseDecimal object classMeta raw := by
  intro s hs t r hrun hans
  have hspec : wp step (record classMeta.key object.key)
      (fun r t => (∀ new, t.answers = s.answers ++ new → ∀ raw', .ok raw' ∈ new → raw' = raw) →
        Yields t r (classMeta.key, object.key)) (fun _ _ => True) s := by
    refine (reachable_inv hs).start.wp_record classMeta.key object.key (fun r t _ hy _ => hy)
      (fun _ raw' identity r t hi ht hy hans' => ?_) fun _ _ _ _ _ _ => trivial
    rw [hans' [.ok raw'] ht.answers raw' (List.mem_singleton_self _),
      (recordIdentity_eq_ok _ _).mpr hn] at hi
    cases hi
    exact hy
  exact (wp_iff_runs _ _ _ _ _).mp hspec t (.ok r) hrun hans

theorem clearNames_of_buildsOwn (hb : BuildsOwn decodeReplace parseDecimal object classMeta raw) :
    ClearNames decodeReplace object classMeta := by
  obtain ⟨t, out, hrun⟩ := exists_runs step step_serial (recordFromRaw raw) ⟨Heap.empty, [.ok raw]⟩
  obtain ⟨r, record, rfl, hl, -, ho⟩ := hb t out hrun
  obtain ⟨record', hl', -, -, hraw⟩ :=
    (wp_iff_runs _ _ _ _ _).mp (recordFromRaw_spec parseDecimal raw) t _ hrun
  rw [hl] at hl'
  cases hl'
  exact clearNames_of_ownRecord hraw ho

/-- **The record of an object is its own in exactly the case of clear names.** -/
theorem builds_own_record_iff (h : objectToDict decodeReplace object classMeta = .ok raw) :
    BuildsOwn decodeReplace parseDecimal object classMeta raw ∧
        ReturnsOwn parseDecimal object classMeta raw ↔
      ClearNames decodeReplace object classMeta := by
  constructor
  · exact fun hb => clearNames_of_buildsOwn parseDecimal hb.1
  · intro hc
    have hn := names_of_clearNames h hc
    refine ⟨fun t out hrun => ?_, returnsOwn_of_names parseDecimal hn⟩
    have hends := (wp_iff_runs _ _ _ _ _).mp (recordFromRaw_spec parseDecimal raw) t out hrun
    cases out with
    | ok r =>
      obtain ⟨record, hl, hsound, hi, hraw⟩ := hends
      exact ⟨r, record, rfl, hl, hsound, ownRecord_of_clearNames h hc hi hraw⟩
    | error e =>
      rw [Ends, (recordIdentity_eq_ok _ _).mpr hn] at hends
      cases hends

end

end

/-! ## Two objects -/

/-- The object of key 3, whose only property holds 7. -/
def sevenObject : CoreObject where
  key := 3
  getValue := fun _ => .ok (.int 7)
  getList := fun _ => .ok []
  getSet := fun _ => .ok []
  getDictionary := fun _ => .ok []

/-- A class of key 5 with one integer property. -/
def oneProperty (name : PyStr) : ClassMeta := ⟨[], 5, [⟨encodeUtf8 name, .int, .none, 0⟩]⟩

def rawOfProperty (name : PyStr) : Dict PyStr Value :=
  (metadata sevenObject (oneProperty name)).set name (.int 7)

theorem objectToDict_oneProperty (name : PyStr) :
    objectToDict (fun _ => []) sevenObject (oneProperty name) = .ok (rawOfProperty name) := by
  have hname : pyStr (encodeUtf8 name) = .ok name := (pyStr_eq_ok_iff _ _).mpr rfl
  simp only [objectToDict, oneProperty, List.foldlM_cons, List.foldlM_nil, hname, propertyToPython,
    sevenObject, valueToPython, ok_bind, reduceCtorEq, if_false]
  rfl

theorem clearNames_oneProperty (name : PyStr) (h1 : encodeUtf8 name ≠ encodeUtf8 TABLE_KEY)
    (h2 : encodeUtf8 name ≠ encodeUtf8 OBJECT_KEY) :
    ClearNames (fun _ => []) sevenObject (oneProperty name) where
  unreserved := List.forall_mem_singleton.mpr ⟨h1, h2⟩
  agree := List.forall_mem_singleton.mpr (List.forall_mem_singleton.mpr fun _ => rfl)

/-- A property of another name. -/
theorem builds_own_record_iff_age :
    BuildsOwn (fun _ => []) (fun _ => none) sevenObject (oneProperty "age".toList)
        (rawOfProperty "age".toList) ∧
      ReturnsOwn (fun _ => none) sevenObject (oneProperty "age".toList)
        (rawOfProperty "age".toList) :=
  (builds_own_record_iff (fun _ => none) (objectToDict_oneProperty _)).mpr
    (clearNames_oneProperty _ (by decide +kernel) (by decide +kernel))

theorem record_objectKey : ∃ t, Runs step Memory.initial (record 5 3) t (.ok 0) ∧
    t.answers = [.ok (rawOfProperty OBJECT_KEY)] ∧
    (t.heap.live 0).map Record.identity = some (5, 7) := by
  apply Exists.intro
  constructor
  · have hi : recordIdentity (rawOfProperty OBJECT_KEY) = .ok (5, 7) := rfl
    exact record_reads rfl hi rfl
  · exact ⟨rfl, rfl⟩

/-- A property named `__object_key__`: the record has the identity of another
object and no field, whether it is built or asked for by key. -/
theorem builds_other_record :
    objectToDict (fun _ => []) sevenObject (oneProperty OBJECT_KEY) =
        .ok (rawOfProperty OBJECT_KEY) ∧
      recordIdentity (rawOfProperty OBJECT_KEY) = .ok (5, 7) ∧
      (fieldsOf (rawOfProperty OBJECT_KEY)).keys = [] ∧
      ¬ BuildsOwn (fun _ => []) (fun _ => none) sevenObject (oneProperty OBJECT_KEY)
        (rawOfProperty OBJECT_KEY) ∧
      ¬ ReturnsOwn (fun _ => none) sevenObject (oneProperty OBJECT_KEY)
        (rawOfProperty OBJECT_KEY) := by
  refine ⟨objectToDict_oneProperty OBJECT_KEY, rfl, rfl, fun hb => ?_, fun hr => ?_⟩
  · have hc := clearNames_of_buildsOwn (fun _ => none) hb
    exact (hc.unreserved _ (List.mem_singleton_self _)).2 rfl
  · obtain ⟨t, hrun, hans, hid⟩ := record_objectKey
    have hy : Yields t 0 (5, 3) := hr Memory.initial .refl t 0 hrun fun new hnew raw' hm => by
      rw [hans] at hnew
      rw [← show _ = new from hnew, List.mem_singleton] at hm
      exact Except.ok.inj hm
    obtain ⟨record, hl, hi⟩ := hy.live
    rw [hl, Option.map_some, hi] at hid
    revert hid
    decide

end Pyrealm.Reader
