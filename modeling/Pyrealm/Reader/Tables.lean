import Pyrealm.Reader.Schema

/-!
# Tables

A table joins four indexes: its schema comes from the reader's index by name, its
objects from the native index by name, their properties from the native index by
key, and the name of its records from the reader's index by key.

    a table is one class throughout  ↔  Resolves      (table_agrees_iff)

* `getItem_run`, `exists_getItem`: a record has the identity in the native answer.
* `resolves_of_unique`: names and keys that do not repeat resolve.
-/

namespace Pyrealm.Reader

open Py Effects Indexes Interning

/-! ## One class throughout -/

section
variable (decodeReplace : Bytes → PyStr) (parseDecimal : PyStr → Option PyStr) (core : CoreRealm)
  (classes : List ClassInfo)

/-- A table is one class throughout. -/
structure TableAgrees (realm : RealmSchema) (table : TableSchema) : Prop where
  /-- Its schema describes the class that the native layer finds, -/
  described : ∃ c, findClassByName (loadSchema classes) (encodeUtf8 table.name) = .ok c ∧
    describe c = .ok table
  /-- and counts, -/
  len : tableLen core (loadSchema classes) table = translated (core.numObjects table.key)
  /-- lists -/
  all : tableAll core (loadSchema classes) table = translated (openResults core table.key)
  /-- and queries; -/
  query : ∀ nullEmpty query parameters,
    queryTable nullEmpty (loadSchema classes) table query parameters =
      tableWhere nullEmpty table.key query parameters
  /-- every record of `all`, read in any state of the realm, has its key and its name. -/
  records : ∀ results, tableAll core (loadSchema classes) table = .ok results →
    ∀ s, Reachable parseDecimal s → ∀ handle index t r,
      Runs step s (getItem handle index) t (.ok r) →
      (∀ new, t.answers = s.answers ++ new → ∀ answer ∈ new,
        answer = nativeGet decodeReplace (loadSchema classes) results index) →
      ∃ record, t.heap.live r = some record ∧ record.tableKey = table.key ∧
        realm.tableName record.tableKey = .ok table.name

/-- `o` is an object of the class key and gives a record, by the properties of `d`. -/
structure Shown (key : Int) (o : ResultObject) (d : ClassInfo) : Prop where
  listed : ∃ results index, openResults core key = .ok results ∧ results.object index = .ok o
  home : firstOf ClassInfo.key o.table classes = some d
  record : ∃ raw identity, objectToDict decodeReplace o.object d.toClassMeta = .ok raw ∧
    recordIdentity raw = .ok identity

/-- A name stands for one class `c` of the list. -/
structure Resolves (name : PyStr) : Prop where
  /-- The first class of the name is the last. -/
  same : firstOf ClassInfo.name (encodeUtf8 name) classes =
    lastOf ClassInfo.name (encodeUtf8 name) classes
  /-- If there is a record of `c` at all, the last class of its key has the name, -/
  named : ∀ c o d, firstOf ClassInfo.name (encodeUtf8 name) classes = some c →
    Shown decodeReplace core classes c.key o d →
      ∃ e, lastOf ClassInfo.key c.key classes = some e ∧ e.name = encodeUtf8 name
  /-- and its object holds no other integer in a property `__table_key__`. -/
  kept : ∀ c o d, firstOf ClassInfo.name (encodeUtf8 name) classes = some c →
    Shown decodeReplace core classes c.key o d →
      ∀ p, lastOf PropertyMeta.name (encodeUtf8 TABLE_KEY) (visible d.toClassMeta) = some p →
        ∀ t, propertyToPython decodeReplace o.object p = .ok (.int t) → t = c.key

end

section
variable {decodeReplace : Bytes → PyStr} {parseDecimal : PyStr → Option PyStr} {core : CoreRealm}
  {classes : List ClassInfo} {realm : RealmSchema}

/-- The objects of the results of a class are of that class. -/
theorem table_of_object {key : Int} {results : NativeResults} {index : Int} {o : ResultObject}
    (h : openResults core key = .ok results) (ho : results.object index = .ok o) : o.table = key := by
  rw [openResults, bind_eq_ok_iff] at h
  obtain ⟨r, hr, h⟩ := h
  rw [bind_eq_ok_iff] at h
  obtain ⟨count, -, h⟩ := h
  cases h
  unfold NativeResults.object at ho
  split at ho
  · dsimp only at ho
    generalize (if index < 0 then index + (count : Int) else index) = j at ho
    by_cases hj : j < 0 ∨ (count : Int) ≤ j
    · rw [if_pos hj] at ho
      cases ho
    · rw [if_neg hj] at ho
      exact core.findAll_table key r _ o hr ho
  · cases ho

theorem findClassByKey_eq_ok {key : Int} {d : ClassInfo}
    (h : findClassByKey (loadSchema classes) key = .ok d) :
    firstOf ClassInfo.key key classes = some d := by
  rw [findClassByKey_eq, classes_loadSchema] at h
  cases hf : firstOf ClassInfo.key key classes with
  | none =>
    rw [hf] at h
    cases h
  | some d' =>
    rw [hf] at h
    cases h
    rfl

theorem nativeGet_eq_ok {results : NativeResults} {index : Int} {raw : Dict PyStr Value}
    (h : nativeGet decodeReplace (loadSchema classes) results index = .ok raw) :
    ∃ o d, results.object index = .ok o ∧ firstOf ClassInfo.key o.table classes = some d ∧
      objectToDict decodeReplace o.object d.toClassMeta = .ok raw := by
  rw [nativeGet, bind_eq_ok_iff] at h
  obtain ⟨o, ho, h⟩ := h
  rw [bind_eq_ok_iff] at h
  obtain ⟨d, hd, h⟩ := h
  exact ⟨o, d, ho, findClassByKey_eq_ok hd, h⟩

/-- The table key of a record is the class's, or what a property `__table_key__` holds. -/
theorem tableKey_cases {object : CoreObject} {classMeta : ClassMeta} {raw : Dict PyStr Value}
    (h : objectToDict decodeReplace object classMeta = .ok raw) {identity : Int × Int}
    (hi : recordIdentity raw = .ok identity) :
    (lastOf PropertyMeta.name (encodeUtf8 TABLE_KEY) (visible classMeta) = none ∧
        identity.1 = classMeta.key) ∨
      ∃ p, lastOf PropertyMeta.name (encodeUtf8 TABLE_KEY) (visible classMeta) = some p ∧
        propertyToPython decodeReplace object p = .ok (.int identity.1) := by
  have hkey := ((recordIdentity_eq_ok raw identity).mp hi).1
  cases hl : lastOf PropertyMeta.name (encodeUtf8 TABLE_KEY) (visible classMeta) with
  | none =>
    rw [get?_of_no_property h hl, get?_metadata, if_neg key_ne, if_pos rfl, Option.some.injEq,
      Value.int.injEq] at hkey
    exact Or.inl ⟨rfl, hkey.symm⟩
  | some p =>
    obtain ⟨value, hv, hget⟩ := get?_of_last h hl
    rw [hkey] at hget
    cases hget
    exact Or.inr ⟨p, rfl, hv⟩

/-! ## Records -/

/-- A record read from a result set has the identity in the native answer. -/
theorem getItem_run {s : Memory} (hs : Reachable parseDecimal s) {handle : Nat} {index : Int}
    {t : Memory} {r : Nat} (hrun : Runs step s (getItem handle index) t (.ok r)) :
    ∃ raw identity record, t.answers = s.answers ++ [.ok raw] ∧ recordIdentity raw = .ok identity ∧
      t.heap.live r = some record ∧ record.identity = identity := by
  have hspec : wp step (getItem handle index)
      (fun r t => ∃ raw identity record, t.answers = s.answers ++ [.ok raw] ∧
        recordIdentity raw = .ok identity ∧ t.heap.live r = some record ∧
        record.identity = identity) (fun _ _ => True) s := by
    refine (reachable_inv hs).start.wp_getItem handle index (fun answer identity r t ha ht hy => ?_)
      fun _ _ _ _ _ => trivial
    obtain ⟨raw, rfl, hn⟩ := surface_eq_ok ha
    obtain ⟨record, hl, hid⟩ := hy.live
    exact ⟨raw, identity, record, ht.answers, (recordIdentity_eq_ok raw identity).mpr hn, hl, hid⟩
  exact (wp_iff_runs _ _ _ _ _).mp hspec t _ hrun

/-- A good raw dictionary is read as a record, in a realm that has read nothing. -/
theorem exists_getItem {raw : Dict PyStr Value} {identity : Int × Int}
    (hi : recordIdentity raw = .ok identity) (handle : Nat) (index : Int) :
    ∃ t r, Runs step Memory.initial (getItem handle index) t (.ok r) ∧ t.answers = [.ok raw] := by
  obtain ⟨t, out, hrun⟩ := exists_runs step step_serial (recordFromRaw raw) ⟨Heap.empty, [.ok raw]⟩
  have hspec : wp step (recordFromRaw raw) (fun _ t => t.answers = [.ok raw])
      (fun e _ => recordIdentity raw = .error e) ⟨Heap.empty, [.ok raw]⟩ := by
    have hstart := (inv_initial fun _ => none).start.answered (.ok raw)
    exact hstart.wp_recordFromRaw (List.mem_singleton_self _) (fun _ r t _ ht _ => ht.answers)
      fun e he => he
  have hends := (wp_iff_runs _ _ _ _ _).mp hspec t out hrun
  cases out with
  | error e =>
    rw [Ends, hi] at hends
    cases hends
  | ok r =>
    refine ⟨t, r, ?_, hends⟩
    apply Runs.call (.ok raw) ⟨_, .refl, rfl⟩
    exact hrun.tryCatch _

/-! ## Tables -/

theorem translated_eq_ok_iff {α : Type} (x : Except Error α) (a : α) :
    translated x = .ok a ↔ x = .ok a := by
  cases x with
  | ok b => exact Iff.rfl
  | error e => simp [translated]

/-- What the native layer does for the name of a class it finds. -/
theorem table_operations {table : TableSchema} {c : ClassInfo}
    (h : findClassByName (loadSchema classes) (encodeUtf8 table.name) = .ok c)
    (hd : describe c = .ok table) :
    tableLen core (loadSchema classes) table = translated (core.numObjects table.key) ∧
      tableAll core (loadSchema classes) table = translated (openResults core table.key) ∧
      ∀ nullEmpty query parameters,
        queryTable nullEmpty (loadSchema classes) table query parameters =
          tableWhere nullEmpty table.key query parameters := by
  rw [key_of_describe hd]
  refine ⟨?_, ?_, fun nullEmpty query parameters => ?_⟩
  · rw [tableLen, nativeCount, h, ok_bind]
  · rw [tableAll, nativeAll, h, ok_bind]
  · rw [queryTable, tableWhere, callQuery]
    congr 1
    cases encodeStr query with
    | none => rfl
    | some text =>
      show nativeQueryTable nullEmpty (loadSchema classes) (encodeUtf8 table.name) text parameters = _
      rw [nativeQueryTable, h]
      rfl

theorem exists_table (h : initRealm (loadSchema classes) = .ok realm) {c : ClassInfo}
    (hc : c ∈ classes) {name : PyStr} (hn : pyStr c.name = .ok name) :
    ∃ first last table, firstOf ClassInfo.name (encodeUtf8 name) classes = some first ∧
      lastOf ClassInfo.name (encodeUtf8 name) classes = some last ∧
      realm.table name = .ok table ∧ describe last = .ok table ∧ table.name = name := by
  have hname := (pyStr_eq_ok_iff _ _).mp hn
  obtain ⟨first, hfirst⟩ : ∃ a, firstOf ClassInfo.name c.name classes = some a := exists_firstOf hc
  obtain ⟨last, hlast⟩ : ∃ a, lastOf ClassInfo.name c.name classes = some a := exists_lastOf hc
  rw [← hname] at hfirst hlast
  have hrel := table_rel h name
  rw [hlast] at hrel
  cases hfound : realm.byName.get? name with
  | none =>
    rw [hfound] at hrel
    cases hrel
  | some table =>
    rw [hfound] at hrel
    cases hrel with
    | some hd =>
      refine ⟨first, last, table, hfirst, hlast, ?_, hd, ?_⟩
      · rw [RealmSchema.table, hfound]
      · have h1 := (describe_eq_ok hd).1
        rw [key_of_lastOf hlast] at h1
        exact Except.ok.inj (h1.symm.trans ((pyStr_eq_ok_iff _ _).mpr rfl))

theorem tableName_eq_iff (h : initRealm (loadSchema classes) = .ok realm) (key : Int)
    (name : PyStr) : realm.tableName key = .ok name ↔
      ∃ e, lastOf ClassInfo.key key classes = some e ∧ e.name = encodeUtf8 name := by
  have hrel := tableName_rel h key
  rw [RealmSchema.tableName]
  generalize realm.byKey.get? key = found at hrel
  cases hlast : lastOf ClassInfo.key key classes with
  | none =>
    rw [hlast] at hrel
    cases hrel
    simp
  | some e =>
    rw [hlast] at hrel
    cases hrel with
    | some hd =>
      have hn := (pyStr_eq_ok_iff _ _).mp (describe_eq_ok hd).1
      constructor
      · intro hname
        cases hname
        exact ⟨e, rfl, hn.symm⟩
      · rintro ⟨e', he, hname⟩
        cases he
        have hsame := (pyStr_eq_ok_iff _ _).mpr hname.symm
        rw [(describe_eq_ok hd).1] at hsame
        exact congrArg Except.ok (Except.ok.inj hsame)

theorem agrees_of_resolves (h : initRealm (loadSchema classes) = .ok realm) {name : PyStr}
    {table : TableSchema} {last : ClassInfo}
    (hlast : lastOf ClassInfo.name (encodeUtf8 name) classes = some last)
    (hd : describe last = .ok table) (hname : table.name = name)
    (hr : Resolves decodeReplace core classes name) :
    TableAgrees decodeReplace parseDecimal core classes realm table := by
  have hfirst : firstOf ClassInfo.name (encodeUtf8 name) classes = some last := hr.same.trans hlast
  have hfind := findClassByName_of_first hfirst
  rw [← hname] at hfind
  obtain ⟨hlen, hall, hquery⟩ := table_operations hfind hd
  refine ⟨⟨last, hfind, hd⟩, hlen, hall, hquery, ?_⟩
  intro results hresults s hs handle index t r hrun hans
  have hkey := key_of_describe hd
  have hopen : openResults core last.key = .ok results := by
    rw [hall, hkey] at hresults
    exact (translated_eq_ok_iff _ _).mp hresults
  obtain ⟨raw, identity, record, hanswers, hi, hl, hid⟩ := getItem_run hs hrun
  obtain ⟨o, d, ho, hhome, hraw⟩ := nativeGet_eq_ok (hans _ hanswers _ (List.mem_singleton_self _)).symm
  have hshown : Shown decodeReplace core classes last.key o d :=
    ⟨⟨results, index, hopen, ho⟩, hhome, raw, identity, hraw, hi⟩
  have htable : record.tableKey = last.key := by
    have hfst : record.tableKey = identity.1 := congrArg Prod.fst hid
    rw [hfst]
    rcases tableKey_cases hraw hi with ⟨-, he⟩ | ⟨p, hp, hv⟩
    · rw [he]
      exact (key_of_firstOf hhome).trans (table_of_object hopen ho)
    · exact hr.kept last o d hfirst hshown p hp _ hv
  refine ⟨record, hl, htable.trans hkey.symm, ?_⟩
  rw [htable, hname]
  exact (tableName_eq_iff h _ _).mpr (hr.named last o d hfirst hshown)

/-- In a table that agrees, every shown object is read as a record of its key and name. -/
theorem record_of_agrees {table : TableSchema}
    (ha : TableAgrees decodeReplace parseDecimal core classes realm table) {o : ResultObject}
    {d : ClassInfo} (hs : Shown decodeReplace core classes table.key o d) :
    ∃ raw identity, objectToDict decodeReplace o.object d.toClassMeta = .ok raw ∧
      recordIdentity raw = .ok identity ∧ identity.1 = table.key ∧
      realm.tableName table.key = .ok table.name := by
  obtain ⟨results, index, hopen, ho⟩ := hs.listed
  obtain ⟨raw, identity, hraw, hi⟩ := hs.record
  have hget : nativeGet decodeReplace (loadSchema classes) results index = .ok raw := by
    rw [nativeGet, ho, ok_bind, findClassByKey_of_first hs.home, ok_bind, hraw]
  have hresults : tableAll core (loadSchema classes) table = .ok results := by
    rw [ha.all]
    exact (translated_eq_ok_iff _ _).mpr hopen
  obtain ⟨t, r, hrun, hanswers⟩ := exists_getItem hi 0 index
  obtain ⟨record, hl, hkey, htable⟩ := ha.records results hresults Memory.initial .refl 0 index t r
    hrun fun new hnew answer hm => by
      rw [hanswers] at hnew
      rw [← show _ = new from hnew, List.mem_singleton] at hm
      rw [hm, hget]
  obtain ⟨raw', identity', record', hanswers', hi', hl', hid'⟩ :=
    getItem_run (.refl : Reachable parseDecimal Memory.initial) hrun
  rw [hanswers] at hanswers'
  cases hanswers'
  rw [hi] at hi'
  cases hi'
  rw [hl] at hl'
  cases hl'
  rw [hkey] at htable
  exact ⟨raw, identity, hraw, hi, (congrArg Prod.fst hid').symm.trans hkey, htable⟩

theorem resolves_of_agrees (h : initRealm (loadSchema classes) = .ok realm) {name : PyStr}
    {table : TableSchema} {first last : ClassInfo}
    (hfirst : firstOf ClassInfo.name (encodeUtf8 name) classes = some first)
    (hlast : lastOf ClassInfo.name (encodeUtf8 name) classes = some last)
    (hd : describe last = .ok table) (hname : table.name = name)
    (ha : TableAgrees decodeReplace parseDecimal core classes realm table) :
    Resolves decodeReplace core classes name := by
  have hsame : first = last := by
    obtain ⟨c, hc, hdc⟩ := ha.described
    rw [hname, findClassByName_of_first hfirst] at hc
    cases hc
    exact describe_inj hdc hd
  subst hsame
  have hkey := key_of_describe hd
  refine ⟨hfirst.trans hlast.symm, fun c o d hc hs => ?_, fun c o d hc hs p hp t ht => ?_⟩
  · rw [hfirst] at hc
    cases hc
    rw [← hkey] at hs ⊢
    obtain ⟨-, -, -, -, -, htable⟩ := record_of_agrees ha hs
    rw [hname] at htable
    exact (tableName_eq_iff h _ _).mp htable
  · rw [hfirst] at hc
    cases hc
    rw [← hkey] at hs ⊢
    obtain ⟨raw, identity, hraw, hi, hid, -⟩ := record_of_agrees ha hs
    rcases tableKey_cases hraw hi with ⟨hnone, -⟩ | ⟨p', hp', hv⟩
    · rw [hp] at hnone
      cases hnone
    · rw [hp] at hp'
      cases hp'
      rw [ht] at hv
      cases hv
      exact hid

end

/-- **A table is one class throughout in exactly the case that its name resolves.** -/
theorem table_agrees_iff (decodeReplace : Bytes → PyStr) (parseDecimal : PyStr → Option PyStr)
    (core : CoreRealm) {classes : List ClassInfo} {realm : RealmSchema}
    (h : initRealm (loadSchema classes) = .ok realm) {c : ClassInfo} (hc : c ∈ classes)
    {name : PyStr} (hn : pyStr c.name = .ok name) :
    ∃ table, realm.table name = .ok table ∧ table.name = name ∧
      (TableAgrees decodeReplace parseDecimal core classes realm table ↔
        Resolves decodeReplace core classes name) := by
  obtain ⟨first, last, table, hfirst, hlast, htable, hd, hname⟩ := exists_table h hc hn
  refine ⟨table, htable, hname, ?_, ?_⟩
  · exact resolves_of_agrees h hfirst hlast hd hname
  · exact agrees_of_resolves h hlast hd hname

/-- Names and keys that do not repeat resolve, if no property has the name of the metadata. -/
theorem resolves_of_unique (decodeReplace : Bytes → PyStr) (core : CoreRealm)
    {classes : List ClassInfo} (hnames : (classes.map ClassInfo.name).Nodup)
    (hkeys : (classes.map ClassInfo.key).Nodup)
    (hprops : ∀ c ∈ classes, ∀ p ∈ visible c.toClassMeta, p.name ≠ encodeUtf8 TABLE_KEY)
    (name : PyStr) : Resolves decodeReplace core classes name where
  same := firstOf_eq_lastOf fun _ ha _ hb => List.inj_on_of_nodup_map hnames ha hb
  named := by
    intro c o d hc _
    obtain ⟨e, he⟩ : ∃ e, lastOf ClassInfo.key c.key classes = some e :=
      exists_lastOf (mem_of_firstOf hc)
    have hsame : e = c :=
      List.inj_on_of_nodup_map hkeys (mem_of_lastOf he) (mem_of_firstOf hc) (key_of_lastOf he)
    exact ⟨e, he, hsame ▸ key_of_firstOf hc⟩
  kept := by
    intro c o d _ hs p hp
    exact absurd (key_of_lastOf hp) (hprops d (mem_of_firstOf hs.home) p (mem_of_lastOf hp))

/-! ## Two classes of one name -/

/-- A class without properties. -/
def plainClass (e : PyStr × Int) : ClassInfo := ⟨encodeUtf8 e.1, [], e.2, false, false, []⟩

def plainTable (e : PyStr × Int) : TableSchema := ⟨e.1, e.2, none, false, false, []⟩

def plainRealm (l : List (PyStr × Int)) : RealmSchema where
  schema := l.map plainTable
  byName := (l.map plainTable).foldl (fun d item => d.set item.name item) Dict.empty
  byKey := (l.map plainTable).foldl (fun d item => d.set item.key item) Dict.empty

/-- Every class has the one object of key 3. -/
def oneEach : CoreRealm where
  numObjects := fun _ => .ok 1
  findAll := fun key => .ok ⟨.ok 1, fun _ => .ok ⟨key, sevenObject⟩⟩
  findAll_table := by
    rintro key _ i o ⟨⟩ ⟨⟩
    rfl

theorem initRealm_plain (l : List (PyStr × Int)) :
    initRealm (loadSchema (l.map plainClass)) = .ok (plainRealm l) := by
  have hall : ∀ e ∈ l, (describe ∘ plainClass) e = .ok (plainTable e) := by
    intro e _
    have hname : pyStr (encodeUtf8 e.1) = .ok e.1 := (pyStr_eq_ok_iff _ _).mpr rfl
    show describe (plainClass e) = _
    simp only [describe, plainClass, hname, optionalStr, ok_bind, if_true]
    rfl
  rw [initRealm, classes_loadSchema, List.mapM_map, mapM_eq_ok _ _ _ hall]
  rfl

def personAndPet : List (PyStr × Int) := [("Person".toList, 1), ("Pet".toList, 2)]

/-- The table of the second of two classes. -/
theorem table_agrees_iff_pet : ∃ table,
    (plainRealm personAndPet).table "Pet".toList = .ok table ∧
      TableAgrees (fun _ => []) (fun _ => none) oneEach (personAndPet.map plainClass)
        (plainRealm personAndPet) table := by
  have hr : Resolves (fun _ => []) oneEach (personAndPet.map plainClass) "Pet".toList := by
    apply resolves_of_unique
    · decide
    · decide
    · exact List.forall_mem_map.mpr fun e _ => List.forall_mem_nil _
  obtain ⟨table, ht, -, hiff⟩ := table_agrees_iff (fun _ => []) (fun _ => none) oneEach
    (initRealm_plain personAndPet)
    (List.mem_map_of_mem (List.mem_cons_of_mem _ (List.mem_singleton_self ("Pet".toList, 2))))
    ((pyStr_eq_ok_iff _ _).mpr rfl)
  exact ⟨table, ht, hiff.mpr hr⟩

def twoPersons : List (PyStr × Int) := [("Person".toList, 1), ("Person".toList, 2)]

/-- Two classes of one name: the schema is the second, the objects are the first's. -/
theorem table_of_two_classes :
    initRealm (loadSchema (twoPersons.map plainClass)) = .ok (plainRealm twoPersons) ∧
      (plainRealm twoPersons).table "Person".toList = .ok (plainTable ("Person".toList, 2)) ∧
      findClassByName (loadSchema (twoPersons.map plainClass)) (encodeUtf8 "Person".toList) =
        .ok (plainClass ("Person".toList, 1)) ∧
      ¬ TableAgrees (fun _ => []) (fun _ => none) oneEach (twoPersons.map plainClass)
        (plainRealm twoPersons) (plainTable ("Person".toList, 2)) := by
  have hfind : findClassByName (loadSchema (twoPersons.map plainClass))
      (encodeUtf8 "Person".toList) = .ok (plainClass ("Person".toList, 1)) := by
    apply findClassByName_of_first
    exact (firstOf_cons _ _ _ _).trans (if_pos rfl)
  refine ⟨initRealm_plain _, rfl, hfind, fun ha => ?_⟩
  obtain ⟨c, hc, hd⟩ := ha.described
  have hsame := hfind.symm.trans hc
  cases hsame
  exact absurd (key_of_describe hd) (by decide)

end Pyrealm.Reader
