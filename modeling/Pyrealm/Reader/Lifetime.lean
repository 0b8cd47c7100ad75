import Pyrealm.Reader.Session
import Pyrealm.Reader.Tables

/-!
# A realm that is closed

`Realm.close`, in the middle of a session, where Realm Core refuses what is closed.

* `Carried`: what memory has left of an earlier one when nothing was read since.
* `use_after_close`: no operation reads anything; each says so, or answers from
  what was read before.
-/

namespace Pyrealm.Reader

open Py Effects Interning Indexes

/-! ## What a closed realm answers -/

/-- The exception of an index of a result set. -/
def closedIndex (count : Nat) (index : Int) : Error :=
  if -2 ^ 63 ≤ index ∧ index < 2 ^ 63 then
    (indexPosition count index).elim .indexError fun _ => .realmError .native
  else .typeError

/-- A slice of a result set. -/
def closedSlice (count : Nat) (start stop step : Option Int) : Except Error View :=
  if step = some 0 then .error .valueError
  else
    match slicePositions count start stop (step.getD 1) with
    | [] => .ok (.records [])
    | _ :: _ => .error (.realmError .native)

/-- A round of `Results.__iter__`. -/
def closedNext (count index stop : Nat) : Except Error View :=
  if index < stop then .error (closedIndex count index) else .ok .stopped

/-- A round of `Results.iter_valid`. -/
def closedNextValid (r count index stop : Nat) : Except Error View :=
  reporting r index stop (closedNext count index stop)

section
variable (service : CoreService) (parseDecimal : PyStr → Option PyStr)

/-- A record of this identity that is in memory, or else an exception. -/
def Finds (s : Memory) (tableKey objectKey : Int) (out : Except Error Output) : Prop :=
  (∃ r record, s.heap.live r = some record ∧ record.identity = (tableKey, objectKey) ∧
    out = .ok (.record r)) ∨
  ((∀ r, ¬ Yields s r (tableKey, objectKey)) ∧
    out = .error (if service.takes tableKey objectKey then .realmError .native else .typeError))

/-- What each operation gives on a closed realm. -/
def AfterClose (s t : Memory) : Op → Except Error Output → Prop
  | .len r, out => Agrees t out (.ok (.count (service.count r)))
  | .index r index, out => Agrees t out (.error (closedIndex (service.count r) index))
  | .slice r start stop step, out =>
    Agrees t out (closedSlice (service.count r) start stop step)
  | .next g, out => Agrees t out (g.round (service.count g.results)
    (closedNext (service.count g.results)))
  | .nextValid g, out => Agrees t out (g.round (service.count g.results)
    (closedNextValid g.results (service.count g.results)))
  | .getByKey tableKey objectKey, out => Finds service s tableKey objectKey out
  | .resolve tableKey objectKey, out => Finds service s tableKey objectKey out
  | .field r key, out => ∀ record, s.heap.live r = some record →
    ∃ raw, .ok raw ∈ s.answers ∧ Names raw record.identity ∧ record.raw = fieldsOf raw ∧
      out = (readField parseDecimal raw key).map Output.value

/-- The native layer gave nothing. -/
def NothingRead (s t : Memory) : Prop :=
  ∃ new, t.answers = s.answers ++ new ∧ ∀ answer ∈ new, ∃ e, answer = .error e

/-- What memory has left of an earlier one when nothing was read since. -/
structure Carried (s t : Memory) : Prop where
  answers : NothingRead s t
  /-- Every record was there. -/
  live : ∀ r record, t.heap.live r = some record →
    ∃ old, s.heap.live r = some old ∧ record.fixed = old.fixed

end

/-! ## Native answers -/

section
variable {decodeReplace : Bytes → PyStr} {service : CoreService} (hcore : service.Refuses)
include hcore

/-- **No entry of a result set is read.** -/
theorem gatedItem_closed (decodeReplace : Bytes → PyStr) (r : Nat) (index : Int) : ∃ e,
    gatedItem decodeReplace service true r index = .error e ∧
      translate e = closedIndex (service.count r) index := by
  rw [gatedItem, nativeGet, closedIndex]
  by_cases hi : -2 ^ 63 ≤ index ∧ index < 2 ^ 63
  · rw [object_index _ hi, if_pos hi]
    show ∃ e, (indexPosition (service.count r) index).elim _ _ >>= _ = _ ∧ _
    cases indexPosition (service.count r) index with
    | none => exact ⟨.indexError, rfl, rfl⟩
    | some p =>
      refine ⟨.nativeError, ?_, rfl⟩
      show service.entry true r p >>= _ = _
      rw [hcore.entry]
      rfl
  · rw [NativeResults.object, if_neg hi, if_neg hi]
    exact ⟨.typeError, rfl, rfl⟩

theorem nativeRecord_closed (tableKey objectKey : Int) :
    nativeRecord decodeReplace service true tableKey objectKey =
      .error (if service.takes tableKey objectKey then .nativeError else .typeError) := by
  unfold nativeRecord
  split
  · rw [findClassByKey_eq]
    cases firstOf ClassInfo.key tableKey service.schema.classes with
    | none => rfl
    | some c =>
      rw [hcore.object]
      rfl
  · rfl

theorem directItem_closed (r : Nat) (index : Int) :
    directItem decodeReplace service true r index =
      .error (closedIndex (service.count r) index) := by
  obtain ⟨e, he, ht⟩ := gatedItem_closed hcore decodeReplace r index
  rw [directItem, he, surface, ht]

theorem directSlice_closed (r : Nat) (start stop step : Option Int) :
    (directSlice decodeReplace service true r start stop step).map View.records =
      closedSlice (service.count r) start stop step := by
  rw [directSlice, closedSlice]
  by_cases hstep : step = some 0
  · rw [if_pos hstep, hstep, sliceIndices_zero]
    rfl
  · obtain ⟨bounds, hbounds, hrange⟩ := rangeItems_slice (n := service.count r) hstep
    rw [if_neg hstep, hbounds, ok_bind, hrange]
    cases hpositions : slicePositions (service.count r) start stop (step.getD 1) with
    | nil => rfl
    | cons p positions =>
      -- the first position is in range, and refused
      have hlt : p < service.count r :=
        slicePositions_lt (hpositions ▸ List.mem_cons_self)
      have hcount := service.count_lt r
      have hposition : indexPosition (service.count r) p = some p := by
        rw [indexPosition, if_pos ⟨by omega, by omega⟩, Int.toNat_natCast]
      rw [List.map_cons, List.mapM_cons, Int.ofNat_eq_natCast, directItem_closed hcore, closedIndex,
        if_pos ⟨by omega, by omega⟩, hposition, Option.elim_some]
      rfl

theorem directNext_closed (r : Nat) :
    directNext decodeReplace service true r = closedNext (service.count r) := by
  funext index stop
  unfold directNext closedNext
  rw [directItem_closed hcore]
  rfl

theorem directNextValid_closed (r : Nat) :
    directNextValid decodeReplace service true r =
      closedNextValid r (service.count r) := by
  funext index stop
  unfold directNextValid closedNextValid
  rw [directNext_closed hcore]

end

/-! ## What is kept -/

section
variable {decodeReplace : Bytes → PyStr} {service : CoreService}

theorem NothingRead.refl (s : Memory) : NothingRead s s :=
  ⟨[], (List.append_nil _).symm, List.forall_mem_nil _⟩

theorem NothingRead.trans {s t u : Memory} (h : NothingRead s t) (h' : NothingRead t u) :
    NothingRead s u := by
  obtain ⟨new, ht, hnew⟩ := h
  obtain ⟨new', hu, hnew'⟩ := h'
  refine ⟨new ++ new', by rw [hu, ht, List.append_assoc], fun answer ha => ?_⟩
  rcases List.mem_append.mp ha with ha | ha
  · exact hnew answer ha
  · exact hnew' answer ha

/-- What was answered is what was answered before. -/
theorem NothingRead.mem {s t : Memory} (h : NothingRead s t) {raw : Dict PyStr Value}
    (hm : .ok raw ∈ t.answers) : .ok raw ∈ s.answers := by
  obtain ⟨new, ht, hnew⟩ := h
  rw [ht] at hm
  rcases List.mem_append.mp hm with hm | hm
  · exact hm
  · obtain ⟨e, he⟩ := hnew _ hm
    cases he

theorem Carried.refl (s : Memory) : Carried s s := ⟨.refl s, fun _ record h => ⟨record, h, rfl⟩⟩

theorem Carried.trans {s t u : Memory} (h : Carried s t) (h' : Carried t u) : Carried s u where
  answers := h.answers.trans h'.answers
  live := by
    intro r record hr
    obtain ⟨mid, ht, he⟩ := h'.live r record hr
    obtain ⟨old, hs, he'⟩ := h.live r mid ht
    exact ⟨old, hs, he.trans he'⟩

theorem gatedStep_nothingRead (hcore : service.Refuses) {s₀ s t : Memory} {c : Command}
    {answer : Except Error (Answer c)} (h : gatedStep decodeReplace service true s c answer t)
    (hs : NothingRead s₀ s) : NothingRead s₀ t := by
  by_cases hc : c.Silent
  · obtain ⟨new, hnew, hall⟩ := hs
    exact ⟨new, silent_answers s c answer t hc h.1 hnew, hall⟩
  · obtain ⟨⟨heap, -, he⟩, hserved⟩ := h
    cases c with
    | native read =>
      cases he
      refine hs.trans ⟨[answer], rfl, List.forall_mem_singleton.mpr ?_⟩
      cases read with
      | record tableKey objectKey => exact ⟨_, hserved.trans (nativeRecord_closed hcore _ _)⟩
      | item r index =>
        obtain ⟨e, he, -⟩ := gatedItem_closed hcore decodeReplace r index
        exact ⟨e, hserved.trans he⟩
    | _ => exact absurd trivial hc

/-- **No address gets a second record.** -/
theorem step_older {h₀ : Heap (Int × Int) Record} (s : Memory) (c : Command)
    (answer : Except Error (Answer c)) (t : Memory) (h : step s c answer t)
    (hs : Older Record.fixed h₀ s.heap) : Older Record.fixed h₀ t.heap := by
  obtain ⟨heap, hcol, he⟩ := h
  have hheap := hs.shrunk (shrunk_of_collected hcol)
  cases c with
  | cacheGet identity =>
    rw [he.2]
    show Older Record.fixed h₀ ((heap.lookup identity).elim heap heap.hold)
    cases heap.lookup identity with
    | none => exact hheap
    | some r => exact hheap.hold r
  | cacheSet identity r =>
    rw [he.2]
    exact hheap.assign identity r
  | allocate record =>
    rw [he.2]
    exact hheap.allocate record
  | native read =>
    cases he
    exact hheap
  | nativeLen r =>
    cases he
    exact hheap
  | setConverted r key value =>
    rw [he.2, Memory.setConverted]
    split
    · next record hl => exact hheap.update hl rfl
    · exact hheap
  | _ =>
    rw [he.2]
    exact hheap

variable {parseDecimal : PyStr → Option PyStr}

/-- **An operation on a closed realm** reads nothing. -/
theorem carried_of_run (hcore : service.Refuses) {s t : Memory} (hs : Inv parseDecimal s) {op : Op}
    (hop : op.Held s) {out : Except Error Output}
    (h : Runs (gatedStep decodeReplace service true) s (op.run parseDecimal) t out) :
    Carried s t := by
  have hread : NothingRead s t :=
    h.keeps (fun _ _ _ _ hstep => gatedStep_nothingRead hcore hstep) (.refl s)
  have hkeep : ∀ (u : Memory) c answer v, gatedStep decodeReplace service true u c answer v →
      Older Record.fixed s.heap u.heap → Older Record.fixed s.heap v.heap :=
    fun u c answer v hstep => step_older u c answer v hstep.1
  have holder : Older Record.fixed s.heap t.heap := h.keeps hkeep (.refl s.heap)
  obtain ⟨ht, new, hlaw⟩ := hs.law hop (h.mono fun _ _ _ _ hstep => hstep.1)
  refine ⟨hread, fun r record hr => ?_⟩
  -- the record has a cache entry, which is not new
  have hentry := ht.interned.listed r record hr nofun
  rcases hlaw.added _ r hentry with hentry | ⟨raw, hraw, -⟩
  · exact holder.live r record (hs.interned.tableOld _ r hentry) hr
  · obtain ⟨new', hnew', hall⟩ := hread
    rw [hlaw.answers] at hnew'
    rw [List.append_cancel_left hnew'] at hraw
    obtain ⟨e, he⟩ := hall _ hraw
    cases he

end

/-! ## What each operation gives -/

section
variable {decodeReplace : Bytes → PyStr} {service : CoreService}
  {parseDecimal : PyStr → Option PyStr} {s : Memory}

theorem closed_record (hcore : service.Refuses) (hs : Inv parseDecimal s) (tableKey objectKey : Int) :
    wp (gatedStep decodeReplace service true) (record tableKey objectKey)
      (fun r t => Yields t r (tableKey, objectKey))
      (fun e _ => (∀ r, ¬ Yields s r (tableKey, objectKey)) ∧
        e = if service.takes tableKey objectKey then .realmError .native else .typeError) s := by
  refine wp_mono (wp_directRecord hs tableKey objectKey) ?_ ?_
  · rintro r t (hy | ⟨identity, hid, -⟩)
    · exact hy
    · rw [directRecord, nativeRecord_closed hcore] at hid
      cases hid
  · rintro e t ⟨hno, he⟩
    rw [directRecord, nativeRecord_closed hcore] at he
    refine ⟨hno, (Except.error.inj he).symm.trans ?_⟩
    split
    · rfl
    · rfl

/-- A record that memory has, or nothing. -/
theorem closed_finds (hcore : service.Refuses) (hs : Inv parseDecimal s) {op : Op}
    {tableKey objectKey : Int}
    (hop : op = .getByKey tableKey objectKey ∨ op = .resolve tableKey objectKey) {t : Memory}
    {out : Except Error Output}
    (h : Runs (gatedStep decodeReplace service true) s (op.run parseDecimal) t out) :
    Finds service s tableKey objectKey out := by
  have hheld : op.Held s := by
    rcases hop with rfl | rfl
    · exact trivial
    · exact trivial
  have hcarried := carried_of_run hcore hs hheld h
  have hrec : wp (gatedStep decodeReplace service true)
      (record tableKey objectKey >>= fun r => pure (Output.record r))
      (fun output t => ∃ r, output = .record r ∧ Yields t r (tableKey, objectKey))
      (fun e _ => (∀ r, ¬ Yields s r (tableKey, objectKey)) ∧
        e = if service.takes tableKey objectKey then .realmError .native else .typeError) s := by
    rw [wp_bind]
    exact wp_mono (closed_record hcore hs tableKey objectKey) (fun r _ hy => ⟨r, rfl, hy⟩)
      fun _ _ => id
  have hsame : op.run parseDecimal = record tableKey objectKey >>= fun r => pure (Output.record r) := by
    rcases hop with rfl | rfl
    · exact rfl
    · exact rfl
  rw [hsame] at h
  have hends := (wp_iff_runs _ _ _ _ _).mp hrec t out h
  cases out with
  | ok output =>
    obtain ⟨r, rfl, hy⟩ := hends
    obtain ⟨record, hl, hi⟩ := hy.live
    obtain ⟨old, hold, he⟩ := hcarried.live r record hl
    have hsame : record.identity = old.identity := congrArg Prod.fst he
    exact Or.inl ⟨r, old, hold, hsame.symm.trans hi, rfl⟩
  | error e =>
    obtain ⟨hno, rfl⟩ := hends
    exact Or.inr ⟨hno, rfl⟩

/-- A held record has its fields. -/
theorem closed_field (hs : Inv parseDecimal s) {r : Nat} {key : PyStr} (hr : r ∈ s.heap.roots)
    {record : Record} (hl : s.heap.live r = some record) {t : Memory} {out : Except Error Output}
    (h : Runs step s (Op.run parseDecimal (.field r key)) t out) :
    ∃ raw, .ok raw ∈ s.answers ∧ Names raw record.identity ∧ record.raw = fieldsOf raw ∧
      out = (readField parseDecimal raw key).map Output.value := by
  obtain ⟨raw, hm, hi, hraw⟩ := (hs.sound r record hl).source
  refine ⟨raw, hm, (recordIdentity_eq_ok raw _).mp hi, hraw, ?_⟩
  apply h.of_wp (P := fun _ out => out = (readField parseDecimal raw key).map Output.value)
  rw [Op.run, wp_bind]
  refine hs.start.wp_getField hr hl hraw key (fun value u hv _ => ?_) fun e u he _ => ?_
  · rw [hv]
    exact rfl
  · rw [he]
    exact rfl

theorem afterClose_of_run (hcore : service.Refuses) (hs : Inv parseDecimal s) {op : Op}
    (hop : op.Held s) {t : Memory} {out : Except Error Output}
    (h : Runs (gatedStep decodeReplace service true) s (op.run parseDecimal) t out) :
    AfterClose service parseDecimal s t op out := by
  have hagrees : op.OfResults →
      Agrees t out (directRun decodeReplace service true parseDecimal (0, 0) op) :=
    fun hresults => agrees_of_run hs hresults h (0, 0)
  cases op with
  | len r => exact hagrees trivial
  | index r index =>
    have hout := hagrees trivial
    rw [directRun, directItem_closed hcore] at hout
    exact hout
  | slice r start stop step =>
    have hout := hagrees trivial
    rw [directRun, directSlice_closed hcore] at hout
    exact hout
  | next g =>
    have hout := hagrees trivial
    rw [directRun, directNext_closed hcore] at hout
    exact hout
  | nextValid g =>
    have hout := hagrees trivial
    rw [directRun, directNextValid_closed hcore] at hout
    exact hout
  | getByKey tableKey objectKey => exact closed_finds hcore hs (Or.inl rfl) h
  | resolve tableKey objectKey => exact closed_finds hcore hs (Or.inr rfl) h
  | field r key =>
    intro record hl
    exact closed_field hs hop hl (h.mono fun _ _ _ _ hstep => hstep.1)

end

/-! ## Histories -/

section
variable {decodeReplace : Bytes → PyStr} {service : CoreService}
  {parseDecimal : PyStr → Option PyStr} {s t : Session}

/-- A closed realm stays closed, and nothing is read. -/
theorem Proceeds.carried (hcore : service.Refuses)
    (h : Proceeds decodeReplace service parseDecimal s t) (hs : Inv parseDecimal s.1)
    (hclosed : s.2 = true) : t.2 = true ∧ Carried s.1 t.1 := by
  cases h with
  | op op hop hr =>
    obtain ⟨ht, hrun⟩ := gated_run hr
    rw [hclosed] at ht hrun
    exact ⟨ht, carried_of_run hcore hs hop hrun⟩
  | close answer =>
    rw [hclosed]
    exact ⟨rfl, .refl s.1⟩
  | release roots hr => exact ⟨hclosed, .refl s.1, fun _ record hl => ⟨record, hl, rfl⟩⟩
  | collect hc =>
    exact ⟨hclosed, .refl s.1, fun r record hl => ⟨record, hc.shrunk.live r record hl, rfl⟩⟩

/-- Neither does a whole history read anything. -/
theorem carried_of_history (hcore : service.Refuses)
    (h : Relation.ReflTransGen (Proceeds decodeReplace service parseDecimal) s t)
    (hs : Inv parseDecimal s.1) (hclosed : s.2 = true) :
    t.2 = true ∧ Carried s.1 t.1 ∧ Inv parseDecimal t.1 := by
  induction h with
  | refl => exact ⟨hclosed, .refl s.1, hs⟩
  | tail _ hm ih =>
    obtain ⟨hmid, hcarried, hinv⟩ := ih
    obtain ⟨ht, hlast⟩ := hm.carried hcore hinv hmid
    exact ⟨ht, hcarried.trans hlast, hm.inv hinv⟩

/-- The tables of a closed realm have no length and no result sets. -/
theorem closed_table (hcore : service.Refuses) {realm : RealmSchema}
    (h : initRealm service.schema = .ok realm) {name : PyStr} {table : TableSchema}
    (htable : realm.table name = .ok table) :
    tableLen (service.tables true) service.schema table = .error (.realmError .native) ∧
      tableAll (service.tables true) service.schema table = .error (.realmError .native) := by
  have hrel := table_rel h name
  rw [RealmSchema.table] at htable
  cases hfound : realm.byName.get? name with
  | none =>
    rw [hfound] at htable
    cases htable
  | some found =>
    rw [hfound] at htable hrel
    cases htable
    cases hlast : lastOf ClassInfo.name (encodeUtf8 name) service.classes with
    | none =>
      rw [hlast] at hrel
      cases hrel
    | some c =>
      rw [hlast] at hrel
      cases hrel with
      | some hd =>
        have hname := (pyStr_eq_ok_iff _ _).mp (describe_eq_ok hd).1
        -- the native layer finds a class of the name, maybe another one
        obtain ⟨first, hfirst⟩ : ∃ first, firstOf ClassInfo.name c.name service.classes = some first :=
          exists_firstOf (mem_of_lastOf hlast)
        rw [← hname] at hfirst
        have hclass := findClassByName_of_first hfirst
        constructor
        · rw [tableLen, nativeCount, CoreService.schema, hclass, ok_bind, hcore.numObjects]
          rfl
        · rw [tableAll, nativeAll, CoreService.schema, hclass, ok_bind, openResults, hcore.findAll]
          rfl

/-- **After `close()`**, whatever was done before, whatever is done later: the realm
stays closed, nothing is read from it, every record in memory was there before.
Each operation raises what it should, or answers from memory and from the counts
of the result sets. -/
theorem use_after_close (decodeReplace : Bytes → PyStr) {service : CoreService}
    (hcore : service.Refuses) (parseDecimal : PyStr → Option PyStr) {s : Session}
    (hs : Session.Reachable decodeReplace service parseDecimal s) (hclosed : s.2 = true) {u : Session}
    (hu : Relation.ReflTransGen (Proceeds decodeReplace service parseDecimal) s u) :
    u.2 = true ∧ Carried s.1 u.1 ∧ (∀ answer, closeRealm answer u.2 = (.ok (), true)) ∧
    (∀ op, op.Held u.1 →
      (∃ t out, Runs (sessionStep decodeReplace service) u (op.run parseDecimal) t out) ∧
      ∀ t out, Runs (sessionStep decodeReplace service) u (op.run parseDecimal) t out →
        Carried s.1 t.1 ∧ AfterClose service parseDecimal u.1 t.1 op out) ∧
    ∀ realm, initRealm service.schema = .ok realm → ∀ name table, realm.table name = .ok table →
      tableLen (service.tables u.2) service.schema table = .error (.realmError .native) ∧
      tableAll (service.tables u.2) service.schema table = .error (.realmError .native) := by
  obtain ⟨hend, hcarried, hinv⟩ := carried_of_history hcore hu hs.inv hclosed
  refine ⟨hend, hcarried, fun answer => ?_, fun op hop => ⟨?_, fun t out hrun => ?_⟩, ?_⟩
  · rw [hend]
    exact rfl
  · exact exists_runs _ sessionStep_serial _ u
  · obtain ⟨-, hgated⟩ := gated_run hrun
    rw [hend] at hgated
    exact ⟨hcarried.trans (carried_of_run hcore hinv hop hgated),
      afterClose_of_run hcore hinv hop hgated⟩
  · rw [hend]
    exact fun realm hrealm name table htable => closed_table hcore hrealm htable

end

/-- An answer that a closed realm refuses. -/
def whenOpen {α : Type} (answer : Except Error α) : Bool → Except Error α
  | true => .error .nativeError
  | false => answer

/-- The tables of a realm whose classes have the one object of key 3. -/
def oneEachOpen (closed : Bool) : CoreRealm where
  numObjects := fun key => whenOpen (oneEach.numObjects key) closed
  findAll := fun key => whenOpen (oneEach.findAll key) closed
  findAll_table := by
    intro key results i o h ho
    cases closed with
    | true => cases h
    | false => exact oneEach.findAll_table key results i o h ho

/-- One object of table 5, and the result sets `twoNodes`. -/
def tinyService : CoreService where
  classes := [⟨[], [], 5, false, false, []⟩]
  takes := fun _ _ => true
  tables := oneEachOpen
  object := fun closed _ key => whenOpen
    (.ok ⟨key, fun _ => .ok .null, fun _ => .ok [], fun _ => .ok [], fun _ => .ok []⟩) closed
  entry := fun closed _ p => whenOpen (twoNodes.results.getObject p) closed
  count := fun _ => twoNodes.count
  count_lt := fun _ => by decide

theorem tinyService_refuses : tinyService.Refuses :=
  ⟨fun _ => rfl, fun _ => rfl, fun _ _ => rfl, fun _ _ => rfl⟩

def nodeRaw : Dict PyStr Value := (Dict.empty.set TABLE_KEY (.int 5)).set OBJECT_KEY (.int 3)

/-- After the object was read. -/
def nodeMemory : Memory where
  heap := (Heap.empty.allocate ⟨5, 3, fieldsOf nodeRaw, Dict.empty⟩).assign (5, 3) 0
  answers := [.ok nodeRaw]

theorem session_reads : Runs (sessionStep (fun _ => []) tinyService) Session.initial
    (Op.run (fun _ => none) (.getByKey 5 3)) (nodeMemory, false) (.ok (.record 0)) := by
  apply Runs.call (.ok none) (t := (Memory.initial, false)) ⟨⟨_, .refl, rfl, rfl⟩, rfl, trivial⟩
  apply Runs.call (.ok nodeRaw) (t := (⟨Heap.empty, [.ok nodeRaw]⟩, false)) ⟨⟨_, .refl, rfl⟩, rfl, rfl⟩
  apply Runs.call (.ok none) (t := (⟨Heap.empty, [.ok nodeRaw]⟩, false)) ⟨⟨_, .refl, rfl, rfl⟩, rfl, trivial⟩
  apply Runs.call (.ok 0) (t := (_, false)) ⟨⟨_, .refl, rfl, rfl⟩, rfl, trivial⟩
  apply Runs.call (.ok ()) (t := (nodeMemory, false)) ⟨⟨_, .refl, rfl, rfl⟩, rfl, trivial⟩
  exact Runs.done _ _

theorem use_after_close_tiny :
    Carried nodeMemory nodeMemory ∧
    (∃ t, Runs (sessionStep (fun _ => []) tinyService) (nodeMemory, true)
      (Op.run (fun _ => none) (.resolve 5 3)) t (.ok (.record 0))) ∧
    ∃ t, Runs (sessionStep (fun _ => []) tinyService) (nodeMemory, true)
      (Op.run (fun _ => none) (.index 0 (-1))) t (.error (.realmError .native)) := by
  have hs : Session.Reachable (fun _ => []) tinyService (fun _ => none) (nodeMemory, true) :=
    .tail (.single (.op (.getByKey 5 3) trivial session_reads)) (.close (.ok ()))
  obtain ⟨-, hcarried, -, hops, -⟩ :=
    use_after_close (fun _ => []) tinyService_refuses (fun _ => none) hs rfl .refl
  refine ⟨hcarried, ?_, ?_⟩
  · obtain ⟨⟨t, out, hrun⟩, hall⟩ := hops (.resolve 5 3) trivial
    refine ⟨t, ?_⟩
    rcases (hall t out hrun).2 with ⟨r, record, hl, hi, rfl⟩ | ⟨hno, -⟩
    · rcases Heap.live_allocate_cases hl with ⟨rfl, -⟩ | ⟨-, hno⟩
      · exact hrun
      · cases hno
    · exact absurd ⟨List.mem_singleton_self 0, _, rfl, rfl⟩ (hno 0)
  · obtain ⟨⟨t, out, hrun⟩, hall⟩ := hops (.index 0 (-1)) trivial
    have hout := (hall t out hrun).2
    cases hout
    exact ⟨t, hrun⟩

end Pyrealm.Reader
