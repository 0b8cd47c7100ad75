import Pyrealm.Reader.Identity
import Pyrealm.Reader.Lifetime

/-!
# The cache is not seen

The reader keeps records while they are held, converts fields once, and asks the
native layer as little as it can.  Over one unchanging database it gives what a
reader without any memory gives.

    Agrees t out (directRun … op)        (cache_transparent)

* `Consistent`: what one database promises about its objects and result sets.
* `Drawn`: memory has nothing else.
-/

namespace Pyrealm.Reader

open Py Effects Interning Indexes

/-! ## One database -/

/-- **Assumed of Realm Core**: beside that it refuses a closed realm, that the objects
of result sets are those found by their keys, and that no property has a name of the
metadata. -/
structure CoreService.Consistent (service : CoreService) : Prop extends service.Refuses where
  key : ∀ tableKey objectKey o, service.object false tableKey objectKey = .ok o → o.key = objectKey
  found : ∀ r p o, service.entry false r p = .ok o →
    service.takes o.table o.object.key = true ∧
      service.object false o.table o.object.key = .ok o.object
  named : ∀ c ∈ service.classes, ∀ property ∈ visible c.toClassMeta,
    property.name ≠ encodeUtf8 TABLE_KEY ∧ property.name ≠ encodeUtf8 OBJECT_KEY

/-- The identity of the record whose field an operation reads. -/
def Op.subject (s : Memory) : Op → Int × Int
  | .field r _ => ((s.heap.live r).map Record.identity).getD (0, 0)
  | _ => (0, 0)

/-- Every raw dictionary that was answered is that of an object. -/
def Drawn (decodeReplace : Bytes → PyStr) (service : CoreService) (s : Memory) : Prop :=
  ∀ raw, .ok raw ∈ s.answers →
    ∃ tableKey objectKey, nativeRecord decodeReplace service false tableKey objectKey = .ok raw

section
variable {decodeReplace : Bytes → PyStr} {service : CoreService}
  {parseDecimal : PyStr → Option PyStr}

/-- A record is read from an object of the first class of its key. -/
theorem nativeRecord_eq_ok {tableKey objectKey : Int} {raw : Dict PyStr Value}
    (h : nativeRecord decodeReplace service false tableKey objectKey = .ok raw) :
    ∃ c o, firstOf ClassInfo.key tableKey service.classes = some c ∧
      service.object false tableKey objectKey = .ok o ∧
      objectToDict decodeReplace o c.toClassMeta = .ok raw := by
  unfold nativeRecord at h
  split at h
  · rw [bind_eq_ok_iff] at h
    obtain ⟨c, hclass, h⟩ := h
    rw [bind_eq_ok_iff] at h
    obtain ⟨o, ho, h⟩ := h
    exact ⟨c, o, findClassByKey_eq_ok hclass, ho, h⟩
  · cases h

/-- **An object's dictionary names it.** -/
theorem record_names (hc : service.Consistent) {tableKey objectKey : Int} {raw : Dict PyStr Value}
    (h : nativeRecord decodeReplace service false tableKey objectKey = .ok raw) :
    Names raw (tableKey, objectKey) := by
  obtain ⟨c, o, hfirst, ho, h⟩ := nativeRecord_eq_ok h
  have hobject : o.key = objectKey := hc.key tableKey objectKey o ho
  have hkey : c.key = tableKey := key_of_firstOf hfirst
  have hnone : ∀ name, (∀ property ∈ visible c.toClassMeta, property.name ≠ encodeUtf8 name) →
      raw.get? name = (metadata o c.toClassMeta).get? name := fun name hname =>
    get?_of_no_property h (lastOf_eq_none_iff.mpr hname)
  have hnamed := hc.named c (mem_of_firstOf hfirst)
  constructor
  · rw [hnone TABLE_KEY fun property hp => (hnamed property hp).1, get?_metadata, if_neg key_ne,
      if_pos rfl]
    exact congrArg (fun k => some (Value.int k)) hkey
  · rw [hnone OBJECT_KEY fun property hp => (hnamed property hp).2, get?_metadata, if_pos rfl,
      hobject]

theorem object_eq_ok {results : NativeResults} {index : Int} {o : ResultObject}
    (h : results.object index = .ok o) : ∃ p, results.results.getObject p = .ok o := by
  unfold NativeResults.object at h
  split at h
  · dsimp only at h
    generalize (if index < 0 then index + (results.count : Int) else index) = j at h
    by_cases hj : j < 0 ∨ (results.count : Int) ≤ j
    · rw [if_pos hj] at h
      cases h
    · rw [if_neg hj] at h
      exact ⟨_, h⟩
  · cases h

/-- An entry of a result set is an object found by its keys. -/
theorem item_drawn (hc : service.Consistent) {r : Nat} {index : Int} {raw : Dict PyStr Value}
    (h : gatedItem decodeReplace service false r index = .ok raw) :
    ∃ tableKey objectKey,
      nativeRecord decodeReplace service false tableKey objectKey = .ok raw := by
  rw [gatedItem, nativeGet, bind_eq_ok_iff] at h
  obtain ⟨o, ho, h⟩ := h
  obtain ⟨p, hp⟩ := object_eq_ok ho
  obtain ⟨htakes, hobject⟩ := hc.found r p o hp
  refine ⟨o.table, o.object.key, ?_⟩
  rw [nativeRecord, htakes, hobject]
  exact h

theorem gatedStep_drawn (hc : service.Consistent) {closed : Bool} {s t : Memory} {c : Command}
    {answer : Except Error (Answer c)} (h : gatedStep decodeReplace service closed s c answer t)
    (hs : Drawn decodeReplace service s) : Drawn decodeReplace service t := by
  cases closed with
  | true =>
    have hread : NothingRead s t := gatedStep_nothingRead hc.toRefuses h (.refl s)
    exact fun raw hraw => hs raw (hread.mem hraw)
  | false =>
    by_cases hsilent : c.Silent
    · intro raw hraw
      rw [silent_answers s c answer t hsilent h.1 rfl] at hraw
      exact hs raw hraw
    · obtain ⟨⟨heap, -, he⟩, hserved⟩ := h
      cases c with
      | native read =>
        cases he
        intro raw hraw
        rcases List.mem_append.mp hraw with hraw | hraw
        · exact hs raw hraw
        · rw [List.mem_singleton] at hraw
          cases read with
          | record tableKey objectKey =>
            exact ⟨tableKey, objectKey, (hraw.trans hserved).symm⟩
          | item r index => exact item_drawn hc (hraw.trans hserved).symm
      | _ => exact absurd trivial hsilent

theorem Session.Reachable.drawn (hc : service.Consistent) {s : Session}
    (h : Session.Reachable decodeReplace service parseDecimal s) :
    Drawn decodeReplace service s.1 := by
  induction h with
  | refl => exact nofun
  | tail _ hm ih =>
    cases hm with
    | op op hop hr =>
      exact (gated_run hr).2.keeps (fun _ _ _ _ hstep => gatedStep_drawn hc hstep) ih
    | close answer => exact ih
    | release roots hr => exact ih
    | collect hc => exact ih

/-! ## What operations give -/

/-- **A record in memory is that of the database.** -/
theorem drawn_record (hc : service.Consistent) {s : Memory} (hs : Inv parseDecimal s)
    (hd : Drawn decodeReplace service s) {r : Nat} {record : Record}
    (hl : s.heap.live r = some record) :
    ∃ raw, nativeRecord decodeReplace service false record.tableKey record.objectKey = .ok raw ∧
      record.raw = fieldsOf raw := by
  obtain ⟨raw, hm, hi, hraw⟩ := (hs.sound r record hl).source
  obtain ⟨tableKey, objectKey, hread⟩ := hd raw hm
  have hsame := ((recordIdentity_eq_ok raw _).mp hi).inj (record_names hc hread)
  refine ⟨raw, ?_, hraw⟩
  rw [show record.tableKey = tableKey from congrArg Prod.fst hsame,
    show record.objectKey = objectKey from congrArg Prod.snd hsame]
  exact hread

/-- A record that memory has is the one the native layer would give. -/
theorem directRecord_of_yields (hc : service.Consistent) {s : Memory} (hs : Inv parseDecimal s)
    (hd : Drawn decodeReplace service s) {r : Nat} {identity : Int × Int}
    (hy : Yields s r identity) :
    directRecord decodeReplace service false identity.1 identity.2 = .ok identity := by
  obtain ⟨record, hl, rfl⟩ := hy.live
  obtain ⟨raw, hread, -⟩ := drawn_record hc hs hd hl
  rw [directRecord]
  show surface (nativeRecord decodeReplace service false record.tableKey record.objectKey) = _
  rw [hread]
  exact (recordIdentity_eq_ok raw _).mpr (record_names hc hread)

/-- Looking a record up. -/
theorem agrees_record (hc : service.Consistent) {s : Memory} (hs : Inv parseDecimal s)
    (hd : Drawn decodeReplace service s) {op : Op} {tableKey objectKey : Int}
    (hop : op = .getByKey tableKey objectKey ∨ op = .resolve tableKey objectKey) {t : Memory}
    {out : Except Error Output}
    (h : Runs (gatedStep decodeReplace service false) s (op.run parseDecimal) t out) :
    Agrees t out ((directRecord decodeReplace service false tableKey objectKey).map View.record) := by
  have hheld : op.Held s := by
    rcases hop with rfl | rfl
    · exact trivial
    · exact trivial
  have hsame : op.run parseDecimal =
      record tableKey objectKey >>= fun r => pure (Output.record r) := by
    rcases hop with rfl | rfl
    · exact rfl
    · exact rfl
  have ht : Inv parseDecimal t := (hs.law hheld (h.mono fun _ _ _ _ hstep => hstep.1)).1
  have htd : Drawn decodeReplace service t := h.keeps (fun _ _ _ _ hstep => gatedStep_drawn hc hstep) hd
  rw [hsame] at h
  have hspec : wp (gatedStep decodeReplace service false)
      (record tableKey objectKey >>= fun r => pure (Output.record r))
      (fun output t => ∃ r, output = .record r ∧ (Yields t r (tableKey, objectKey) ∨ ∃ identity,
        directRecord decodeReplace service false tableKey objectKey = .ok identity ∧
        Yields t r identity))
      (fun e _ => directRecord decodeReplace service false tableKey objectKey = .error e) s := by
    rw [wp_bind]
    exact wp_mono (wp_directRecord hs tableKey objectKey) (fun r _ hy => ⟨r, rfl, hy⟩) fun _ _ he => he.2
  have hends := (wp_iff_runs _ _ _ _ _).mp hspec t out h
  cases out with
  | ok output =>
    obtain ⟨r, rfl, hy | ⟨identity, hid, hy⟩⟩ := hends
    · have hread := directRecord_of_yields hc ht htd hy
      rw [hread]
      exact .ok (.record hy)
    · rw [hid]
      exact .ok (.record hy)
  | error e =>
    have he : directRecord decodeReplace service false tableKey objectKey = .error e := hends
    rw [he]
    exact .error e

/-- Reading a field, of a realm that may be closed. -/
theorem agrees_field (hc : service.Consistent) {s : Memory} (hs : Inv parseDecimal s)
    (hd : Drawn decodeReplace service s) {r : Nat} {key : PyStr} (hr : r ∈ s.heap.roots) {t : Memory}
    {out : Except Error Output} (h : Runs step s (Op.run parseDecimal (.field r key)) t out) :
    Agrees t out (directRun decodeReplace service false parseDecimal
      (Op.subject s (.field r key)) (.field r key)) := by
  obtain ⟨record, hl⟩ := hs.interned.held r hr
  obtain ⟨raw, hread, hraw⟩ := drawn_record hc hs hd hl
  have hsubject : Op.subject s (.field r key) = record.identity := by
    rw [Op.subject, hl]
    rfl
  have hdirect : directField decodeReplace service false parseDecimal record.identity key =
      readField parseDecimal raw key := by
    rw [directField]
    show nativeRecord decodeReplace service false record.tableKey record.objectKey >>= _ = _
    rw [hread, ok_bind]
  rw [directRun, hsubject, hdirect]
  apply h.of_wp
  rw [Op.run, wp_bind]
  refine hs.start.wp_getField hr hl hraw key (fun value u hv _ => ?_) fun e u he _ => ?_
  · rw [hv]
    exact .ok (.value value)
  · rw [he]
    exact .error e

/-- **The cache is not seen.**  In every history of operations, collections and
closings, every record in memory is the database's, every operation on the open
realm ends as it would without a cache, and so does every read of a field, open
or closed. -/
theorem cache_transparent (hc : service.Consistent) {s : Session}
    (hs : Session.Reachable decodeReplace service parseDecimal s) :
    (∀ r record, s.1.heap.live r = some record → ∃ raw,
      nativeRecord decodeReplace service false record.tableKey record.objectKey = .ok raw ∧
      record.raw = fieldsOf raw) ∧
    ∀ op, op.Held s.1 → (s.2 = true → ∃ r key, op = .field r key) →
      (∃ t out, Runs (sessionStep decodeReplace service) s (op.run parseDecimal) t out) ∧
      ∀ t out, Runs (sessionStep decodeReplace service) s (op.run parseDecimal) t out →
        Agrees t.1 out (directRun decodeReplace service false parseDecimal (op.subject s.1) op) := by
  have hinv := hs.inv
  have hdrawn := hs.drawn hc
  refine ⟨fun r record hl => drawn_record hc hinv hdrawn hl, fun op hop hopen => ⟨?_, ?_⟩⟩
  · exact exists_runs _ sessionStep_serial _ s
  intro t out hrun
  obtain ⟨-, hgated⟩ := gated_run hrun
  cases hclosed : s.2 with
  | true =>
    obtain ⟨r, key, rfl⟩ := hopen hclosed
    exact agrees_field hc hinv hdrawn hop (hgated.mono fun _ _ _ _ hstep => hstep.1)
  | false =>
    rw [hclosed] at hgated
    have hresults : op.OfResults →
        Agrees t.1 out (directRun decodeReplace service false parseDecimal (op.subject s.1) op) :=
      fun hop => agrees_of_run hinv hop hgated _
    cases op with
    | getByKey tableKey objectKey => exact agrees_record hc hinv hdrawn (Or.inl rfl) hgated
    | resolve tableKey objectKey => exact agrees_record hc hinv hdrawn (Or.inr rfl) hgated
    | field r key => exact agrees_field hc hinv hdrawn hop (hgated.mono fun _ _ _ _ hstep => hstep.1)
    | _ => exact hresults trivial

end

theorem tinyService_consistent : tinyService.Consistent where
  toRefuses := tinyService_refuses
  key := by
    rintro tableKey objectKey o ⟨⟩
    rfl
  found := by
    rintro r p o ⟨⟩
    exact ⟨rfl, rfl⟩
  named := List.forall_mem_singleton.mpr (List.forall_mem_nil _)

theorem cache_transparent_tiny : ∃ t out,
    Runs (sessionStep (fun _ => []) tinyService) (nodeMemory, false)
      (Op.run (fun _ => none) (.index 0 (-1))) t out ∧ Agrees t.1 out (.ok (.record (5, 1))) := by
  have hs : Session.Reachable (fun _ => []) tinyService (fun _ => none) (nodeMemory, false) :=
    .single (.op (.getByKey 5 3) trivial session_reads)
  obtain ⟨-, hops⟩ := cache_transparent tinyService_consistent hs
  obtain ⟨⟨t, out, hrun⟩, hall⟩ := hops (.index 0 (-1)) trivial nofun
  exact ⟨t, out, hrun, hall t out hrun⟩

end Pyrealm.Reader
