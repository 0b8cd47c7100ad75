import Pyrealm.Reader.Sequence

/-!
# Sessions

The operations of `Results`, `Table` and `RealmLink` on one realm, in any order,
with `Realm.close` between them.  Realm Core is a parameter: what it answers about a
realm that is open or closed (`CoreService`).  `Refuses` is what results about closed
realms assume of it.

* `Proceeds`: operations, closings, records dropped and collected.
* `directRun`: what an operation gives without a cache.
* `agrees_of_run`: on result sets, every operation gives that.
-/

namespace Pyrealm.Reader

open Py Effects Interning

/-! ## Data -/

/-- Realm Core's answers about a realm and the result sets made of it, by whether
the realm is closed. -/
structure CoreService where
  classes : List ClassInfo
  /-- The keys are a `realm_class_key_t` and a `realm_object_key_t`. -/
  takes : Int → Int → Bool
  tables : Bool → CoreRealm
  /-- `realm_get_object` -/
  object : Bool → Int → Int → Except Error CoreObject
  /-- `realm_results_get` -/
  entry : Bool → Nat → Nat → Except Error ResultObject
  /-- The length of a result set, which is read when it is made and never again. -/
  count : Nat → Nat
  count_lt : ∀ r, count r < 2 ^ 63

/-- **Assumed of Realm Core**: every call on a closed realm fails. -/
structure CoreService.Refuses (service : CoreService) : Prop where
  numObjects : ∀ key, (service.tables true).numObjects key = .error .nativeError
  findAll : ∀ key, (service.tables true).findAll key = .error .nativeError
  object : ∀ tableKey objectKey, service.object true tableKey objectKey = .error .nativeError
  entry : ∀ r p, service.entry true r p = .error .nativeError

/-- The memory of a realm, and whether it is closed. -/
abbrev Session : Type := Memory × Bool

def Session.initial : Session := (Memory.initial, false)

/-! ## Algorithm -/

/-- `NativeRealm::close`, where `realm_close` gives `answer`. -/
def nativeClose (answer : Except Error Unit) : Bool → Except Error Unit × Bool
  | true => (.ok (), true)
  | false =>
    match answer with
    | .ok () => (.ok (), true)
    | .error e => (.error e, false)

/-- `Realm.close` -/
def closeRealm (answer : Except Error Unit) (closed : Bool) : Except Error Unit × Bool :=
  (translated (nativeClose answer closed).1, (nativeClose answer closed).2)

section
variable (decodeReplace : Bytes → PyStr) (service : CoreService)

def CoreService.schema : NativeSchema := loadSchema service.classes

/-- A result set, whose realm may be closed. -/
def CoreService.results (closed : Bool) (r : Nat) : NativeResults :=
  ⟨⟨.ok (service.count r), service.entry closed r⟩, service.count r⟩

/-- `NativeRealm::record` -/
def nativeRecord (closed : Bool) (tableKey objectKey : Int) : RawAnswer :=
  if service.takes tableKey objectKey then do
    let classMeta ← findClassByKey service.schema tableKey
    let object ← service.object closed tableKey objectKey
    objectToDict decodeReplace object classMeta.toClassMeta
  else .error .typeError

/-- The native answers. -/
def Served (closed : Bool) : (c : Command) → Except Error (Answer c) → Prop
  | .native (.record tableKey objectKey), answer =>
    answer = nativeRecord decodeReplace service closed tableKey objectKey
  | .native (.item r index), answer =>
    answer = nativeGet decodeReplace service.schema (service.results closed r) index
  | .nativeLen r, answer => answer = .ok (service.count r)
  | _, _ => True

/-- They leave the realm open or closed. -/
def served (closed : Bool) (c : Command) (answer : Except Error (Answer c)) (closed' : Bool) : Prop :=
  closed' = closed ∧ Served decodeReplace service closed c answer

/-- A command after any garbage collection, of an open or closed realm. -/
def sessionStep : Session → (c : Command) → Except Error (Answer c) → Session → Prop :=
  both step (served decodeReplace service)

/-- A command, of a realm that is open or closed. -/
def gatedStep (closed : Bool) (s : Memory) (c : Command) (answer : Except Error (Answer c))
    (t : Memory) : Prop :=
  step s c answer t ∧ Served decodeReplace service closed c answer

variable (parseDecimal : PyStr → Option PyStr)

/-- Operations return or raise, somebody closes the realm, callers drop records,
and the collector runs. -/
inductive Proceeds (s : Session) : Session → Prop
  | op (op : Op) (hop : op.Held s.1) {t : Session} {out : Except Error Output}
      (hr : Runs (sessionStep decodeReplace service) s (op.run parseDecimal) t out) : Proceeds s t
  | close (answer : Except Error Unit) : Proceeds s (s.1, (closeRealm answer s.2).2)
  | release (roots : List Nat) (hr : roots ⊆ s.1.heap.roots) :
      Proceeds s ({ s.1 with heap := s.1.heap.release roots }, s.2)
  | collect {heap : Heap (Int × Int) Record} (hc : Collects s.1.heap heap) :
      Proceeds s ({ s.1 with heap := heap }, s.2)

def Session.Reachable : Session → Prop :=
  Relation.ReflTransGen (Proceeds decodeReplace service parseDecimal) Session.initial

end

/-! ## Without a cache -/

/-- What an operation gives, its records named by their identities. -/
inductive View where
  | count (n : Nat)
  | record (identity : Int × Int)
  | records (identities : List (Int × Int))
  | yielded (identity : Int × Int) (rest : Generator)
  | reported (index : Nat) (error : Error) (rest : Generator)
  | stopped
  | value (v : Converted)

/-- The round of the loop that a generator is resumed for. -/
def Generator.round {α : Type} (g : Generator) (count : Nat) (body : Nat → Nat → α) : α :=
  match g.range with
  | none => body 0 count
  | some (index, stop) => body index stop

/-- `except RealmError as error` in `iter_valid` -/
def reporting (r index stop : Nat) : Except Error View → Except Error View
  | .error (.realmError reason) =>
    .ok (.reported index (.realmError reason) ⟨r, some (index + 1, stop)⟩)
  | view => view

section
variable (decodeReplace : Bytes → PyStr) (service : CoreService) (closed : Bool)

def gatedItem (r : Nat) (index : Int) : RawAnswer :=
  nativeGet decodeReplace service.schema (service.results closed r) index

/-- `results[index]` -/
def directItem (r : Nat) (index : Int) : Except Error (Int × Int) :=
  surface (gatedItem decodeReplace service closed r index)

/-- `results[start:stop:step]` -/
def directSlice (r : Nat) (start stop step : Option Int) : Except Error (List (Int × Int)) := do
  let bounds ← sliceIndices start stop step (service.count r)
  (rangeItems bounds).mapM (directItem decodeReplace service closed r)

/-- A round of `Results.__iter__`. -/
def directNext (r index stop : Nat) : Except Error View :=
  if index < stop then do
    let identity ← directItem decodeReplace service closed r index
    .ok (.yielded identity ⟨r, some (index + 1, stop)⟩)
  else .ok .stopped

/-- A round of `Results.iter_valid`. -/
def directNextValid (r index stop : Nat) : Except Error View :=
  reporting r index stop (directNext decodeReplace service closed r index stop)

/-- `_record(table_key, object_key)` -/
def directRecord (tableKey objectKey : Int) : Except Error (Int × Int) :=
  surface (nativeRecord decodeReplace service closed tableKey objectKey)

/-- A field of the object of this identity. -/
def directField (parseDecimal : PyStr → Option PyStr) (identity : Int × Int) (key : PyStr) :
    Except Error Converted := do
  let raw ← nativeRecord decodeReplace service closed identity.1 identity.2
  readField parseDecimal raw key

/-- **The reader without a cache**: every operation asks the native layer.  `identity`
is that of the record whose field is read. -/
def directRun (parseDecimal : PyStr → Option PyStr) (identity : Int × Int) : Op → Except Error View
  | .len r => .ok (.count (service.count r))
  | .index r index => (directItem decodeReplace service closed r index).map View.record
  | .slice r start stop step =>
    (directSlice decodeReplace service closed r start stop step).map View.records
  | .next g => g.round (service.count g.results)
    (directNext decodeReplace service closed g.results)
  | .nextValid g => g.round (service.count g.results)
    (directNextValid decodeReplace service closed g.results)
  | .getByKey tableKey objectKey =>
    (directRecord decodeReplace service closed tableKey objectKey).map View.record
  | .resolve tableKey objectKey =>
    (directRecord decodeReplace service closed tableKey objectKey).map View.record
  | .field _ key =>
    (directField decodeReplace service closed parseDecimal identity key).map View.value

end

/-- The records of an output have the identities of a view. -/
inductive Views (t : Memory) : Output → View → Prop
  | count (n : Nat) : Views t (.count n) (.count n)
  | record {r : Nat} {identity : Int × Int} (hy : Yields t r identity) :
      Views t (.record r) (.record identity)
  | records {rs : List Nat} {identities : List (Int × Int)}
      (hy : List.Forall₂ (Yields t) rs identities) : Views t (.records rs) (.records identities)
  | yielded {r : Nat} {identity : Int × Int} {rest : Generator} (hy : Yields t r identity) :
      Views t (.resumed (.yielded r rest)) (.yielded identity rest)
  | reported (index : Nat) (e : Error) (rest : Generator) :
      Views t (.resumed (.reported index e rest)) (.reported index e rest)
  | stopped : Views t (.resumed .stopped) .stopped
  | value (v : Converted) : Views t (.value v) (.value v)

/-- An operation ends as it would without a cache. -/
inductive Agrees (t : Memory) : Except Error Output → Except Error View → Prop
  | ok {output : Output} {view : View} (h : Views t output view) : Agrees t (.ok output) (.ok view)
  | error (e : Error) : Agrees t (.error e) (.error e)

/-- The operations of `Results`. -/
def Op.OfResults : Op → Prop
  | .getByKey _ _ => False
  | .resolve _ _ => False
  | .field _ _ => False
  | _ => True

/-! ## Runs -/

section
variable {decodeReplace : Bytes → PyStr} {service : CoreService}

/-- Every command can be answered. -/
theorem sessionStep_serial (s : Session) (c : Command) :
    ∃ answer t, sessionStep decodeReplace service s c answer t := by
  cases c with
  | native read =>
    cases read with
    | record t k => exact ⟨_, (_, s.2), ⟨_, .refl, rfl⟩, rfl, rfl⟩
    | item r index => exact ⟨_, (_, s.2), ⟨_, .refl, rfl⟩, rfl, rfl⟩
  | nativeLen r => exact ⟨_, (_, s.2), ⟨_, .refl, rfl⟩, rfl, rfl⟩
  | _ => exact ⟨_, (_, s.2), ⟨_, .refl, rfl, rfl⟩, rfl, trivial⟩

/-- A run of a realm that is open or closed; it stays so. -/
theorem gated_run {α : Type} {p : Action α} {s t : Session} {out : Except Error α}
    (h : Runs (sessionStep decodeReplace service) s p t out) :
    t.2 = s.2 ∧ Runs (gatedStep decodeReplace service s.2) s.1 p t.1 out := by
  have hstep : ∀ (v : Session) (u : Memory) c answer t,
      sessionStep decodeReplace service v c answer t → v.1 = u ∧ v.2 = s.2 →
        ∃ w, gatedStep decodeReplace service s.2 u c answer w ∧ t.1 = w ∧ t.2 = s.2 := by
    rintro v _ c answer t ⟨hmem, hclosed, hanswer⟩ ⟨rfl, hv⟩
    rw [hv] at hclosed hanswer
    exact ⟨t.1, ⟨hmem, hanswer⟩, rfl, hclosed⟩
  obtain ⟨w, hrun, rfl, ht⟩ := h.simulated hstep ⟨rfl, rfl⟩
  exact ⟨ht, hrun⟩

theorem gatedStep_serving {closed : Bool} (r : Nat) (s : Memory) (c : Command)
    (answer : Except Error (Answer c)) (t : Memory)
    (h : gatedStep decodeReplace service closed s c answer t) :
    serving r (service.count r) (gatedItem decodeReplace service closed r) s c answer t := by
  refine ⟨h.1, ?_⟩
  cases c with
  | native read =>
    cases read with
    | record tableKey objectKey => exact trivial
    | item r' index =>
      rintro rfl
      exact h.2
  | nativeLen r' =>
    rintro rfl
    exact h.2
  | _ => exact trivial

variable {parseDecimal : PyStr → Option PyStr}

theorem Proceeds.inv {s t : Session} (h : Proceeds decodeReplace service parseDecimal s t)
    (hs : Inv parseDecimal s.1) : Inv parseDecimal t.1 := by
  cases h with
  | op op hop hr => exact (hs.law hop ((gated_run hr).2.mono fun _ _ _ _ hstep => hstep.1)).1
  | close answer => exact hs
  | release roots hr => exact ⟨hs.interned.release hr, hs.sound⟩
  | collect hc => exact (hs.start.shrunk hc.shrunk).inv

theorem Session.Reachable.inv {s : Session}
    (h : Session.Reachable decodeReplace service parseDecimal s) : Inv parseDecimal s.1 := by
  induction h with
  | refl => exact inv_initial parseDecimal
  | tail _ hm ih => exact hm.inv ih

end

/-! ## Result sets -/

section
variable {decodeReplace : Bytes → PyStr} {service : CoreService} {closed : Bool}
  {parseDecimal : PyStr → Option PyStr} {s : Memory}

theorem wp_directItem (hs : Inv parseDecimal s) (r : Nat) (index : Int) :
    wp (serving r (service.count r) (gatedItem decodeReplace service closed r))
      (getItem r index)
      (fun r' t => ∃ identity, directItem decodeReplace service closed r index = .ok identity ∧
        Yields t r' identity)
      (fun e _ => directItem decodeReplace service closed r index = .error e) s :=
  wp_mono (wp_getItem hs index) (fun _ _ h => h.2) fun _ _ h => h.2

/-- Reading several entries stops at the first that fails. -/
theorem wp_directItems (hs : Inv parseDecimal s) (r : Nat) (indices : List Int) :
    wp (serving r (service.count r) (gatedItem decodeReplace service closed r))
      (readItems r indices)
      (fun rs t => (∃ new, Stage parseDecimal s new none t) ∧ ∃ identities,
        indices.mapM (directItem decodeReplace service closed r) = .ok identities ∧
        List.Forall₂ (Yields t) rs identities)
      (fun e _ =>
        indices.mapM (directItem decodeReplace service closed r) = .error (translate e)) s := by
  induction indices generalizing s with
  | nil => exact ⟨⟨[], hs.start⟩, [], rfl, .nil⟩
  | cons index indices ih =>
    rw [readItems, wp_bind, List.mapM_cons]
    refine wp_mono (wp_readItem hs index) ?_ ?_
    · rintro r' t ⟨ht, identity, hid, hy⟩
      rw [directItem, hid, ok_bind, wp_bind]
      refine wp_mono (ih ht.inv) ?_ ?_
      · rintro rs u ⟨⟨new, hu⟩, identities, hids, hys⟩
        rw [hids]
        exact ⟨⟨_, ht.trans hu⟩, identity :: identities, rfl, .cons (hy.kept hu.kept) hys⟩
      · intro e u he
        rw [he]
        exact rfl
    · rintro e t ⟨-, he⟩
      rw [directItem, he]
      exact rfl

theorem wp_directSlice (hs : Inv parseDecimal s) (r : Nat) (start stop step : Option Int) :
    wp (serving r (service.count r) (gatedItem decodeReplace service closed r))
      (getSlice r start stop step)
      (fun rs t => ∃ identities,
        directSlice decodeReplace service closed r start stop step = .ok identities ∧
        List.Forall₂ (Yields t) rs identities)
      (fun e _ => directSlice decodeReplace service closed r start stop step = .error e) s := by
  rw [getSlice, withNativeErrors, wp_tryCatch, wp_bind]
  refine wp_len hs fun t ht => ?_
  rw [directSlice]
  by_cases hstep : step = some 0
  · rw [hstep, sliceIndices_zero]
    exact rfl
  · obtain ⟨bounds, hbounds, -⟩ := rangeItems_slice (n := service.count r) hstep
    rw [hbounds, ok_bind]
    show wp _ (readItems r (rangeItems bounds)) _ _ t
    exact wp_mono (wp_directItems ht.inv r (rangeItems bounds)) (fun _ _ h => h.2) fun _ _ => id

theorem wp_directNext (hs : Inv parseDecimal s) (r index stop : Nat) :
    wp (serving r (service.count r) (gatedItem decodeReplace service closed r))
      (advance r index stop)
      (fun state t => Agrees t (.ok (.resumed state))
        (directNext decodeReplace service closed r index stop))
      (fun e t => Agrees t (.error e) (directNext decodeReplace service closed r index stop)) s := by
  unfold advance directNext
  split
  · rw [wp_bind]
    refine wp_mono (wp_directItem hs r index) ?_ ?_
    · rintro r' t ⟨identity, hid, hy⟩
      rw [hid]
      exact .ok (.yielded hy)
    · intro e t he
      rw [he]
      exact .error e
  · exact .ok .stopped

theorem wp_directNextValid (hs : Inv parseDecimal s) (r index stop : Nat) :
    wp (serving r (service.count r) (gatedItem decodeReplace service closed r))
      (advanceValid r index stop)
      (fun state t => Agrees t (.ok (.resumed state))
        (directNextValid decodeReplace service closed r index stop))
      (fun e t => Agrees t (.error e)
        (directNextValid decodeReplace service closed r index stop)) s := by
  rw [advanceValid, wp_tryCatch]
  unfold directNextValid
  refine wp_mono (wp_directNext hs r index stop) ?_ ?_
  · intro state t h
    generalize directNext decodeReplace service closed r index stop = next at h
    cases h with
    | ok h => exact .ok h
  · intro e t h
    generalize directNext decodeReplace service closed r index stop = next at h
    cases h with
    | error e =>
      cases e with
      | realmError reason => exact .ok (.reported index _ _)
      | _ => exact .error _

/-- A generator is resumed where it stands. -/
theorem wp_directRound (hs : Inv parseDecimal s) {body : Nat → Nat → Nat → Action Resumed}
    (g : Generator) {direct : Nat → Nat → Except Error View}
    (hbody : ∀ t index stop, Inv parseDecimal t →
      wp (serving g.results (service.count g.results)
          (gatedItem decodeReplace service closed g.results))
        (body g.results index stop)
        (fun state u => Agrees u (.ok (.resumed state)) (direct index stop))
        (fun e u => Agrees u (.error e) (direct index stop)) t) :
    wp (serving g.results (service.count g.results)
        (gatedItem decodeReplace service closed g.results))
      (resume body g)
      (fun state t =>
        Agrees t (.ok (.resumed state)) (g.round (service.count g.results) direct))
      (fun e t => Agrees t (.error e) (g.round (service.count g.results) direct)) s := by
  obtain ⟨r, range⟩ := g
  cases range with
  | none =>
    rw [resume, wp_bind]
    exact wp_len hs fun t ht => hbody t 0 _ ht.inv
  | some range => exact hbody s range.1 range.2 hs

/-- **On result sets, every operation ends as it would without a cache**, whether
the realm is open or closed. -/
theorem agrees_of_run (hs : Inv parseDecimal s) {op : Op} (hop : op.OfResults) {t : Memory}
    {out : Except Error Output}
    (h : Runs (gatedStep decodeReplace service closed) s (op.run parseDecimal) t out)
    (identity : Int × Int) :
    Agrees t out (directRun decodeReplace service closed parseDecimal identity op) := by
  cases op with
  | len r =>
    apply (h.mono (gatedStep_serving r)).of_wp
    rw [Op.run, wp_bind]
    exact wp_len hs fun _ _ => .ok (.count _)
  | index r index =>
    apply (h.mono (gatedStep_serving r)).of_wp
    rw [Op.run, wp_bind, directRun]
    refine wp_mono (wp_directItem hs r index) ?_ ?_
    · rintro r' t ⟨identity, hid, hy⟩
      rw [hid]
      exact .ok (.record hy)
    · intro e t he
      rw [he]
      exact .error e
  | slice r start stop step =>
    apply (h.mono (gatedStep_serving r)).of_wp
    rw [Op.run, wp_bind, directRun]
    refine wp_mono (wp_directSlice hs r start stop step) ?_ ?_
    · rintro rs t ⟨identities, hids, hys⟩
      rw [hids]
      exact .ok (.records hys)
    · intro e t he
      rw [he]
      exact .error e
  | next g =>
    apply (h.mono (gatedStep_serving g.results)).of_wp
    rw [Op.run, wp_bind]
    exact wp_directRound hs g fun t index stop ht => wp_directNext ht g.results index stop
  | nextValid g =>
    apply (h.mono (gatedStep_serving g.results)).of_wp
    rw [Op.run, wp_bind]
    exact wp_directRound hs g fun t index stop ht => wp_directNextValid ht g.results index stop
  | getByKey tableKey objectKey => exact hop.elim
  | resolve tableKey objectKey => exact hop.elim
  | field r key => exact hop.elim

/-! ## Records by key -/

/-- What the native layer answers when a record is looked up. -/
theorem record_answers (s : Memory) (tableKey objectKey : Int) :
    wp (gatedStep decodeReplace service closed) (record tableKey objectKey)
      (fun _ t => t.answers = s.answers ∨
        t.answers = s.answers ++ [nativeRecord decodeReplace service closed tableKey objectKey])
      (fun _ t =>
        t.answers = s.answers ++ [nativeRecord decodeReplace service closed tableKey objectKey])
      s := by
  rw [record, wp_bind, ask, wp_perform]
  constructor
  · rintro cached t ⟨⟨heap, -, -, rfl⟩, -⟩
    cases cached with
    | some r => exact Or.inl rfl
    | none =>
      show wp _ (withNativeErrors _ >>= _) _ _ _
      rw [wp_bind, withNativeErrors, wp_tryCatch, ask, wp_perform]
      constructor
      · rintro raw u ⟨⟨heap', -, hu⟩, hserved⟩
        cases hu
        have hraw : .ok raw = nativeRecord decodeReplace service closed tableKey objectKey := hserved
        rw [← hraw]
        refine wp_mono (wp_of_only (fun _ _ _ _ hc hstep => silent_answers _ _ _ _ hc hstep.1)
          (recordFromRaw_silent raw) rfl) (fun _ _ h => Or.inr h) fun _ _ => id
      · rintro e u ⟨⟨heap', -, hu⟩, hserved⟩
        cases hu
        have he : .error e = nativeRecord decodeReplace service closed tableKey objectKey := hserved
        rw [← he]
        exact rfl
  · rintro e t ⟨⟨heap, -, he, -⟩, -⟩
    cases he

/-- The record in memory of this identity, or the one that the native layer gives. -/
theorem wp_directRecord (hs : Inv parseDecimal s) (tableKey objectKey : Int) :
    wp (gatedStep decodeReplace service closed) (record tableKey objectKey)
      (fun r t => Yields t r (tableKey, objectKey) ∨ ∃ identity,
        directRecord decodeReplace service closed tableKey objectKey = .ok identity ∧
        Yields t r identity)
      (fun e _ => (∀ r, ¬ Yields s r (tableKey, objectKey)) ∧
        directRecord decodeReplace service closed tableKey objectKey = .error e) s := by
  have hfound : wp step (record tableKey objectKey)
      (fun r t => Yields t r (tableKey, objectKey) ∨ ∃ raw identity,
        recordIdentity raw = .ok identity ∧ t.answers = s.answers ++ [.ok raw] ∧
        Yields t r identity)
      (fun e t => (∀ r, ¬ Yields s r (tableKey, objectKey)) ∧
        ∃ answer, surface answer = .error e ∧ t.answers = s.answers ++ [answer]) s :=
    hs.start.wp_record tableKey objectKey (fun r t _ hy => Or.inl hy)
      (fun _ raw identity _ _ hi ht hy => Or.inr ⟨raw, identity, hi, ht.answers, hy⟩)
      fun hno answer _ _ ha ht => ⟨hno, answer, ha, ht.answers⟩
  have hstep : ∀ u c answer v, gatedStep decodeReplace service closed u c answer v →
      step u c answer v := fun _ _ _ _ h => h.1
  have hrefined := wp_of_refined hstep hfound
  refine wp_mono (wp_and hrefined (record_answers s tableKey objectKey)) ?_ ?_
  · rintro r t ⟨hy | ⟨raw, identity, hi, ht, hy⟩, hanswers⟩
    · exact Or.inl hy
    · refine Or.inr ⟨identity, ?_, hy⟩
      rw [ht] at hanswers
      rcases hanswers with hsame | hsame
      · exact absurd (List.append_right_eq_self.mp hsame) (List.cons_ne_nil _ _)
      · rw [directRecord, ← List.singleton_injective (List.append_cancel_left hsame)]
        exact hi
  · rintro e t ⟨⟨hno, answer, ha, ht⟩, hanswers⟩
    rw [ht] at hanswers
    rw [directRecord, ← List.singleton_injective (List.append_cancel_left hanswers)]
    exact ⟨hno, ha⟩

end

end Pyrealm.Reader
