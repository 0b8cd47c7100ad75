import Pyrealm.Pool.Indexes
import Pyrealm.Reader.Cache

/-!
# Operations on one `Realm`

`Results.__getitem__`, `__iter__`, `iter_valid`, `Table.get_by_key`,
`RealmLink.resolve` and field reads, in any order, with records dropped and
collected in between.

* `reachable_inv`: the cache invariant holds between any two operations.
* `one_record_per_identity`: what every operation does in every history.
-/

namespace Pyrealm.Reader

open Py Effects Indexes Interning

/-! ## Algorithm -/

/-- `slice(start, stop, step).indices(length)` -/
def sliceIndices (start stop step : Option Int) (length : Nat) : Except Error (Int × Int × Int) :=
  let step := step.getD 1
  let lower : Int := if step < 0 then -1 else 0
  let upper : Int := if step < 0 then length - 1 else length
  let clamp := fun index : Int => if index < 0 then max (index + length) lower else min index upper
  if step = 0 then .error .valueError
  else
    .ok (start.elim (if step < 0 then upper else lower) clamp,
      stop.elim (if step < 0 then lower else upper) clamp, step)

/-- `range(start, stop, step)` -/
def rangeItems (bounds : Int × Int × Int) : List Int :=
  let (start, stop, step) := bounds
  let count := if 0 < step then (stop - start + step - 1) / step else (start - stop - step - 1) / -step
  (List.range count.toNat).map fun i => start + step * i

/-- `Results.__len__` -/
def len (results : Nat) : Action Nat := withNativeErrors (ask (.nativeLen results))

/-- `self._realm._record_from_raw(self._native[index])` -/
def readItem (results : Nat) (index : Int) : Action Nat := do
  let raw ← ask (.native (.item results index))
  recordFromRaw raw

def readItems (results : Nat) : List Int → Action (List Nat)
  | [] => pure []
  | index :: indices => do
    let r ← readItem results index
    let rs ← readItems results indices
    pure (r :: rs)

/-- `Results.__getitem__` of an index. -/
def getItem (results : Nat) (index : Int) : Action Nat := withNativeErrors (readItem results index)

/-- `Results.__getitem__` of a slice. -/
def getSlice (results : Nat) (start stop step : Option Int) : Action (List Nat) :=
  withNativeErrors do
    let count ← len results
    let bounds ← Prog.done (sliceIndices start stop step count)
    readItems results (rangeItems bounds)

/-- A running `Results.__iter__` or `iter_valid`.  The range is made by the first
`next`; from then on it is the next index and the count. -/
structure Generator where
  results : Nat
  range : Option (Nat × Nat)

/-- Where a generator gives control back. -/
inductive Resumed where
  | yielded (r : Nat) (rest : Generator)
  /-- `iter_valid` calls `on_error(index, error)`, or warns. -/
  | reported (index : Nat) (error : Error) (rest : Generator)
  | stopped

def resume (body : Nat → Nat → Nat → Action Resumed) (g : Generator) : Action Resumed :=
  match g.range with
  | none => do
    let count ← len g.results
    body g.results 0 count
  | some (index, count) => body g.results index count

/-- One round of the loop of `Results.__iter__`. -/
def advance (results index count : Nat) : Action Resumed :=
  if index < count then do
    let r ← getItem results index
    pure (.yielded r ⟨results, some (index + 1, count)⟩)
  else pure .stopped

/-- `except RealmError as error` in `iter_valid` -/
def report (results index count : Nat) : Error → Action Resumed
  | .realmError reason => pure (.reported index (.realmError reason) ⟨results, some (index + 1, count)⟩)
  | e => Prog.raise e

/-- One round of the loop of `Results.iter_valid`. -/
def advanceValid (results index count : Nat) : Action Resumed :=
  Prog.tryCatch (report results index count) (advance results index count)

/-- The public operations. -/
inductive Op where
  | len (results : Nat)
  | index (results : Nat) (index : Int)
  | slice (results : Nat) (start stop step : Option Int)
  | next (g : Generator)
  | nextValid (g : Generator)
  | getByKey (tableKey objectKey : Int)
  | resolve (tableKey objectKey : Int)
  | field (r : Nat) (key : PyStr)

inductive Output where
  | count (n : Nat)
  | record (r : Nat)
  | records (rs : List Nat)
  | resumed (state : Resumed)
  | value (v : Converted)

section
variable (parseDecimal : PyStr → Option PyStr)

def Op.run : Op → Action Output
  | .len results => do
    let n ← Reader.len results
    pure (.count n)
  | .index results i => do
    let r ← getItem results i
    pure (.record r)
  | .slice results start stop step => do
    let rs ← getSlice results start stop step
    pure (.records rs)
  | .next g => do
    let state ← resume advance g
    pure (.resumed state)
  | .nextValid g => do
    let state ← resume advanceValid g
    pure (.resumed state)
  | .getByKey tableKey objectKey => do
    let r ← record tableKey objectKey
    pure (.record r)
  | .resolve tableKey objectKey => do
    let r ← record tableKey objectKey
    pure (.record r)
  | .field r key => do
    let v ← getField parseDecimal r key
    pure (.value v)

end

/-! ## Histories -/

/-- The caller holds the record whose field it reads. -/
def Op.Held (s : Memory) : Op → Prop
  | .field r _ => r ∈ s.heap.roots
  | _ => True

section
variable (parseDecimal : PyStr → Option PyStr)

/-- Operations return or raise, callers drop records, and the collector runs. -/
inductive Moves (s : Memory) : Memory → Prop
  | op (op : Op) (hop : op.Held s) {t : Memory} {out : Except Error Output}
      (hr : Runs step s (op.run parseDecimal) t out) : Moves s t
  | release (roots : List Nat) (hr : roots ⊆ s.heap.roots) :
      Moves s { s with heap := s.heap.release roots }
  | collect {heap : Heap (Int × Int) Record} (hc : Collects s.heap heap) :
      Moves s { s with heap := heap }

/-- The states any history of one realm leads to. -/
def Reachable : Memory → Prop := Relation.ReflTransGen (Moves parseDecimal) Memory.initial

end

/-! ## What operations do -/

def Output.yielded : Output → List Nat
  | .record r => [r]
  | .records rs => rs
  | .resumed (.yielded r _) => [r]
  | _ => []

/-- The exception reaches the caller, raised or reported. -/
def Surfaced (out : Except Error Output) (e : Error) : Prop :=
  out = .error e ∨ ∃ index rest, out = .ok (.resumed (.reported index e rest))

/-- The raw dictionary names its object. -/
def Names (raw : Dict PyStr Value) (identity : Int × Int) : Prop :=
  raw.get? TABLE_KEY = some (.int identity.1) ∧ raw.get? OBJECT_KEY = some (.int identity.2)

/-- A `NativeError`, or missing or malformed metadata. -/
def Broken : RawAnswer → Prop
  | .ok raw => ∀ identity, ¬ Names raw identity
  | .error e => e = .nativeError

/-- The native layer answers `rawOf identity` for the object of this identity. -/
def Stable (rawOf : Int × Int → Dict PyStr Value) (answers : List RawAnswer) : Prop :=
  ∀ raw identity, .ok raw ∈ answers → Names raw identity → raw = rawOf identity

/-- The keys that a record is looked up by. -/
def Op.key : Op → Option (Int × Int)
  | .getByKey tableKey objectKey => some (tableKey, objectKey)
  | .resolve tableKey objectKey => some (tableKey, objectKey)
  | _ => none

/-- The record is that of the object which the native layer named. -/
def NamedBy (t : Memory) (r : Nat) (answer : RawAnswer) : Prop :=
  ∃ raw identity, answer = .ok raw ∧ Names raw identity ∧ Yields t r identity

/-- The records are those that the native answers name, one for each and in order, or
the one that was asked for by its keys and is in memory. -/
def Delivers (op : Op) (t : Memory) (rs : List Nat) (answers : List RawAnswer) : Prop :=
  List.Forall₂ (NamedBy t) rs answers ∨
    ∃ r identity, rs = [r] ∧ answers = [] ∧ op.key = some identity ∧ Yields t r identity

/-- All operations but slicing read at most one element. -/
def Op.ReadsOne : Op → Prop
  | .slice _ _ _ _ => False
  | _ => True

/-- What an operation from `s` to `t` does, the native layer having answered `new`. -/
structure OperationLaw (parseDecimal : PyStr → Option PyStr) (s : Memory) (op : Op) (t : Memory)
    (out : Except Error Output) (new : List RawAnswer) : Prop where
  answers : t.answers = s.answers ++ new
  /-- A yielded record is held and alive, and there is no other of its identity. -/
  yields : ∀ output, out = .ok output → ∀ r ∈ output.yielded, ∃ identity, Yields t r identity ∧
    ∀ r' record, t.heap.live r' = some record → record.identity = identity → r' = r
  /-- It is the record of the object that the native layer named, or that was asked for. -/
  named : ∀ output, out = .ok output → output.yielded ≠ [] → Delivers op t output.yielded new
  /-- A record held before stays, and is the one that is yielded for its identity. -/
  held : ∀ r ∈ s.heap.roots, ∃ identity, Yields s r identity ∧ Yields t r identity ∧
    ∀ output, out = .ok output → ∀ r' ∈ output.yielded, Yields t r' identity → r' = r
  /-- A record held before is found by its key, whatever the native layer would say. -/
  cached : ∀ tableKey objectKey, op = .getByKey tableKey objectKey ∨ op = .resolve tableKey objectKey →
    ∀ r, Yields s r (tableKey, objectKey) → out = .ok (.record r) ∧ new = []
  /-- The cache gains entries for good answers only. -/
  added : ∀ identity r, t.heap.table.get? identity = some r →
    s.heap.table.get? identity = some r ∨ ∃ raw, .ok raw ∈ new ∧ Names raw identity
  /-- A failed element read surfaces as `RealmError`; -/
  failed : ∀ answer ∈ new, Broken answer → ∃ reason, Surfaced out (.realmError reason)
  /-- never as `NativeError`; -/
  safe : ¬ Surfaced out .nativeError
  /-- and adds nothing to the cache. -/
  silent : op.ReadsOne → ∀ e, Surfaced out e → ∀ identity r,
    t.heap.table.get? identity = some r → s.heap.table.get? identity = some r
  /-- A field reads as the conversion of its object's raw value. -/
  field : ∀ r key, op = .field r key → ∀ rawOf, Stable rawOf t.answers →
    ∀ record, s.heap.live r = some record →
      out = (readField parseDecimal (rawOf record.identity) key).map Output.value

theorem recordIdentity_eq_ok (raw : Dict PyStr Value) (identity : Int × Int) :
    recordIdentity raw = .ok identity ↔ Names raw identity :=
  recordIdentity_eq_ok_iff raw identity.1 identity.2

theorem Names.inj {raw : Dict PyStr Value} {id id' : Int × Int} (h : Names raw id)
    (h' : Names raw id') : id = id' := by
  have h1 := (recordIdentity_eq_ok raw id).mpr h
  rw [(recordIdentity_eq_ok raw id').mpr h'] at h1
  exact (Except.ok.inj h1).symm

theorem surface_of_broken {answer : RawAnswer} (h : Broken answer) :
    ∃ reason, surface answer = .error (.realmError reason) := by
  cases answer with
  | error e =>
    change e = .nativeError at h
    subst h
    exact ⟨_, rfl⟩
  | ok raw =>
    show ∃ reason, recordIdentity raw = .error (.realmError reason)
    cases hi : recordIdentity raw with
    | ok identity => exact absurd ((recordIdentity_eq_ok raw identity).mp hi) (h identity)
    | error e =>
      obtain ⟨reason, rfl⟩ := recordIdentity_error hi
      exact ⟨reason, rfl⟩

theorem surface_eq_ok {answer : RawAnswer} {identity : Int × Int}
    (h : surface answer = .ok identity) : ∃ raw, answer = .ok raw ∧ Names raw identity := by
  cases answer with
  | error e => cases h
  | ok raw => exact ⟨raw, rfl, (recordIdentity_eq_ok raw identity).mp h⟩

theorem namedBy_of_surface {t : Memory} {r : Nat} {answer : RawAnswer} {identity : Int × Int}
    (h : surface answer = .ok identity) (hy : Yields t r identity) : NamedBy t r answer := by
  obtain ⟨raw, rfl, hn⟩ := surface_eq_ok h
  exact ⟨raw, identity, rfl, hn, hy⟩

theorem delivers_answer {op : Op} {t : Memory} {r : Nat} {answer : RawAnswer}
    {identity : Int × Int} (h : surface answer = .ok identity) (hy : Yields t r identity) :
    Delivers op t [r] [answer] := Or.inl (.cons (namedBy_of_surface h hy) .nil)

theorem Delivers.yields {op : Op} {t : Memory} {rs : List Nat} {answers : List RawAnswer}
    (h : Delivers op t rs answers) : ∀ r ∈ rs, ∃ identity, Yields t r identity := by
  rcases h with h | ⟨r, identity, rfl, -, -, hy⟩
  · intro r hr
    obtain ⟨_, -, _, identity, -, -, hy⟩ := forall₂_mem_left h hr
    exact ⟨identity, hy⟩
  · exact List.forall_mem_singleton.mpr ⟨identity, hy⟩

/-! ## Element reads -/

section
variable {parseDecimal : PyStr → Option PyStr} {s₀ s : Memory} {new : List RawAnswer}

theorem Stage.wp_readItem (h : Stage parseDecimal s₀ new none s) (results : Nat) (index : Int)
    {post : Nat → Memory → Prop} {exn : Error → Memory → Prop}
    (hpost : ∀ answer identity r t, surface answer = .ok identity →
      Stage parseDecimal s₀ (new ++ [answer]) none t → Yields t r identity → post r t)
    (hexn : ∀ answer e t, surface answer = .error (translate e) →
      Stage parseDecimal s₀ (new ++ [answer]) none t → exn e t) :
    wp step (readItem results index) post exn s := by
  rw [readItem, wp_bind]
  refine h.wp_native _ (fun raw t ht => ?_) fun e t ht => hexn (.error e) e t rfl ht
  refine ht.wp_recordFromRaw (List.mem_append_right _ (List.mem_singleton_self _))
    (fun identity r t' hi ht' hy => hpost (.ok raw) identity r t' hi ht' hy) fun e he => ?_
  refine hexn (.ok raw) e t ?_ ht
  rw [translate_of_recordIdentity he]
  exact he

/-- Reading one element: the live record of the identity that the native layer
answers, or the exception its answer surfaces as. -/
theorem Stage.wp_getItem (h : Stage parseDecimal s₀ new none s) (results : Nat) (index : Int)
    {post : Nat → Memory → Prop} {exn : Error → Memory → Prop}
    (hpost : ∀ answer identity r t, surface answer = .ok identity →
      Stage parseDecimal s₀ (new ++ [answer]) none t → Yields t r identity → post r t)
    (hexn : ∀ answer e t, surface answer = .error e → Stage parseDecimal s₀ (new ++ [answer]) none t →
      exn e t) :
    wp step (getItem results index) post exn s := by
  rw [getItem, withNativeErrors, wp_tryCatch]
  exact h.wp_readItem results index hpost fun answer e t he ht => hexn answer (translate e) t he ht

theorem Stage.wp_len (h : Stage parseDecimal s₀ new none s) (results : Nat)
    {post : Nat → Memory → Prop} {exn : Error → Memory → Prop}
    (hpost : ∀ n t, Stage parseDecimal s₀ new none t → post n t)
    (hexn : ∀ e t, e ≠ .nativeError → Stage parseDecimal s₀ new none t → exn e t) :
    wp step (len results) post exn s := by
  rw [len, withNativeErrors, wp_tryCatch]
  refine h.wp_ask fun heap _ hstage answer t he => ?_
  cases he
  cases answer with
  | ok n => exact hpost n _ hstage
  | error e => exact hexn (translate e) _ (translate_ne_nativeError e) hstage

end

/-- The answers to element reads that went well. -/
def AllGood (answers : List RawAnswer) : Prop := ∀ answer ∈ answers, ∃ identity, surface answer = .ok identity

theorem allGood_nil : AllGood [] := List.forall_mem_nil _

theorem allGood_singleton {answer : RawAnswer} {identity : Int × Int}
    (h : surface answer = .ok identity) : AllGood [answer] :=
  List.forall_mem_singleton.mpr ⟨identity, h⟩

section
variable {parseDecimal : PyStr → Option PyStr} {s : Memory}

/-- A loop of element reads stops at the first that fails. -/
theorem wp_readItems (h : Inv parseDecimal s) (results : Nat) (indices : List Int) :
    wp step (readItems results indices)
      (fun rs t => ∃ good, AllGood good ∧ Stage parseDecimal s good none t ∧
        List.Forall₂ (NamedBy t) rs good)
      (fun e t => ∃ good bad, AllGood good ∧ surface bad = .error (translate e) ∧
        Stage parseDecimal s (good ++ [bad]) none t) s := by
  induction indices generalizing s with
  | nil => exact ⟨[], allGood_nil, h.start, .nil⟩
  | cons index indices ih =>
    rw [readItems, wp_bind]
    refine h.start.wp_readItem results index (fun answer identity r t ha ht hy => ?_)
      fun answer e t ha ht => ⟨[], answer, allGood_nil, ha, ht⟩
    have hgood : ∀ good, AllGood good → AllGood ([] ++ [answer] ++ good) := by
      intro good hg
      rw [List.nil_append, List.singleton_append]
      exact List.forall_mem_cons.mpr ⟨⟨identity, ha⟩, hg⟩
    rw [wp_bind]
    refine wp_mono (ih ht.inv) ?_ ?_
    · rintro rs t' ⟨good, hg, ht', hrs⟩
      refine ⟨_, hgood good hg, ht.trans ht', ?_⟩
      exact .cons (namedBy_of_surface ha (hy.kept ht'.kept)) hrs
    · rintro e t' ⟨good, bad, hg, hb, ht'⟩
      refine ⟨_, bad, hgood good hg, hb, ?_⟩
      rw [List.append_assoc _ good]
      exact ht.trans ht'

/-! ## Whole operations -/

/-- How an operation from `s` ends, the native layer having answered `new`. -/
inductive Ended (parseDecimal : PyStr → Option PyStr) (s : Memory) (op : Op) (t : Memory) :
    Except Error Output → List RawAnswer → Prop
  | good {output : Output} {good : List RawAnswer} (hgood : AllGood good)
      (hs : Stage parseDecimal s good none t)
      (hy : Delivers op t output.yielded good)
      (hq : ∀ e, ¬ Surfaced (.ok output) e) : Ended parseDecimal s op t (.ok output) good
  | bad {out : Except Error Output} {good : List RawAnswer} {bad : RawAnswer} {e : Error}
      (hgood : AllGood good) (hbad : surface bad = .error e)
      (hs : Stage parseDecimal s (good ++ [bad]) none t) (ho : ∀ e', Surfaced out e' ↔ e' = e)
      (hy : ∀ output, out = .ok output → output.yielded = []) (hone : op.ReadsOne → good = []) :
      Ended parseDecimal s op t out (good ++ [bad])
  | other {e : Error} (he : e ≠ .nativeError) (hs : Stage parseDecimal s [] none t) :
      Ended parseDecimal s op t (.error e) []

theorem surfaced_error (e e' : Error) : Surfaced (.error e) e' ↔ e' = e := by
  constructor
  · rintro (h | ⟨index, rest, h⟩)
    · exact (Except.error.inj h).symm
    · cases h
  · rintro rfl
    exact Or.inl rfl

theorem surfaced_reported (index : Nat) (e e' : Error) (rest : Generator) :
    Surfaced (.ok (.resumed (.reported index e rest))) e' ↔ e' = e := by
  constructor
  · rintro (h | ⟨index', rest', h⟩)
    · cases h
    · cases h
      rfl
  · rintro rfl
    exact Or.inr ⟨index, rest, rfl⟩

theorem not_surfaced {output : Output} (h : ∀ index e rest, output ≠ .resumed (.reported index e rest))
    (e : Error) : ¬ Surfaced (.ok output) e := by
  rintro (h' | ⟨index, rest, h'⟩)
  · cases h'
  · exact h index e rest (Except.ok.inj h')

/-- One element read, raised. -/
theorem ended_raised {op : Op} {t : Memory} {answer : RawAnswer} {e : Error}
    (ha : surface answer = .error e) (ht : Stage parseDecimal s [answer] none t) :
    Ended parseDecimal s op t (.error e) [answer] := by
  show Ended parseDecimal s op t (.error e) ([] ++ [answer])
  refine .bad allGood_nil ha ht (surfaced_error e) ?_ fun _ => rfl
  rintro output ⟨⟩

theorem ended_yielded {op : Op} {t : Memory} {output : Output} {good : List RawAnswer} {r : Nat}
    (hgood : AllGood good) (ht : Stage parseDecimal s good none t) (hy : Delivers op t [r] good)
    (hr : output.yielded = [r])
    (hq : ∀ index e rest, output ≠ .resumed (.reported index e rest)) :
    Ended parseDecimal s op t (.ok output) good :=
  .good hgood ht (hr ▸ hy) (not_surfaced hq)

/-- An operation that read no element. -/
theorem ended_quiet {op : Op} {t : Memory} {output : Output} (ht : Stage parseDecimal s [] none t)
    (hr : output.yielded = []) (hq : ∀ index e rest, output ≠ .resumed (.reported index e rest)) :
    Ended parseDecimal s op t (.ok output) [] :=
  .good allGood_nil ht (Or.inl (hr ▸ .nil)) (not_surfaced hq)

/-- How an operation that ran from `s` may end. -/
def Concludes (parseDecimal : PyStr → Option PyStr) (s : Memory) (op : Op) (t : Memory)
    (out : Except Error Output) : Prop := ∃ new, Ended parseDecimal s op t out new

theorem advance_spec {op : Op} {s' : Memory} (h : Stage parseDecimal s [] none s')
    (results index count : Nat) :
    wp step (advance results index count)
      (fun state t => Concludes parseDecimal s op t (.ok (.resumed state)))
      (fun e t => ∃ answer, surface answer = .error e ∧ Stage parseDecimal s [answer] none t) s' := by
  unfold advance
  split
  · rw [wp_bind]
    refine h.wp_getItem results index (fun answer identity r t ha ht hy => ?_)
      fun answer e t ha ht => ⟨answer, ha, ht⟩
    exact ⟨_, ended_yielded (allGood_singleton ha) ht (delivers_answer ha hy) rfl
      (by rintro _ _ _ ⟨⟩)⟩
  · exact ⟨[], ended_quiet h rfl (by rintro _ _ _ ⟨⟩)⟩

theorem advanceValid_spec {op : Op} {s' : Memory} (h : Stage parseDecimal s [] none s')
    (results index count : Nat) :
    wp step (advanceValid results index count)
      (fun state t => Concludes parseDecimal s op t (.ok (.resumed state)))
      (fun e t => Concludes parseDecimal s op t (.error e)) s' := by
  rw [advanceValid, wp_tryCatch]
  refine wp_mono (advance_spec h results index count) (fun _ _ => id) ?_
  rintro e t ⟨answer, ha, ht⟩
  cases e with
  | realmError reason =>
    refine ⟨[] ++ [answer], .bad allGood_nil ha ht (surfaced_reported _ _ · _) ?_ fun _ => rfl⟩
    rintro _ ⟨⟩
    rfl
  | _ => exact ⟨_, ended_raised ha ht⟩

theorem resume_spec {op : Op} {body : Nat → Nat → Nat → Action Resumed}
    (hbody : ∀ s', Stage parseDecimal s [] none s' → ∀ results index count,
      wp step (body results index count)
        (fun state t => Concludes parseDecimal s op t (.ok (.resumed state)))
        (fun e t => Concludes parseDecimal s op t (.error e)) s')
    (h : Inv parseDecimal s) (g : Generator) :
    wp step (resume body g)
      (fun state t => Concludes parseDecimal s op t (.ok (.resumed state)))
      (fun e t => Concludes parseDecimal s op t (.error e)) s := by
  unfold resume
  split
  · rw [wp_bind]
    exact h.start.wp_len g.results (fun n t ht => hbody t ht g.results 0 n)
      fun e t he ht => ⟨[], .other he ht⟩
  · next index count _ => exact hbody s h.start g.results index count

theorem record_concludes {op : Op} (h : Inv parseDecimal s) {tableKey objectKey : Int}
    (hop : op.key = some (tableKey, objectKey)) :
    wp step (record tableKey objectKey)
      (fun r t => Concludes parseDecimal s op t (.ok (.record r)))
      (fun e t => Concludes parseDecimal s op t (.error e)) s := by
  refine h.start.wp_record tableKey objectKey (fun r t ht hy => ?_)
    (fun _ raw identity r t hi ht hy => ?_) fun _ answer e t ha ht => ⟨_, ended_raised ha ht⟩
  · exact ⟨[], ended_yielded allGood_nil ht (Or.inr ⟨r, _, rfl, rfl, hop, hy⟩) rfl
      (by rintro _ _ _ ⟨⟩)⟩
  · have hsurface : surface (.ok raw) = .ok identity := hi
    exact ⟨_, ended_yielded (allGood_singleton hsurface) ht (delivers_answer hsurface hy) rfl
      (by rintro _ _ _ ⟨⟩)⟩

theorem readField_error {raw : Dict PyStr Value} {key : PyStr} {e : Error}
    (h : readField parseDecimal raw key = .error e) : e ≠ .nativeError := by
  unfold readField at h
  split at h
  · cases h
    exact nofun
  · unfold convertField at h
    split at h
    · cases h
    · cases h
      exact nofun
    · next e' hno hc =>
      obtain ⟨reason, rfl⟩ := convert_error parseDecimal hc
      exact absurd rfl (hno reason)

/-- **Every operation ends in one of three ways.** -/
theorem run_concludes (h : Inv parseDecimal s) (op : Op) (hop : op.Held s) :
    wp step (op.run parseDecimal) (fun output t => Concludes parseDecimal s op t (.ok output))
      (fun e t => Concludes parseDecimal s op t (.error e)) s := by
  cases op with
  | len results =>
    rw [Op.run, wp_bind]
    exact h.start.wp_len results (fun n t ht => ⟨[], ended_quiet ht rfl (by rintro _ _ _ ⟨⟩)⟩)
      fun e t he ht => ⟨[], .other he ht⟩
  | index results i =>
    rw [Op.run, wp_bind]
    refine h.start.wp_getItem results i (fun answer identity r t ha ht hy => ?_)
      fun answer e t ha ht => ⟨_, ended_raised ha ht⟩
    exact ⟨_, ended_yielded (allGood_singleton ha) ht (delivers_answer ha hy) rfl
      (by rintro _ _ _ ⟨⟩)⟩
  | slice results start stop step =>
    rw [Op.run, wp_bind, getSlice, withNativeErrors, wp_tryCatch, wp_bind]
    refine h.start.wp_len results (fun n t ht => ?_)
      fun e t _ ht => ⟨[], .other (translate_ne_nativeError e) ht⟩
    rw [wp_bind]
    cases sliceIndices start stop step n with
    | error e => exact ⟨[], .other (translate_ne_nativeError e) ht⟩
    | ok bounds =>
      show wp Reader.step (readItems results (rangeItems bounds)) _ _ t
      refine wp_mono (wp_readItems ht.inv results (rangeItems bounds)) ?_ ?_
      · rintro rs t' ⟨good, hg, ht', hrs⟩
        exact ⟨good, .good hg (ht.trans ht') (Or.inl hrs) (not_surfaced (by rintro _ _ _ ⟨⟩))⟩
      · rintro e t' ⟨good, bad, hg, hb, ht'⟩
        refine ⟨_, .bad hg hb (ht.trans ht') (surfaced_error _) ?_ False.elim⟩
        rintro output ⟨⟩
  | next g =>
    rw [Op.run, wp_bind]
    refine resume_spec (fun s' hs' results index count => ?_) h g
    refine wp_mono (advance_spec hs' results index count) (fun _ _ => id) ?_
    rintro e t ⟨answer, ha, ht⟩
    exact ⟨_, ended_raised ha ht⟩
  | nextValid g =>
    rw [Op.run, wp_bind]
    exact resume_spec (fun s' hs' => advanceValid_spec hs') h g
  | getByKey tableKey objectKey =>
    rw [Op.run, wp_bind]
    exact record_concludes h rfl
  | resolve tableKey objectKey =>
    rw [Op.run, wp_bind]
    exact record_concludes h rfl
  | field r key =>
    rw [Op.run, wp_bind]
    obtain ⟨record, hl⟩ := h.interned.held r hop
    obtain ⟨raw, -, -, hraw⟩ := (h.sound r record hl).source
    exact h.start.wp_getField hop hl hraw key
      (fun value t _ ht => ⟨[], ended_quiet ht rfl (by rintro _ _ _ ⟨⟩)⟩)
      fun e t he ht => ⟨[], .other (readField_error he) ht⟩

/-! ## The law -/

theorem Ended.stage {op : Op} {t : Memory} {out : Except Error Output} {new : List RawAnswer}
    (h : Ended parseDecimal s op t out new) : Stage parseDecimal s new none t := by
  cases h with
  | good _ hs _ _ => exact hs
  | bad _ _ hs _ _ _ => exact hs
  | other _ hs => exact hs

/-- Records are yielded by an operation that ended well. -/
theorem Ended.delivers {op : Op} {t : Memory} {out : Except Error Output} {new : List RawAnswer}
    (h : Ended parseDecimal s op t out new) {output : Output} (ho : out = .ok output)
    (hne : output.yielded ≠ []) : Delivers op t output.yielded new := by
  cases h with
  | good _ _ hy _ =>
    cases ho
    exact hy
  | bad _ _ _ _ hy _ => exact absurd (hy output ho) hne
  | other _ _ => cases ho

theorem Ended.failed {op : Op} {t : Memory} {out : Except Error Output} {new : List RawAnswer}
    (h : Ended parseDecimal s op t out new) {answer : RawAnswer} (ha : answer ∈ new) {e : Error}
    (he : surface answer = .error e) : Surfaced out e := by
  have hno : ∀ good, AllGood good → answer ∉ good := by
    intro good hg hm
    obtain ⟨identity, hi⟩ := hg answer hm
    rw [he] at hi
    cases hi
  cases h with
  | good hg _ _ _ => exact absurd ha (hno _ hg)
  | @bad _ _ bad e' hg hbad _ ho _ _ =>
    rcases List.mem_append.mp ha with hm | hm
    · exact absurd hm (hno _ hg)
    · rw [List.mem_singleton] at hm
      subst hm
      rw [he] at hbad
      exact (ho e).mpr (Except.error.inj hbad)
  | other _ _ => cases ha

theorem Ended.safe {op : Op} {t : Memory} {out : Except Error Output} {new : List RawAnswer}
    (h : Ended parseDecimal s op t out new) : ¬ Surfaced out .nativeError := by
  cases h with
  | good _ _ _ hq => exact hq _
  | bad _ hbad _ ho _ _ =>
    intro hs
    rw [ho] at hs
    subst hs
    exact surface_ne_nativeError _ hbad
  | other he _ =>
    intro hs
    exact he ((surfaced_error _ _).mp hs).symm

/-- A failed operation that reads one element had no good answer. -/
theorem Ended.silent {op : Op} {t : Memory} {out : Except Error Output} {new : List RawAnswer}
    (h : Ended parseDecimal s op t out new) (hone : op.ReadsOne) {e : Error} (he : Surfaced out e)
    {answer : RawAnswer} (ha : answer ∈ new) (identity : Int × Int) :
    surface answer ≠ .ok identity := by
  cases h with
  | good _ _ _ hq => exact absurd he (hq e)
  | bad _ hbad _ _ _ hnil =>
    rw [hnil hone, List.nil_append, List.mem_singleton] at ha
    subst ha
    rw [hbad]
    exact nofun
  | other _ _ => cases ha

theorem Yields.unique {t : Memory} (ht : Inv parseDecimal t) {r : Nat} {identity : Int × Int}
    (hy : Yields t r identity) {r' : Nat} {record : Record} (hr : t.heap.live r' = some record)
    (hi : record.identity = identity) : r' = r := by
  obtain ⟨record', hr', hi'⟩ := hy.live
  exact ht.interned.unique hr hr' (hi.trans hi'.symm)

theorem Inv.yields (h : Inv parseDecimal s) {r : Nat} (hr : r ∈ s.heap.roots) :
    ∃ identity, Yields s r identity := by
  obtain ⟨record, hl⟩ := h.interned.held r hr
  exact ⟨record.identity, hr, record, hl, rfl⟩

/-- A field read, given the raw data of every object. -/
theorem field_run (h : Inv parseDecimal s) {r : Nat} {key : PyStr} (hr : r ∈ s.heap.roots)
    {record : Record} (hl : s.heap.live r = some record) {t : Memory} {out : Except Error Output}
    (hrun : Runs step s (Op.run parseDecimal (.field r key)) t out)
    {rawOf : Int × Int → Dict PyStr Value} (hstable : Stable rawOf t.answers) :
    out = (readField parseDecimal (rawOf record.identity) key).map Output.value := by
  obtain ⟨raw, hm, hi, hraw⟩ := (h.sound r record hl).source
  have hspec : wp step (Op.run parseDecimal (.field r key))
      (fun output t => t.answers = s.answers ∧
        .ok output = (readField parseDecimal raw key).map Output.value)
      (fun e t => t.answers = s.answers ∧
        .error e = (readField parseDecimal raw key).map Output.value) s := by
    rw [Op.run, wp_bind]
    refine h.start.wp_getField hr hl hraw key (fun value t hv ht => ?_) fun e t he ht => ?_
    · exact ⟨ht.answers.trans (List.append_nil _), by rw [hv]; rfl⟩
    · exact ⟨ht.answers.trans (List.append_nil _), by rw [he]; rfl⟩
  obtain ⟨hans, hout⟩ : t.answers = s.answers ∧
      out = (readField parseDecimal raw key).map Output.value := by
    apply hrun.of_wp
    exact hspec
  have hsame : raw = rawOf record.identity :=
    hstable raw record.identity (hans ▸ hm) ((recordIdentity_eq_ok raw _).mp hi)
  rw [← hsame]
  exact hout

/-- Look-up by the key of a held record. -/
theorem cached_run (h : Inv parseDecimal s) {tableKey objectKey : Int} {op : Op}
    (hop : op = .getByKey tableKey objectKey ∨ op = .resolve tableKey objectKey) {r : Nat}
    (hy : Yields s r (tableKey, objectKey)) {t : Memory} {out : Except Error Output}
    (hrun : Runs step s (op.run parseDecimal) t out) :
    out = .ok (.record r) ∧ t.answers = s.answers := by
  have hrec : wp step (record tableKey objectKey >>= fun r' => pure (Output.record r'))
      (fun output t => output = .record r ∧ t.answers = s.answers) (fun _ _ => False) s := by
    rw [wp_bind]
    refine h.start.wp_record tableKey objectKey (fun r' t ht hy' => ?_)
      (fun hno => absurd hy (hno r)) fun hno => absurd hy (hno r)
    obtain ⟨record, hl, hi⟩ := (hy.kept ht.kept).live
    exact ⟨congrArg Output.record (hy'.unique ht.inv hl hi).symm, by simpa using ht.answers⟩
  have hspec : wp step (op.run parseDecimal)
      (fun output t => output = .record r ∧ t.answers = s.answers) (fun _ _ => False) s := by
    rcases hop with rfl | rfl
    · exact hrec
    · exact hrec
  obtain ⟨output, rfl, hout, hans⟩ := hrun.returned hspec
  exact ⟨congrArg Except.ok hout, hans⟩

theorem Inv.law (h : Inv parseDecimal s) {op : Op} (hop : op.Held s) {t : Memory}
    {out : Except Error Output} (hrun : Runs step s (op.run parseDecimal) t out) :
    Inv parseDecimal t ∧ ∃ new, OperationLaw parseDecimal s op t out new := by
  have hends : Concludes parseDecimal s op t out := hrun.of_wp (run_concludes h op hop)
  obtain ⟨new, hend⟩ := hends
  have hs := hend.stage
  refine ⟨hs.inv, new, hs.answers, ?_, fun output ho hne => hend.delivers ho hne, ?_, ?_, ?_, ?_,
    hend.safe, ?_, ?_⟩
  · intro output ho r hr
    obtain ⟨identity, hy⟩ := (hend.delivers ho (List.ne_nil_of_mem hr)).yields r hr
    exact ⟨identity, hy, fun r' record hr' hi => hy.unique hs.inv hr' hi⟩
  · intro r hr
    obtain ⟨identity, hy⟩ := h.yields hr
    refine ⟨identity, hy, hy.kept hs.kept, fun output _ r' _ hy' => ?_⟩
    obtain ⟨record, hl, hi⟩ := hy'.live
    exact (hy.kept hs.kept).unique hs.inv hl hi
  · intro tableKey objectKey ho r hy
    obtain ⟨hout, hans⟩ := cached_run h ho hy hrun
    rw [hs.answers] at hans
    exact ⟨hout, List.append_right_eq_self.mp hans⟩
  · intro identity r hr
    rcases hs.entries identity r hr with hr | ⟨answer, ha, hi⟩
    · exact Or.inl hr
    · obtain ⟨raw, rfl, hn⟩ := surface_eq_ok hi
      exact Or.inr ⟨raw, ha, hn⟩
  · intro answer ha hb
    obtain ⟨reason, hr⟩ := surface_of_broken hb
    exact ⟨reason, hend.failed ha hr⟩
  · intro hone e he identity r hr
    rcases hs.entries identity r hr with hr | ⟨answer, ha, hi⟩
    · exact hr
    · exact absurd hi (hend.silent hone he ha identity)
  · rintro r key rfl rawOf hstable record hl
    exact field_run h hop hl hrun hstable

theorem Moves.inv {t : Memory} (hm : Moves parseDecimal s t) (h : Inv parseDecimal s) :
    Inv parseDecimal t := by
  cases hm with
  | op op hop hr => exact (h.law hop hr).1
  | release roots hr => exact ⟨h.interned.release hr, h.sound⟩
  | collect hc => exact (h.start.shrunk hc.shrunk).inv

/-- **The cache invariant in every history.** -/
theorem reachable_inv {t : Memory} (h : Reachable parseDecimal t) : Inv parseDecimal t := by
  induction h with
  | refl => exact inv_initial parseDecimal
  | tail _ hm ih => exact hm.inv ih

end

/-- A first read, with nothing collected. -/
theorem getByKey_reads (parseDecimal : PyStr → Option PyStr) {s : Memory} {t k : Int}
    (hno : s.heap.lookup (t, k) = none) {raw : Dict PyStr Value} {identity : Int × Int}
    (hi : recordIdentity raw = .ok identity) (hno' : s.heap.lookup identity = none) :
    Runs step s (Op.run parseDecimal (.getByKey t k))
      ⟨(s.heap.allocate ⟨identity.1, identity.2, fieldsOf raw, Dict.empty⟩).assign identity
        s.heap.fresh, s.answers ++ [.ok raw]⟩ (.ok (.record s.heap.fresh)) :=
  (record_reads hno hi hno').bind (.done _ _)

/-- After the first read of a realm. -/
theorem reachable_first (parseDecimal : PyStr → Option PyStr) {raw : Dict PyStr Value}
    {identity : Int × Int} (hi : recordIdentity raw = .ok identity) :
    Reachable parseDecimal ⟨(Heap.empty.allocate
      ⟨identity.1, identity.2, fieldsOf raw, Dict.empty⟩).assign identity 0, [.ok raw]⟩ :=
  .single (.op (.getByKey identity.1 identity.2) trivial
    (getByKey_reads parseDecimal (s := Memory.initial) rfl hi rfl))

/-- **One live record per identity**, in every history of operations, collections
and native failures, and what each operation does there. -/
theorem one_record_per_identity (parseDecimal : PyStr → Option PyStr) {s : Memory}
    (h : Reachable parseDecimal s) :
    (∀ r r' record record', s.heap.live r = some record → s.heap.live r' = some record' →
      record.identity = record'.identity → r = r') ∧
    ∀ op, op.Held s → ∀ t out, Runs step s (op.run parseDecimal) t out →
      ∃ new, OperationLaw parseDecimal s op t out new := by
  have hi := reachable_inv h
  constructor
  · exact fun r r' record record' hr hr' he => hi.interned.unique hr hr' he
  · exact fun op hop t out hr => (hi.law hop hr).2

/-- An object of table 5 with one field. -/
def tinyRaw : Dict PyStr Value :=
  ((Dict.empty.set TABLE_KEY (.int 5)).set OBJECT_KEY (.int 3)).set ['n'] (.str ['B', 'o', 'b'])

def tinyRecord : Record := ⟨5, 3, fieldsOf tinyRaw, Dict.empty⟩

/-- After a failed and a successful read of the object. -/
def tinyMemory : Memory where
  heap := (Heap.empty.allocate tinyRecord).assign (5, 3) 0
  answers := [.error .nativeError, .ok tinyRaw]

theorem fails_tiny : Runs step Memory.initial (Op.run (fun _ => none) (.resolve 5 3))
    ⟨Heap.empty, [.error .nativeError]⟩ (.error (.realmError .native)) := by
  apply Runs.call (.ok none) ⟨_, .refl, rfl, rfl⟩
  apply Runs.call (.error .nativeError) ⟨_, .refl, rfl⟩
  exact Runs.done _ _

theorem reads_tiny : Runs step ⟨Heap.empty, [.error .nativeError]⟩
    (Op.run (fun _ => none) (.getByKey 5 3)) tinyMemory (.ok (.record 0)) := by
  have hi : recordIdentity tinyRaw = .ok (5, 3) := rfl
  exact getByKey_reads _ rfl hi rfl

theorem reachable_tiny : Reachable (fun _ => none) tinyMemory :=
  .tail (.single (.op (.resolve 5 3) trivial fails_tiny)) (.op (.getByKey 5 3) trivial reads_tiny)

theorem field_tiny : ∃ t, Runs step tinyMemory (Op.run (fun _ => none) (.field 0 ['n'])) t
    (.ok (.value (.str ['B', 'o', 'b']))) := by
  apply Exists.intro
  apply Runs.call (.ok none) ⟨_, .refl, rfl, rfl⟩
  apply Runs.call (.ok (some (.str ['B', 'o', 'b']))) ⟨_, .refl, rfl, rfl⟩
  apply Runs.call (.ok ()) ⟨_, .refl, rfl, rfl⟩
  exact Runs.done _ _

theorem one_record_per_identity_tiny : ∃ t new,
    Runs step tinyMemory (Op.run (fun _ => none) (.field 0 ['n'])) t
      (.ok (.value (.str ['B', 'o', 'b']))) ∧
    OperationLaw (fun _ => none) tinyMemory (.field 0 ['n']) t
      (.ok (.value (.str ['B', 'o', 'b']))) new := by
  obtain ⟨t, hr⟩ := field_tiny
  have hheld : Op.Held tinyMemory (.field 0 ['n']) := List.mem_singleton_self 0
  obtain ⟨new, hlaw⟩ := (one_record_per_identity (fun _ => none) reachable_tiny).2 _ hheld t _ hr
  exact ⟨t, new, hr, hlaw⟩

end Pyrealm.Reader
