import Pyrealm.Pool.Effects
import Pyrealm.Pool.Interning
import Pyrealm.Reader.Record

/-!
# The record cache of one `Realm`

`Realm._record`, `Realm._record_from_raw` and `Record.__getitem__` over a heap of
records that the `WeakValueDictionary` does not keep alive.  Garbage collection
may run before every step; the native layer may answer anything.

* `Stage`: the cache invariant, with what an operation under way has changed so far.
* `Stage.wp_record`, `Stage.wp_recordFromRaw`: a record is yielded by the one live
  record of its identity.
* `Stage.wp_getField`: a field reads as the conversion of the raw value.
-/

namespace Pyrealm.Reader

open Py Effects Interning

/-! ## Memory -/

/-- What the native layer answers to the reading of one object. -/
abbrev RawAnswer : Type := Except Error (Dict PyStr Value)

/-- The records in memory and the cache of the realm; `answers` is the history of
the native layer's answers, which the code does not see. -/
structure Memory where
  heap : Heap (Int × Int) Record
  answers : List RawAnswer

def Memory.initial : Memory := ⟨Heap.empty, []⟩

def Memory.getConverted (s : Memory) (r : Nat) (key : PyStr) : Option Converted :=
  (s.heap.live r).bind fun record => record.converted.get? key

def Memory.getRaw (s : Memory) (r : Nat) (key : PyStr) : Option Value :=
  (s.heap.live r).bind fun record => record.raw.get? key

def Memory.setConverted (s : Memory) (r : Nat) (key : PyStr) (value : Converted) : Memory :=
  match s.heap.live r with
  | some record =>
    { s with heap := s.heap.update r { record with converted := record.converted.set key value } }
  | none => s

/-- The native reads that return an object. -/
inductive NativeRead where
  /-- `self._native.record(table_key, object_key)` -/
  | record (tableKey objectKey : Int)
  /-- `self._native[index]` of a result set -/
  | item (results : Nat) (index : Int)

inductive Command where
  /-- `self._record_cache.get(identity)` -/
  | cacheGet (identity : Int × Int)
  /-- `self._record_cache[identity] = record` -/
  | cacheSet (identity : Int × Int) (record : Nat)
  | allocate (record : Record)
  | native (read : NativeRead)
  /-- `len(self._native)` of a result set -/
  | nativeLen (results : Nat)
  /-- `self._converted.get(key)` of a record -/
  | getConverted (record : Nat) (key : PyStr)
  /-- `self._raw.get(key)` of a record -/
  | getRaw (record : Nat) (key : PyStr)
  /-- `self._converted[key] = value` of a record -/
  | setConverted (record : Nat) (key : PyStr) (value : Converted)

abbrev Answer : Command → Type
  | .cacheGet _ => Option Nat
  | .cacheSet _ _ => Unit
  | .allocate _ => Nat
  | .native _ => Dict PyStr Value
  | .nativeLen _ => Nat
  | .getConverted _ _ => Option Converted
  | .getRaw _ _ => Option Value
  | .setConverted _ _ _ => Unit

/-- A command and its effect.  A record found or made is held by whoever asked. -/
def exec (s : Memory) : (c : Command) → Except Error (Answer c) → Memory → Prop
  | .cacheGet identity, answer, t =>
    answer = .ok (s.heap.lookup identity) ∧
      t = { s with heap := (s.heap.lookup identity).elim s.heap s.heap.hold }
  | .cacheSet identity r, answer, t =>
    answer = .ok () ∧ t = { s with heap := s.heap.assign identity r }
  | .allocate record, answer, t =>
    answer = .ok s.heap.fresh ∧ t = { s with heap := s.heap.allocate record }
  | .native _, answer, t => t = { s with answers := s.answers ++ [answer] }
  | .nativeLen _, _, t => t = s
  | .getConverted r key, answer, t => answer = .ok (s.getConverted r key) ∧ t = s
  | .getRaw r key, answer, t => answer = .ok (s.getRaw r key) ∧ t = s
  | .setConverted r key value, answer, t => answer = .ok () ∧ t = s.setConverted r key value

/-- A command after any garbage collection. -/
def step (s : Memory) (c : Command) (answer : Except Error (Answer c)) (t : Memory) : Prop :=
  ∃ heap, Collected s.heap heap ∧ exec { s with heap := heap } c answer t

abbrev Action : Type → Type := Prog Command Answer Error

/-! ## Algorithm -/

def ask (c : Command) : Action (Answer c) := Prog.perform c

/-- What `_native_errors` makes of an exception. -/
def translate : Error → Error
  | .nativeError => .realmError .native
  | e => e

/-- `with _native_errors(): …` -/
def withNativeErrors {α : Type} (p : Action α) : Action α :=
  p.tryCatch fun e => Prog.raise (translate e)

/-- `Record(self, raw)` -/
def newRecord (raw : Dict PyStr Value) : Action Nat :=
  match initRecord raw with
  | .ok record => ask (.allocate record)
  | .error e => Prog.raise e

/-- `Realm._record_from_raw`, once the identity is known. -/
def internRecord (raw : Dict PyStr Value) (identity : Int × Int) : Action Nat := do
  let cached ← ask (.cacheGet identity)
  match cached with
  | some r => pure r
  | none => do
    let r ← newRecord raw
    ask (.cacheSet identity r)
    pure r

/-- `Realm._record_from_raw` -/
def recordFromRaw (raw : Dict PyStr Value) : Action Nat :=
  match recordIdentity raw with
  | .ok identity => internRecord raw identity
  | .error e => Prog.raise e

/-- `Realm._record` -/
def record (tableKey objectKey : Int) : Action Nat := do
  let cached ← ask (.cacheGet (tableKey, objectKey))
  match cached with
  | some r => pure r
  | none => do
    let raw ← withNativeErrors (ask (.native (.record tableKey objectKey)))
    recordFromRaw raw

section
variable (parseDecimal : PyStr → Option PyStr)

/-- The second `try` of `Record.__getitem__`. -/
def convertField (key : PyStr) (value : Value) : Except Error Converted :=
  match convert parseDecimal value with
  | .ok converted => .ok converted
  | .error (.realmError reason) => .error (.realmError (.undecodable key reason))
  | .error e => .error e

/-- `Record.__getitem__`, for a field not converted before. -/
def decodeField (r : Nat) (key : PyStr) : Action Converted := do
  let raw ← ask (.getRaw r key)
  match raw with
  | none => Prog.raise .keyError
  | some value =>
    match convertField parseDecimal key value with
    | .error e => Prog.raise e
    | .ok converted => do
      ask (.setConverted r key converted)
      pure converted

/-- `Record.__getitem__` -/
def getField (r : Nat) (key : PyStr) : Action Converted := do
  let cached ← ask (.getConverted r key)
  match cached with
  | some converted => pure converted
  | none => decodeField parseDecimal r key

/-- What a field of the object with this raw dictionary should read as. -/
def readField (raw : Dict PyStr Value) (key : PyStr) : Except Error Converted :=
  match (fieldsOf raw).get? key with
  | none => .error .keyError
  | some value => convertField parseDecimal key value

end

/-! ## The answer of the native layer, as the caller sees it -/

/-- The identity of the record a native answer stands for, or the exception it surfaces as. -/
def surface : RawAnswer → Except Error (Int × Int)
  | .ok raw => recordIdentity raw
  | .error e => .error (translate e)

theorem translate_ne_nativeError (e : Error) : translate e ≠ .nativeError := by
  cases e <;> exact nofun

/-- `_native_errors` lets the exceptions of `_record_from_raw` through. -/
theorem translate_of_recordIdentity {raw : Dict PyStr Value} {e : Error}
    (h : recordIdentity raw = .error e) : translate e = e := by
  obtain ⟨reason, rfl⟩ := recordIdentity_error h
  rfl

/-- A native error or bad metadata surfaces as `RealmError`. -/
theorem surface_error {answer : RawAnswer} {e : Error} (h : surface answer = .error e) :
    (∃ reason, e = .realmError reason) ∨ (answer = .error e ∧ e ≠ .nativeError) := by
  cases answer with
  | error e' =>
    rw [surface] at h
    cases h
    by_cases he : e' = .nativeError
    · subst he
      exact Or.inl ⟨_, rfl⟩
    · refine Or.inr ⟨?_, translate_ne_nativeError e'⟩
      cases e' <;> first | rfl | exact absurd rfl he
  | ok raw => exact Or.inl (recordIdentity_error h)

theorem surface_ne_nativeError (answer : RawAnswer) : surface answer ≠ .error .nativeError := by
  intro h
  rcases surface_error h with ⟨reason, hr⟩ | ⟨-, hne⟩
  · cases hr
  · exact hne rfl

/-! ## The invariant -/

/-- What a record keeps for its lifetime. -/
def Record.fixed (record : Record) : (Int × Int) × Dict PyStr Value := (record.identity, record.raw)

/-- What a record has become: conversions are added, and none is lost or changed. -/
structure Record.Grows (record later : Record) : Prop where
  fixed : later.fixed = record.fixed
  converted : ∀ key value, record.converted.get? key = some value →
    later.converted.get? key = some value

instance : IsPreorder Record Record.Grows where
  refl _ := ⟨rfl, fun _ _ => id⟩
  trans _ _ _ h h' :=
    ⟨h'.fixed.trans h.fixed, fun key value hv => h'.converted key value (h.converted key value hv)⟩

section
variable (parseDecimal : PyStr → Option PyStr)

/-- A record stands for a raw dictionary that the native layer answered, and its
converted fields are conversions of the raw ones. -/
structure Sound (answers : List RawAnswer) (record : Record) : Prop where
  source : ∃ raw, .ok raw ∈ answers ∧ recordIdentity raw = .ok record.identity ∧
    record.raw = fieldsOf raw
  converted : ∀ key value, record.converted.get? key = some value →
    ∃ raw, record.raw.get? key = some raw ∧ convert parseDecimal raw = .ok value

/-- **The cache invariant, in the middle of an operation** that started from `s₀`
and has had the answers `new` since: entries were added only for good answers. -/
structure Stage (s₀ : Memory) (new : List RawAnswer) (pending : Option Nat) (s : Memory) :
    Prop where
  interned : Interned Record.identity pending s.heap
  sound : ∀ r record, s.heap.live r = some record → Sound parseDecimal s.answers record
  answers : s.answers = s₀.answers ++ new
  kept : Kept Record.Grows s₀.heap s.heap
  entries : ∀ identity r, s.heap.table.get? identity = some r →
    s₀.heap.table.get? identity = some r ∨ ∃ answer ∈ new, surface answer = .ok identity

/-- The invariant between operations. -/
structure Inv (s : Memory) : Prop where
  interned : Interned Record.identity none s.heap
  sound : ∀ r record, s.heap.live r = some record → Sound parseDecimal s.answers record

end

/-- `r` is held, and a live record of this identity. -/
structure Yields (s : Memory) (r : Nat) (identity : Int × Int) : Prop where
  held : r ∈ s.heap.roots
  live : ∃ record, s.heap.live r = some record ∧ record.identity = identity

variable {parseDecimal : PyStr → Option PyStr}

theorem Sound.append {answers : List RawAnswer} {record : Record}
    (h : Sound parseDecimal answers record) (new : List RawAnswer) :
    Sound parseDecimal (answers ++ new) record where
  source := by
    obtain ⟨raw, hm, h1, h2⟩ := h.source
    exact ⟨raw, List.mem_append_left _ hm, h1, h2⟩
  converted := h.converted

theorem inv_initial (parseDecimal : PyStr → Option PyStr) : Inv parseDecimal Memory.initial :=
  ⟨interned_empty _, nofun⟩

theorem Inv.start {s : Memory} (h : Inv parseDecimal s) : Stage parseDecimal s [] none s :=
  ⟨h.interned, h.sound, (List.append_nil _).symm, Kept.refl _, fun _ _ => Or.inl⟩

section
variable {s₀ s : Memory} {new : List RawAnswer} {pending : Option Nat}

theorem Stage.inv (h : Stage parseDecimal s₀ new none s) : Inv parseDecimal s :=
  ⟨h.interned, h.sound⟩

theorem Stage.trans {new' : List RawAnswer} {t : Memory} (h : Stage parseDecimal s₀ new none s)
    (h' : Stage parseDecimal s new' none t) : Stage parseDecimal s₀ (new ++ new') none t where
  interned := h'.interned
  sound := h'.sound
  answers := by rw [h'.answers, h.answers, List.append_assoc]
  kept := h.kept.trans h'.kept
  entries := by
    intro identity r hr
    rcases h'.entries identity r hr with hr | ⟨answer, ha, hs⟩
    · rcases h.entries identity r hr with hr | ⟨answer, ha, hs⟩
      · exact Or.inl hr
      · exact Or.inr ⟨answer, List.mem_append_left _ ha, hs⟩
    · exact Or.inr ⟨answer, List.mem_append_right _ ha, hs⟩

theorem Stage.shrunk (h : Stage parseDecimal s₀ new pending s) {heap : Heap (Int × Int) Record}
    (hs : Shrunk s.heap heap) : Stage parseDecimal s₀ new pending { s with heap := heap } where
  interned := h.interned.shrunk hs
  sound := fun r record hr => h.sound r record (hs.live r record hr)
  answers := h.answers
  kept := h.kept.shrunk hs
  entries := fun identity r hr => h.entries identity r (hs.table identity r hr)

theorem Stage.hold (h : Stage parseDecimal s₀ new pending s) {r : Nat} {record : Record}
    (hr : s.heap.live r = some record) :
    Stage parseDecimal s₀ new pending { s with heap := s.heap.hold r } :=
  ⟨h.interned.hold hr, h.sound, h.answers, h.kept.hold r, h.entries⟩

theorem Stage.answered (h : Stage parseDecimal s₀ new none s) (answer : RawAnswer) :
    Stage parseDecimal s₀ (new ++ [answer]) none { s with answers := s.answers ++ [answer] } where
  interned := h.interned
  sound := fun r record hr => (h.sound r record hr).append [answer]
  answers := by rw [h.answers, List.append_assoc]
  kept := h.kept
  entries := by
    intro identity r hr
    rcases h.entries identity r hr with hr | ⟨answer', ha, hs⟩
    · exact Or.inl hr
    · exact Or.inr ⟨answer', List.mem_append_left _ ha, hs⟩

theorem Stage.allocate (h : Stage parseDecimal s₀ new none s) {record : Record}
    (hr : Sound parseDecimal s.answers record) :
    Stage parseDecimal s₀ new (some s.heap.fresh) { s with heap := s.heap.allocate record } where
  interned := h.interned.allocate record
  sound := by
    intro r record' hr'
    rcases Heap.live_allocate_cases hr' with ⟨-, rfl⟩ | ⟨-, hr'⟩
    · exact hr
    · exact h.sound r record' hr'
  answers := h.answers
  kept := h.kept.allocate h.interned record
  entries := h.entries

theorem Stage.assign {r : Nat} (h : Stage parseDecimal s₀ new (some r) s) {record : Record}
    (hr : s.heap.live r = some record) (hv : VacantBut Record.identity s.heap record.identity r)
    (hn : ∃ answer ∈ new, surface answer = .ok record.identity) :
    Stage parseDecimal s₀ new none { s with heap := s.heap.assign record.identity r } where
  interned := h.interned.assign hr hv
  sound := h.sound
  answers := h.answers
  kept := h.kept.assign _ r
  entries := by
    intro identity r' hr'
    change (s.heap.table.set record.identity r).get? identity = some r' at hr'
    rw [Dict.get?_set] at hr'
    split at hr'
    · next he =>
      rw [he]
      exact Or.inr hn
    · exact h.entries identity r' hr'

theorem Stage.setConverted (h : Stage parseDecimal s₀ new none s) {r : Nat} {record : Record}
    (hr : s.heap.live r = some record) {key : PyStr} {raw : Value} {value : Converted}
    (hraw : record.raw.get? key = some raw) (hc : convert parseDecimal raw = .ok value) :
    Stage parseDecimal s₀ new none (s.setConverted r key value) := by
  have hgrows : record.Grows { record with converted := record.converted.set key value } := by
    refine ⟨rfl, fun key' value' hv => ?_⟩
    rw [Dict.get?_set]
    split
    · next he =>
      -- a conversion that is there already is of the same raw value
      subst he
      obtain ⟨raw', hraw', hc'⟩ := (h.sound r record hr).converted _ value' hv
      rw [hraw, Option.some.injEq] at hraw'
      rw [← hraw', hc, Except.ok.injEq] at hc'
      rw [hc']
    · exact hv
  rw [Memory.setConverted, hr]
  refine ⟨h.interned.update hr rfl, ?_, h.answers, h.kept.update hr hgrows, h.entries⟩
  intro r' record' hr'
  rcases Heap.live_update_cases hr' with ⟨-, rfl⟩ | ⟨-, hr'⟩
  · refine ⟨(h.sound r record hr).source, fun key' value' hv => ?_⟩
    rw [Dict.get?_set] at hv
    split at hv
    · next he =>
      cases hv
      exact ⟨raw, he ▸ hraw, hc⟩
    · exact (h.sound r record hr).converted key' value' hv
  · exact h.sound r' record' hr'

/-! ## Commands -/

/-- A command runs after a collection, which keeps the stage. -/
theorem Stage.wp_ask (h : Stage parseDecimal s₀ new pending s) {c : Command}
    {post : Answer c → Memory → Prop} {exn : Error → Memory → Prop}
    (hc : ∀ heap, Shrunk s.heap heap →
      Stage parseDecimal s₀ new pending { s with heap := heap } →
      ∀ answer t, exec { s with heap := heap } c answer t → Ends post exn t answer) :
    wp step (ask c) post exn s := by
  rw [ask, wp_perform]
  constructor
  · rintro a t ⟨heap, hcol, he⟩
    exact hc heap (shrunk_of_collected hcol) (h.shrunk (shrunk_of_collected hcol)) (.ok a) t he
  · rintro e t ⟨heap, hcol, he⟩
    exact hc heap (shrunk_of_collected hcol) (h.shrunk (shrunk_of_collected hcol)) (.error e) t he

theorem Stage.wp_cacheGet (h : Stage parseDecimal s₀ new none s) {identity : Int × Int}
    {post : Option Nat → Memory → Prop} {exn : Error → Memory → Prop}
    (hsome : ∀ r t, Stage parseDecimal s₀ new none t → Yields t r identity → post (some r) t)
    (hnone : ∀ t, Stage parseDecimal s₀ new none t → t.heap.lookup identity = none → post none t) :
    wp step (ask (.cacheGet identity)) post exn s := by
  refine h.wp_ask fun heap _ hstage answer t he => ?_
  obtain ⟨rfl, rfl⟩ := he
  cases hl : heap.lookup identity with
  | none => exact hnone _ hstage hl
  | some r =>
    obtain ⟨record, hr, hk⟩ := (hstage.interned.lookup_eq_some_iff identity r).mp hl
    exact hsome r _ (hstage.hold hr) ⟨List.mem_cons_self, record, hr, hk⟩

/-- Reading an object from the native layer. -/
theorem Stage.wp_native (h : Stage parseDecimal s₀ new none s) (read : NativeRead)
    {post : Dict PyStr Value → Memory → Prop} {exn : Error → Memory → Prop}
    (hok : ∀ raw t, Stage parseDecimal s₀ (new ++ [.ok raw]) none t → post raw t)
    (herr : ∀ e t, Stage parseDecimal s₀ (new ++ [.error e]) none t → exn e t) :
    wp step (ask (.native read)) post exn s := by
  refine h.wp_ask fun heap _ hstage answer t he => ?_
  cases he
  cases answer with
  | ok raw => exact hok raw _ (hstage.answered (.ok raw))
  | error e => exact herr e _ (hstage.answered (.error e))

/-- `newRecord` and the assignment of the cache entry, for an identity that no
live record has. -/
theorem Stage.wp_newRecord (h : Stage parseDecimal s₀ new none s) {raw : Dict PyStr Value}
    {identity : Int × Int} (hi : recordIdentity raw = .ok identity) (hraw : .ok raw ∈ new)
    (hl : s.heap.lookup identity = none) {post : Nat → Memory → Prop} {exn : Error → Memory → Prop}
    (hpost : ∀ r t, Stage parseDecimal s₀ new none t → Yields t r identity → post r t) :
    wp step (newRecord raw >>= fun r => ask (.cacheSet identity r) >>= fun _ => pure r) post exn s := by
  rw [newRecord, initRecord_eq hi, wp_bind]
  refine h.wp_ask fun heap hs hstage answer t he => ?_
  obtain ⟨rfl, rfl⟩ := he
  have hv := (h.interned.vacant_of_lookup hl s.heap.fresh).shrunk hs
  rw [← hs.fresh] at hv
  have hmem : .ok raw ∈ s.answers := by
    rw [h.answers]
    exact List.mem_append_right _ hraw
  have hsound : Sound parseDecimal s.answers ⟨identity.1, identity.2, fieldsOf raw, Dict.empty⟩ :=
    ⟨⟨raw, hmem, hi, rfl⟩, nofun⟩
  rw [Ends, wp_bind]
  refine (hstage.allocate hsound).wp_ask fun heap' hs' hstage' answer' t' he' => ?_
  obtain ⟨rfl, rfl⟩ := he'
  have hlive : heap'.live heap.fresh = some ⟨identity.1, identity.2, fieldsOf raw, Dict.empty⟩ := by
    rw [hs'.held _ List.mem_cons_self, Heap.live_allocate, if_pos rfl]
  have hroots : heap.fresh ∈ heap'.roots := by
    rw [hs'.roots]
    exact List.mem_cons_self
  refine hpost heap.fresh _ (hstage'.assign hlive ((hv.allocate _).shrunk hs') ⟨_, hraw, hi⟩) ?_
  exact ⟨hroots, _, hlive, rfl⟩

/-! ## Records -/

/-- **`_record_from_raw`** yields the live record of the raw dictionary's identity,
and does nothing at all when the metadata is bad. -/
theorem Stage.wp_recordFromRaw (h : Stage parseDecimal s₀ new none s) {raw : Dict PyStr Value}
    (hraw : .ok raw ∈ new) {post : Nat → Memory → Prop} {exn : Error → Memory → Prop}
    (hpost : ∀ identity r t, recordIdentity raw = .ok identity →
      Stage parseDecimal s₀ new none t → Yields t r identity → post r t)
    (hexn : ∀ e, recordIdentity raw = .error e → exn e s) :
    wp step (recordFromRaw raw) post exn s := by
  unfold recordFromRaw
  cases hi : recordIdentity raw with
  | error e => exact hexn e hi
  | ok identity =>
    show wp step (internRecord raw identity) post exn s
    rw [internRecord, wp_bind]
    refine h.wp_cacheGet (fun r t ht hy => hpost identity r t hi ht hy) fun t ht hl => ?_
    exact ht.wp_newRecord hi hraw hl fun r t' => hpost identity r t' hi

theorem Yields.kept {s t : Memory} {r : Nat} {identity : Int × Int} (h : Yields s r identity)
    (hk : Kept Record.Grows s.heap t.heap) : Yields t r identity := by
  obtain ⟨record, hr, hi⟩ := h.live
  obtain ⟨record', hr', hf⟩ := hk.live r h.held record hr
  exact ⟨hk.roots h.held, record', hr', (congrArg Prod.fst hf.fixed).trans hi⟩

/-- **`_record`** yields the live record of the identity asked for if there is
one, and else what the native layer answers. -/
theorem Stage.wp_record (h : Stage parseDecimal s₀ [] none s) (tableKey objectKey : Int)
    {post : Nat → Memory → Prop} {exn : Error → Memory → Prop}
    (hcached : ∀ r t, Stage parseDecimal s₀ [] none t → Yields t r (tableKey, objectKey) → post r t)
    (hpost : (∀ r, ¬ Yields s₀ r (tableKey, objectKey)) →
      ∀ raw identity r t, recordIdentity raw = .ok identity →
        Stage parseDecimal s₀ [.ok raw] none t → Yields t r identity → post r t)
    (hexn : (∀ r, ¬ Yields s₀ r (tableKey, objectKey)) →
      ∀ answer e t, surface answer = .error e → Stage parseDecimal s₀ [answer] none t → exn e t) :
    wp step (record tableKey objectKey) post exn s := by
  rw [record, wp_bind]
  refine h.wp_cacheGet (fun r t ht hy => hcached r t ht hy) fun t ht hl => ?_
  have hno : ∀ r, ¬ Yields s₀ r (tableKey, objectKey) := by
    intro r hy
    obtain ⟨record, hr, hi⟩ := (hy.kept ht.kept).live
    rw [(ht.interned.lookup_eq_some_iff _ r).mpr ⟨record, hr, hi⟩] at hl
    cases hl
  show wp step (withNativeErrors _ >>= _) post exn t
  rw [wp_bind, withNativeErrors, wp_tryCatch]
  refine ht.wp_native _ (fun raw t' ht' => ?_) fun e t' ht' => hexn hno (.error e) _ t' rfl ht'
  exact ht'.wp_recordFromRaw (List.mem_singleton_self _)
    (fun identity r t'' hi ht'' hy => hpost hno raw identity r t'' hi ht'' hy)
    fun e he => hexn hno (.ok raw) e t' he ht'

/-! ## Fields -/

theorem convertField_eq_ok_iff (key : PyStr) (value : Value) (converted : Converted) :
    convertField parseDecimal key value = .ok converted ↔
      convert parseDecimal value = .ok converted := by
  unfold convertField
  constructor
  · intro h
    split at h
    · next hc => exact hc.trans h
    · cases h
    · cases h
  · intro h
    rw [h]

/-- **`Record.__getitem__`** of a held record whose fields come from `raw`. -/
theorem Stage.wp_getField (h : Stage parseDecimal s₀ new none s) {r : Nat} {record : Record}
    (hr : r ∈ s.heap.roots) (hl : s.heap.live r = some record) {raw : Dict PyStr Value}
    (hraw : record.raw = fieldsOf raw) (key : PyStr) {post : Converted → Memory → Prop}
    {exn : Error → Memory → Prop}
    (hpost : ∀ value t, readField parseDecimal raw key = .ok value →
      Stage parseDecimal s₀ new none t → post value t)
    (hexn : ∀ e t, readField parseDecimal raw key = .error e →
      Stage parseDecimal s₀ new none t → exn e t) :
    wp step (getField parseDecimal r key) post exn s := by
  rw [getField, wp_bind]
  refine h.wp_ask fun heap hs hstage answer t he => ?_
  obtain ⟨rfl, rfl⟩ := he
  have hl1 : heap.live r = some record := (hs.held r hr).trans hl
  show wp step _ post exn _
  rw [Memory.getConverted, hl1, Option.bind_some]
  cases hc : record.converted.get? key with
  | some converted =>
    obtain ⟨value, hv, hconv⟩ := (hstage.sound r record hl1).converted key converted hc
    refine hpost converted _ ?_ hstage
    rw [readField, ← hraw, hv]
    exact (convertField_eq_ok_iff key value converted).mpr hconv
  | none =>
    show wp step (decodeField parseDecimal r key) post exn _
    rw [decodeField, wp_bind]
    refine hstage.wp_ask fun heap' hs' hstage' answer' t' he' => ?_
    obtain ⟨rfl, rfl⟩ := he'
    have hl2 : heap'.live r = some record := (hs'.held r (hs.roots ▸ hr)).trans hl1
    show wp step _ post exn _
    rw [Memory.getRaw, hl2, Option.bind_some]
    cases hv : record.raw.get? key with
    | none =>
      refine hexn .keyError _ ?_ hstage'
      rw [readField, ← hraw, hv]
    | some value =>
      have hread : readField parseDecimal raw key = convertField parseDecimal key value := by
        rw [readField, ← hraw, hv]
      simp only
      cases hconv : convertField parseDecimal key value with
      | error e => exact hexn e _ (hread.trans hconv) hstage'
      | ok converted =>
        simp only
        rw [wp_bind]
        refine hstage'.wp_ask fun heap'' hs'' hstage'' answer'' t'' he'' => ?_
        obtain ⟨rfl, rfl⟩ := he''
        have hroots : r ∈ heap'.roots := by
          rw [hs'.roots, hs.roots]
          exact hr
        have hl3 : heap''.live r = some record := (hs''.held r hroots).trans hl2
        exact hpost converted _ (hread.trans hconv) (hstage''.setConverted hl3 hv
          ((convertField_eq_ok_iff key value converted).mp hconv))

end

/-! ## What asks the native layer nothing -/

/-- The commands that do not ask the native layer. -/
def Command.Silent : Command → Prop
  | .native _ => False
  | _ => True

theorem setConverted_answers (s : Memory) (r : Nat) (key : PyStr) (value : Converted) :
    (s.setConverted r key value).answers = s.answers := by
  unfold Memory.setConverted
  split
  · rfl
  · rfl

theorem silent_answers {answers : List RawAnswer} (s : Memory) (c : Command)
    (answer : Except Error (Answer c)) (t : Memory) (hc : c.Silent) (h : step s c answer t)
    (hs : s.answers = answers) : t.answers = answers := by
  obtain ⟨heap, -, he⟩ := h
  cases c with
  | native read => exact hc.elim
  | nativeLen results =>
    cases he
    exact hs
  | setConverted r key value =>
    rw [he.2, setConverted_answers]
    exact hs
  | _ =>
    rw [he.2]
    exact hs

theorem recordFromRaw_silent (raw : Dict PyStr Value) :
    (recordFromRaw raw).Only Command.Silent := by
  unfold recordFromRaw
  cases recordIdentity raw with
  | error e => exact trivial
  | ok identity =>
    refine Only.bind (Only.perform trivial) fun cached => ?_
    cases cached with
    | some r => exact trivial
    | none =>
      refine Only.bind ?_ fun r => Only.bind (Only.perform trivial) fun _ => trivial
      unfold newRecord
      cases initRecord raw with
      | error e => exact trivial
      | ok record => exact Only.perform trivial

/-! ## A first read -/

/-- A record that is not in memory is read and interned; here nothing is collected. -/
theorem record_reads {s : Memory} {t k : Int} (hno : s.heap.lookup (t, k) = none)
    {raw : Dict PyStr Value} {identity : Int × Int} (hi : recordIdentity raw = .ok identity)
    (hno' : s.heap.lookup identity = none) :
    Runs step s (record t k)
      ⟨(s.heap.allocate ⟨identity.1, identity.2, fieldsOf raw, Dict.empty⟩).assign identity
        s.heap.fresh, s.answers ++ [.ok raw]⟩ (.ok s.heap.fresh) := by
  have hmiss : ∀ (u : Memory) (id : Int × Int), u.heap.lookup id = none →
      step u (.cacheGet id) (.ok none) u := by
    intro u id hu
    refine ⟨u.heap, .refl, ?_⟩
    rw [exec, hu]
    exact ⟨rfl, rfl⟩
  refine .call (.ok none) (hmiss s _ hno) (.call (.ok raw) ⟨s.heap, .refl, rfl⟩ ?_)
  show Runs step _ (recordFromRaw raw) _ _
  rw [recordFromRaw, hi]
  refine .call (.ok none) (hmiss ⟨s.heap, s.answers ++ [.ok raw]⟩ identity hno') ?_
  show Runs step _ (newRecord raw >>= _) _ _
  rw [newRecord, initRecord_eq hi]
  refine .call (.ok s.heap.fresh) ⟨s.heap, .refl, rfl, rfl⟩ ?_
  exact .call (.ok ()) ⟨_, .refl, rfl, rfl⟩ (.done _ _)

end Pyrealm.Reader
