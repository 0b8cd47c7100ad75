import Mathlib.Data.Finset.Basic
import Pyrealm.Pool.Binascii
import Pyrealm.Reader.Results
import Pyrealm.Reader.Schema

/-!
# `Record.to_dict`

`Record.to_dict`, `Record._to_dict` and `Realm._plain_value` over the public
operations of records and links: a link resolves, a field is read, as `Results`
and `Cache` model them, with collection in between.  The set `seen` is passed
along and returned.

    toDict → recordToDict → fieldsToDict → plainValue → linkToPlain → recordToDict …

* `serve_serial`: every run goes on to its end.
-/

namespace Pyrealm.Reader

open Py Effects Interning

/-! ## Data -/

/-- What `to_dict` makes of a value; `value` is one that is returned as it is. -/
inductive Plain where
  | value (v : Converted)
  | list (items : List Plain)
  | dict (entries : List (PyStr × Plain))

/-- The identities of the records under expansion. -/
abbrev Seen : Type := Finset (Int × Int)

/-- The exceptions of `to_dict`. -/
inductive DumpError where
  /-- raised by resolving a link or reading a field, or a `ValueError` -/
  | access (e : Error)
  /-- `KeyError` of `seen.remove` -/
  | keyError
  /-- `record refers to unknown Realm table key {key}; the record may be damaged` -/
  | unknownTable (e : UnknownTable)
  /-- `link refers to unknown Realm table key {key}; the record may be damaged` -/
  | unknownLinkTable (key : Int)
deriving DecidableEq, Repr

/-- What `to_dict` asks of records and links.  The realm is alive throughout. -/
inductive Request where
  /-- `value.resolve()` -/
  | resolve (tableKey objectKey : Int)
  /-- `self[key]` -/
  | field (r : Nat) (key : PyStr)
  /-- `(self.table_key, self.object_key)` -/
  | identity (r : Nat)
  /-- `for key in self` -/
  | keys (r : Nat)
  /-- nobody refers to the resolved record any more -/
  | drop (r : Nat)

abbrev Reply : Request → Type
  | .resolve _ _ => Nat
  | .field _ _ => Converted
  | .identity _ => Int × Int
  | .keys _ => List PyStr
  | .drop _ => Unit

abbrev Dump : Type → Type := Prog Request Reply DumpError

/-! ## Algorithm -/

def request (q : Request) : Dump (Reply q) := Prog.perform q

/-- `seen.remove(identity)` -/
def removeSeen (identity : Int × Int) (seen : Seen) : Dump Seen :=
  if identity ∈ seen then pure (seen.erase identity) else Prog.raise .keyError

/-- `str(value)` of a `uuid.UUID`; `hexlify` is `'%032x' % value.int`. -/
def uuidString (bytes : Bytes) : PyStr :=
  let hex := hexlify bytes
  hex.take 8 ++ '-' :: (hex.drop 8).take 4 ++ '-' :: (hex.drop 12).take 4 ++
    '-' :: (hex.drop 16).take 4 ++ '-' :: hex.drop 20

/-- `{tag: text}` -/
def tagged (tag : String) (text : PyStr) : Plain := .dict [(tag.toList, .value (.str text))]

/-- `{"$ref": {"table": table, "key": key}}` -/
def reference (table : PyStr) (key : Int) : Plain :=
  .dict [("$ref".toList,
    .dict [("table".toList, .value (.str table)), ("key".toList, .value (.int key))])]

/-- The branches of `_plain_value` for values without parts. -/
def plainScalar : Converted → Plain
  | .timestamp s ns =>
    .dict [("$timestamp".toList,
      .dict [("seconds".toList, .value (.int s)), ("nanoseconds".toList, .value (.int ns))])]
  | .objectId text => tagged "$objectId" text
  | .decimal text => tagged "$decimal128" text
  | .bytes data => tagged "$binary" (b64encode data)
  | .uuid bytes => tagged "$uuid" (uuidString bytes)
  | v => .value v

section
variable (follow : Int → Int → Seen → Dump (Plain × Seen))

mutual

/-- `Realm._plain_value`; `follow` is its branch for a `RealmLink`. -/
def plainValue : Converted → Seen → Dump (Plain × Seen)
  | .link t k, seen => follow t k seen
  | .tuple items, seen => do
    let (items, seen) ← plainItems items seen
    pure (.list items, seen)
  | .frozenset items, seen => do
    let (items, seen) ← plainItems items seen
    pure (.list items, seen)
  | .dict entries, seen => do
    let (entries, seen) ← plainEntries entries seen
    pure (.dict entries, seen)
  | v, seen => pure (plainScalar v, seen)

def plainItems : List Converted → Seen → Dump (List Plain × Seen)
  | [], seen => pure ([], seen)
  | item :: items, seen => do
    let (item, seen) ← plainValue item seen
    let (items, seen) ← plainItems items seen
    pure (item :: items, seen)

def plainEntries : List (PyStr × Converted) → Seen → Dump (List (PyStr × Plain) × Seen)
  | [], seen => pure ([], seen)
  | (key, item) :: entries, seen => do
    let (item, seen) ← plainValue item seen
    let (entries, seen) ← plainEntries entries seen
    pure ((key, item) :: entries, seen)

end

/-- The dictionary comprehension of `_to_dict`. -/
def fieldsToDict (r : Nat) : List PyStr → Seen → Dump (List (PyStr × Plain) × Seen)
  | [], seen => pure ([], seen)
  | key :: keys, seen => do
    let v ← request (.field r key)
    let (item, seen) ← plainValue follow v seen
    let (entries, seen) ← fieldsToDict r keys seen
    pure ((key, item) :: entries, seen)

end

section
variable (realm : RealmSchema)

/-- The reference that a `RealmLink` is rendered as. -/
def linkReference (tableKey objectKey : Int) : Dump Plain :=
  match realm.tableName tableKey with
  | .ok name => pure (reference name objectKey)
  | .error _ => Prog.raise (.unknownLinkTable tableKey)

/-- The reference that a record under expansion is rendered as. -/
def recordReference (identity : Int × Int) : Dump Plain :=
  match realm.tableName identity.1 with
  | .ok name => pure (reference name identity.2)
  | .error e => Prog.raise (.unknownTable e)

/-- `Record._to_dict`; `follow` is what `_plain_value` does with a link. -/
def recordToDict (follow : Int → Int → Seen → Dump (Plain × Seen)) (r : Nat) (seen : Seen) :
    Dump (Plain × Seen) := do
  let identity ← request (.identity r)
  if identity ∈ seen then do
    let out ← recordReference realm identity
    pure (out, seen)
  else do
    let keys ← request (.keys r)
    let (entries, seen) ← fieldsToDict follow r keys (insert identity seen)
    let seen ← removeSeen identity seen
    pure (.dict entries, seen)

/-- The branch of `_plain_value` for a `RealmLink`. -/
def linkToPlain (expandLinks : Bool) : Nat → Int → Int → Seen → Dump (Plain × Seen)
  | 0, t, k, seen => do
    let out ← linkReference realm t k
    pure (out, seen)
  | remaining + 1, t, k, seen =>
    if expandLinks then do
      let r ← request (.resolve t k)
      let result ← recordToDict realm (linkToPlain expandLinks remaining) r seen
      request (.drop r)
      pure result
    else do
      let out ← linkReference realm t k
      pure (out, seen)

/-- `Record.to_dict`; the recursion limit of Python, on long chains of links, is left out. -/
def toDict (expandLinks : Bool) (maxDepth : Int) (r : Nat) : Dump Plain :=
  if maxDepth < 0 then Prog.raise (.access .valueError)
  else do
    let (out, _) ← recordToDict realm (linkToPlain realm expandLinks maxDepth.toNat) r ∅
    pure out

end

/-! ## Runs -/

section
variable (sem : Memory → (c : Command) → Except Error (Answer c) → Memory → Prop)
  (parseDecimal : PyStr → Option PyStr)

/-- What an attribute of a record that somebody holds reads as. -/
def Memory.ofRecord {α : Type} (s : Memory) (r : Nat) (f : Record → α) : Except DumpError α :=
  match s.heap.live r with
  | some record => .ok (f record)
  | none => .error (.access .runtimeError)

/-- Answering a request, where `sem` answers the commands of the operations. -/
def serve (s : Memory) : (q : Request) → Except DumpError (Reply q) → Memory → Prop
  | .resolve t k, answer, u =>
    ∃ result, Runs sem s (record t k) u result ∧ answer = result.mapError .access
  | .field r key, answer, u =>
    ∃ result, Runs sem s (getField parseDecimal r key) u result ∧ answer = result.mapError .access
  | .identity r, answer, u => u = s ∧ answer = s.ofRecord r Record.identity
  | .keys r, answer, u => u = s ∧ answer = s.ofRecord r fun record => record.raw.keys
  | .drop r, answer, u =>
    u = { s with heap := s.heap.release (s.heap.roots.erase r) } ∧ answer = .ok ()

variable {sem}

/-- Every request can be answered. -/
theorem serve_serial (h : ∀ s c, ∃ answer t, sem s c answer t) (s : Memory) (q : Request) :
    ∃ answer u, serve sem parseDecimal s q answer u := by
  cases q with
  | resolve t k =>
    obtain ⟨u, result, hr⟩ := exists_runs sem h (record t k) s
    exact ⟨_, u, result, hr, rfl⟩
  | field r key =>
    obtain ⟨u, result, hr⟩ := exists_runs sem h (getField parseDecimal r key) s
    exact ⟨_, u, result, hr, rfl⟩
  | identity r => exact ⟨_, s, rfl, rfl⟩
  | keys r => exact ⟨_, s, rfl, rfl⟩
  | drop r => exact ⟨_, _, rfl, rfl⟩

end

/-! ## What operations keep -/

section
variable {parseDecimal : PyStr → Option PyStr} {s u : Memory}

/-- A command runs after a collection. -/
theorem wp_ask_shrunk {c : Command} {post : Answer c → Memory → Prop} {exn : Error → Memory → Prop}
    (h : ∀ heap, Shrunk s.heap heap → ∀ answer t, exec { s with heap := heap } c answer t →
      Ends post exn t answer) : wp step (ask c) post exn s := by
  rw [ask, wp_perform]
  constructor
  · rintro a t ⟨heap, hc, he⟩
    exact h heap (shrunk_of_collected hc) (.ok a) t he
  · rintro e t ⟨heap, hc, he⟩
    exact h heap (shrunk_of_collected hc) (.error e) t he

/-- A record found or made is held once more. -/
theorem recordFromRaw_roots (s : Memory) (raw : Dict PyStr Value) :
    wp step (recordFromRaw raw) (fun r u => u.heap.roots = r :: s.heap.roots)
      (fun _ _ => True) s := by
  unfold recordFromRaw
  cases recordIdentity raw with
  | error e => exact trivial
  | ok identity =>
    show wp step (internRecord raw identity) _ _ s
    rw [internRecord, wp_bind]
    refine wp_ask_shrunk fun heap hs answer t he => ?_
    obtain ⟨rfl, rfl⟩ := he
    show wp step _ _ _ _
    cases hl : heap.lookup identity with
    | some r =>
      show r :: heap.roots = r :: s.heap.roots
      rw [hs.roots]
    | none =>
      simp only [Option.elim_none]
      rw [wp_bind, newRecord]
      cases initRecord raw with
      | error e => exact trivial
      | ok record =>
        refine wp_ask_shrunk fun heap' hs' answer' t' he' => ?_
        obtain ⟨rfl, rfl⟩ := he'
        show wp step (ask _ >>= _) _ _ _
        rw [wp_bind]
        refine wp_ask_shrunk fun heap'' hs'' answer'' t'' he'' => ?_
        obtain ⟨rfl, rfl⟩ := he''
        show heap''.roots = heap'.fresh :: s.heap.roots
        rw [hs''.roots, ← hs.roots, ← hs'.roots]
        rfl

theorem record_roots (s : Memory) (t k : Int) :
    wp step (record t k) (fun r u => u.heap.roots = r :: s.heap.roots) (fun _ _ => True) s := by
  rw [record, wp_bind]
  refine wp_ask_shrunk fun heap hs answer u he => ?_
  obtain ⟨rfl, rfl⟩ := he
  show wp step _ _ _ _
  cases hl : heap.lookup (t, k) with
  | some r =>
    show r :: heap.roots = r :: s.heap.roots
    rw [hs.roots]
  | none =>
    simp only [Option.elim_none]
    rw [wp_bind, withNativeErrors, wp_tryCatch]
    refine wp_ask_shrunk fun heap' hs' answer' u' he' => ?_
    cases he'
    cases answer' with
    | error e => exact trivial
    | ok raw =>
      refine wp_mono (recordFromRaw_roots _ raw) (fun r v hv => ?_) fun _ _ _ => trivial
      rw [hv, ← hs.roots, ← hs'.roots]

/-- The commands of a field read. -/
def Command.OfField : Command → Prop
  | .getConverted _ _ | .getRaw _ _ | .setConverted _ _ _ => True
  | _ => False

theorem getField_ofField (r : Nat) (key : PyStr) :
    (getField parseDecimal r key).Only Command.OfField := by
  refine Only.bind (Only.perform trivial) fun cached => ?_
  cases cached with
  | some converted => exact trivial
  | none =>
    refine Only.bind (Only.perform trivial) fun raw => ?_
    cases raw with
    | none => exact trivial
    | some value =>
      dsimp only
      cases convertField parseDecimal key value with
      | error e => exact trivial
      | ok converted => exact Only.bind (Only.perform trivial) fun _ => trivial

theorem setConverted_roots (s : Memory) (r : Nat) (key : PyStr) (value : Converted) :
    (s.setConverted r key value).heap.roots = s.heap.roots := by
  unfold Memory.setConverted
  split
  · rfl
  · rfl

theorem ofField_roots {roots : List Nat} (s : Memory) (c : Command)
    (answer : Except Error (Answer c)) (t : Memory) (hc : c.OfField) (h : step s c answer t)
    (hs : s.heap.roots = roots) : t.heap.roots = roots := by
  obtain ⟨heap, hcol, he⟩ := h
  have hheap : heap.roots = roots := (shrunk_of_collected hcol).roots.trans hs
  cases c with
  | setConverted r key value =>
    rw [he.2, setConverted_roots]
    exact hheap
  | getConverted r key =>
    rw [he.2]
    exact hheap
  | getRaw r key =>
    rw [he.2]
    exact hheap
  | _ => exact hc.elim

/-- What a part of `to_dict` leaves as it was. -/
structure Advances (parseDecimal : PyStr → Option PyStr) (s u : Memory) : Prop where
  reachable : Reachable parseDecimal u
  roots : u.heap.roots = s.heap.roots
  kept : Kept Record.Grows s.heap u.heap

theorem Advances.refl (hs : Reachable parseDecimal s) : Advances parseDecimal s s :=
  ⟨hs, rfl, Kept.refl _⟩

theorem Advances.trans {v : Memory} (h : Advances parseDecimal s u) (h' : Advances parseDecimal u v) :
    Advances parseDecimal s v :=
  ⟨h'.reachable, h'.roots.trans h.roots, h.kept.trans h'.kept⟩

/-- Resolving a link holds one more record, or raises what the native answer surfaces as. -/
theorem resolve_run (hs : Reachable parseDecimal s) {t k : Int} {result : Except Error Nat}
    (hrun : Runs step s (record t k) u result) :
    Reachable parseDecimal u ∧ Kept Record.Grows s.heap u.heap ∧
      Ends (fun r u => u.heap.roots = r :: s.heap.roots ∧ ∃ identity, Yields u r identity ∧
          (identity = (t, k) ∨ ∃ raw, u.answers = s.answers ++ [.ok raw] ∧
            recordIdentity raw = .ok identity))
        (fun e u => ∃ answer, u.answers = s.answers ++ [answer] ∧ surface answer = .error e)
        u result := by
  have hroots := (wp_iff_runs _ _ _ _ _).mp (record_roots s t k) u result hrun
  have hspec : wp step (record t k)
      (fun r v => (∃ new, Stage parseDecimal s new none v) ∧ ∃ identity, Yields v r identity ∧
        (identity = (t, k) ∨ ∃ raw, v.answers = s.answers ++ [.ok raw] ∧
          recordIdentity raw = .ok identity))
      (fun e v => (∃ new, Stage parseDecimal s new none v) ∧
        ∃ answer, v.answers = s.answers ++ [answer] ∧ surface answer = .error e) s := by
    refine (reachable_inv hs).start.wp_record t k (fun r v hv hy => ?_)
      (fun _ raw identity r v hi hv hy => ?_) fun _ answer e v he hv => ?_
    · exact ⟨⟨_, hv⟩, _, hy, Or.inl rfl⟩
    · exact ⟨⟨_, hv⟩, _, hy, Or.inr ⟨raw, hv.answers, hi⟩⟩
    · exact ⟨⟨_, hv⟩, answer, hv.answers, he⟩
  have hends := (wp_iff_runs _ _ _ _ _).mp hspec u result hrun
  cases result with
  | ok r =>
    obtain ⟨⟨_, hstage⟩, hyields⟩ := hends
    have hmoves : Moves parseDecimal s u :=
      .op (.resolve t k) trivial (hrun.bind (Runs.done u (.ok (Output.record r))))
    exact ⟨hs.tail hmoves, hstage.kept, hroots, hyields⟩
  | error e =>
    obtain ⟨⟨_, hstage⟩, hanswer⟩ := hends
    have hmoves : Moves parseDecimal s u := .op (.resolve t k) trivial (hrun.bind_error _)
    exact ⟨hs.tail hmoves, hstage.kept, hanswer⟩

/-- Reading a field gives the conversion of the raw value, or raises. -/
theorem field_run_keeps (hs : Reachable parseDecimal s) {r : Nat} (hr : r ∈ s.heap.roots)
    {record : Record} (hl : s.heap.live r = some record) {raw : Dict PyStr Value}
    (hraw : record.raw = fieldsOf raw) {key : PyStr} {result : Except Error Converted}
    (hrun : Runs step s (getField parseDecimal r key) u result) :
    readField parseDecimal raw key = result ∧ u.answers = s.answers ∧ Advances parseDecimal s u := by
  have hspec : wp step (getField parseDecimal r key)
      (fun v w => readField parseDecimal raw key = .ok v ∧ Stage parseDecimal s [] none w)
      (fun e w => readField parseDecimal raw key = .error e ∧ Stage parseDecimal s [] none w) s :=
    (reachable_inv hs).start.wp_getField hr hl hraw key (fun _ _ hv hw => ⟨hv, hw⟩)
      fun _ _ he hw => ⟨he, hw⟩
  have honly : (getField parseDecimal r key).Only Command.OfField := getField_ofField r key
  have hroots := wp_of_only ofField_roots honly (rfl : s.heap.roots = s.heap.roots)
  have hends := (wp_iff_runs _ _ _ _ _).mp hspec u result hrun
  have hends' := (wp_iff_runs _ _ _ _ _).mp hroots u result hrun
  cases result with
  | ok v =>
    have hmoves : Moves parseDecimal s u :=
      .op (.field r key) hr (hrun.bind (Runs.done u (.ok (Output.value v))))
    exact ⟨hends.1, by rw [hends.2.answers, List.append_nil], hs.tail hmoves, hends', hends.2.kept⟩
  | error e =>
    have hmoves : Moves parseDecimal s u := .op (.field r key) hr (hrun.bind_error _)
    exact ⟨hends.1, by rw [hends.2.answers, List.append_nil], hs.tail hmoves, hends', hends.2.kept⟩

/-- A resolved record is dropped after use. -/
theorem Advances.drop {v : Memory} {r : Nat} (hu : Kept Record.Grows s.heap u.heap)
    (hroots : u.heap.roots = r :: s.heap.roots) (hv : Advances parseDecimal u v) :
    Advances parseDecimal s { v with heap := v.heap.release (v.heap.roots.erase r) } := by
  have herase : v.heap.roots.erase r = s.heap.roots := by
    rw [hv.roots, hroots, List.erase_cons_head]
  refine ⟨hv.reachable.tail (.release _ List.erase_subset), herase, ?_⟩
  exact ⟨fun r' hr' => herase ▸ hr', (hu.trans hv.kept).live⟩

end

end Pyrealm.Reader
