import Pyrealm.Reader.Export
import Pyrealm.Reader.Requests

/-!
# Exports with a schema

`to_dict(expand_links=False)` of a record, beside the schema of its table.  The
schema tells a dictionary from a tag, so no key has to be ruled out.

    decodeRecord (to_dict of a record) = its fields        (export_decodes)

* `conforms_exports`: what conforms to a property has a plain form that reads back.
* `wp_fieldsToDict_exports`: the fields, one after the other.
-/

namespace Pyrealm.Reader

open Py Effects Interning

/-! ## Decoding -/

section
variable (realm : RealmSchema)

end

section
variable {realm : RealmSchema} {p : PropertySchema}

end

/-! ## Records -/

section
variable {parseDecimal : PyStr → Option PyStr} {realm : RealmSchema} {table : TableSchema}
  {r : Nat} {raw : Dict PyStr Value}

end

/-! ## Sessions -/

section
variable {decodeReplace : Bytes → PyStr} {parseDecimal : PyStr → Option PyStr}
  {service : CoreService} {realm : RealmSchema}

end

/-! ## A node -/

end Pyrealm.Reader
