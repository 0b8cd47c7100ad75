import Pyrealm.Reader.Collections
import Pyrealm.Reader.Plain
import Pyrealm.Reader.Tables

/-!
# The plain form without link expansion

Every value that the native layer and `Realm._convert` can give has a plain form
made of what JSON has, and `decodePlain` reads the value back from it: a
dictionary whose first key starts with `$` is one of the tags, any other is user data.

    decodePlain (plain form of v) = v          (plain_form_decodes)

* `decodeTag_reference`, `uuidBytes_uuidString`: what the tags carry reads back.
-/

namespace Pyrealm.Reader

open Py Effects Indexes

/-! ## JSON -/

mutual

/-- Only `None`, `bool`, `int`, `float`, `str`, lists and string-keyed dictionaries. -/
def Plain.Json : Plain → Prop
  | .value .none | .value (.bool _) | .value (.int _) | .value (.float _) | .value (.str _) => True
  | .value _ => False
  | .list items => JsonItems items
  | .dict entries => JsonEntries entries

def JsonItems : List Plain → Prop
  | [] => True
  | item :: items => item.Json ∧ JsonItems items

def JsonEntries : List (PyStr × Plain) → Prop
  | [] => True
  | (_, item) :: entries => item.Json ∧ JsonEntries entries

end

/-! ## Decoding -/

/-- The bytes of a UUID from its text. -/
def uuidBytes (text : PyStr) : Bytes := unhexlify (text.filter (· ≠ '-'))

/-- A key that user data does not have. -/
def Dollar (key : PyStr) : Prop := key.head? = some '$'

instance (key : PyStr) : Decidable (Dollar key) := inferInstanceAs (Decidable (_ = _))

/-- The first key is a tag. -/
def Tagged : List (PyStr × Plain) → Prop
  | [] => False
  | (key, _) :: _ => Dollar key

instance : (entries : List (PyStr × Plain)) → Decidable (Tagged entries)
  | [] => .isFalse id
  | (key, _) :: _ => inferInstanceAs (Decidable (Dollar key))

section
variable (realm : RealmSchema)

/-- The value of a tagged text. -/
def decodeText (tag text : PyStr) : Option Converted :=
  if tag = "$objectId".toList then some (.objectId text)
  else if tag = "$decimal128".toList then some (.decimal text)
  else if tag = "$binary".toList then some (.bytes (b64decode text))
  else if tag = "$uuid".toList then some (.uuid (uuidBytes text))
  else none

/-- The value of a tagged dictionary. -/
def decodeTag : List (PyStr × Plain) → Option Converted
  | [(tag, .value (.str text))] => decodeText tag text
  | [(tag, .dict [(_, .value (.str table)), (_, .value (.int key))])] =>
    if tag = "$ref".toList then
      match realm.table table with
      | .ok schema => some (.link schema.key key)
      | .error _ => none
    else none
  | [(tag, .dict [(_, .value (.int s)), (_, .value (.int ns))])] =>
    if tag = "$timestamp".toList then some (.timestamp s ns) else none
  | _ => none

mutual

/-- The value that has this plain form. -/
def decodePlain : Plain → Option Converted
  | .value v => some v
  | .list items => (decodeItems items).map .tuple
  | .dict entries =>
    if Tagged entries then decodeTag realm entries else (decodeEntries entries).map .dict

def decodeItems : List Plain → Option (List Converted)
  | [] => some []
  | item :: items => do
    let v ← decodePlain item
    let vs ← decodeItems items
    some (v :: vs)

def decodeEntries : List (PyStr × Plain) → Option (List (PyStr × Converted))
  | [] => some []
  | (key, item) :: entries => do
    let v ← decodePlain item
    let vs ← decodeEntries entries
    some ((key, v) :: vs)

end

/-! ## What is exported -/

mutual

/-- A value that the native layer can give: no set (`object_to_dict` gives lists),
links to known tables, and no key of a dictionary that starts as a tag does. -/
def Value.Exportable : Value → Prop
  | .link t _ => ∃ name, realm.tableName t = .ok name
  | .list items => ExportableItems items
  | .set _ => False
  | .dict entries => ExportableEntries entries
  | _ => True

def ExportableItems : List Value → Prop
  | [] => True
  | item :: items => item.Exportable ∧ ExportableItems items

def ExportableEntries : List (PyStr × Value) → Prop
  | [] => True
  | (key, item) :: entries => ¬ Dollar key ∧ item.Exportable ∧ ExportableEntries entries

end

end

/-! ## Tags -/

theorem uuidBytes_uuidString (bytes : Bytes) : uuidBytes (uuidString bytes) = bytes := by
  have hkeep : ∀ text : PyStr, (∀ c ∈ text, c ∈ hexlify bytes) → text.filter (· ≠ '-') = text := by
    intro text htext
    rw [List.filter_eq_self]
    intro c hc
    have hdash : '-' ∉ hexDigits := by decide
    refine decide_eq_true fun heq => hdash ?_
    rw [← heq]
    exact hexlify_subset bytes c (htext c hc)
  have hjoin : ∀ text : PyStr, text.take 8 ++ ((text.drop 8).take 4 ++ ((text.drop 12).take 4 ++
      ((text.drop 16).take 4 ++ text.drop 20))) = text := by
    intro text
    rw [show text.drop 20 = (text.drop 16).drop 4 by rw [List.drop_drop], List.take_append_drop,
      show text.drop 16 = (text.drop 12).drop 4 by rw [List.drop_drop], List.take_append_drop,
      show text.drop 12 = (text.drop 8).drop 4 by rw [List.drop_drop], List.take_append_drop,
      List.take_append_drop]
  have hmem : ∀ m n, ∀ c ∈ ((hexlify bytes).drop m).take n, c ∈ hexlify bytes :=
    fun m n c hc => List.mem_of_mem_drop (List.mem_of_mem_take hc)
  have htext : (uuidString bytes).filter (· ≠ '-') = hexlify bytes := by
    have hdash : ∀ text : PyStr, ('-' :: text).filter (· ≠ '-') = text.filter (· ≠ '-') :=
      fun text => List.filter_cons_of_neg (by decide)
    unfold uuidString
    simp only [List.append_assoc, List.cons_append, List.filter_append, hdash]
    rw [hkeep _ fun c hc => List.mem_of_mem_take hc, hkeep _ (hmem 8 4), hkeep _ (hmem 12 4),
      hkeep _ (hmem 16 4), hkeep _ fun c hc => List.mem_of_mem_drop hc, hjoin]
  rw [uuidBytes, htext, unhexlify_hexlify]

theorem decodePlain_dollar (realm : RealmSchema) {tag : PyStr} (h : Dollar tag) (body : Plain) :
    decodePlain realm (.dict [(tag, body)]) = decodeTag realm [(tag, body)] := by
  rw [decodePlain, if_pos (show Tagged [(tag, body)] from h)]

/-- A reference to a table of this name. -/
theorem decodePlain_reference {realm : RealmSchema} {table : PyStr} {schema : TableSchema}
    (h : realm.table table = .ok schema) (key : Int) :
    decodePlain realm (reference table key) = some (.link schema.key key) := by
  rw [reference, decodePlain_dollar realm (by decide), decodeTag, if_pos rfl, h]

/-- The name of a table key leads back to it. -/
def NamesLeadBack (realm : RealmSchema) : Prop :=
  ∀ t name, realm.tableName t = .ok name → ∃ schema, realm.table name = .ok schema ∧ schema.key = t

theorem namesLeadBack_of_nodup {native : NativeSchema} {realm : RealmSchema}
    (h : initRealm native = .ok realm) (hu : (realm.schema.map TableSchema.name).Nodup) :
    NamesLeadBack realm := by
  intro t name hn
  rw [initRealm, bind_eq_ok_iff] at h
  obtain ⟨schemas, -, h⟩ := h
  cases h
  rw [RealmSchema.tableName, get?_foldl_set_key] at hn
  cases hlast : lastOf TableSchema.key t schemas with
  | none =>
    rw [hlast] at hn
    cases hn
  | some schema =>
    rw [hlast] at hn
    cases hn
    have hm := mem_of_lastOf hlast
    obtain ⟨found, hfound⟩ : ∃ found, lastOf TableSchema.name schema.name schemas = some found :=
      exists_lastOf hm
    have hsame : found = schema :=
      List.inj_on_of_nodup_map hu (mem_of_lastOf hfound) hm (key_of_lastOf hfound)
    refine ⟨schema, ?_, key_of_lastOf hlast⟩
    rw [RealmSchema.table, get?_foldl_set_key, hfound, hsame]

/-! ## Values -/

section
variable {parseDecimal : PyStr → Option PyStr} {realm : RealmSchema}

/-- The plain form is JSON, and the value reads back. -/
structure Exports (realm : RealmSchema) (c : Converted) (p : Plain) : Prop where
  json : p.Json
  decodes : decodePlain realm p = some c

/-- The values without parts, links apart. -/
def Converted.Simple : Converted → Prop
  | .link _ _ | .tuple _ | .frozenset _ | .dict _ => False
  | _ => True

theorem exports_scalar (realm : RealmSchema) (c : Converted) (h : c.Simple) :
    Exports realm c (plainScalar c) := by
  have htext : ∀ {tag : PyStr} (text : PyStr), Dollar tag →
      decodePlain realm (.dict [(tag, .value (.str text))]) = decodeText tag text := by
    intro tag text htag
    rw [decodePlain_dollar realm htag, decodeTag]
  cases c with
  | timestamp s ns =>
    refine ⟨⟨⟨trivial, trivial, trivial⟩, trivial⟩, ?_⟩
    rw [plainScalar, decodePlain_dollar realm (by decide)]
    rfl
  | objectId text =>
    refine ⟨⟨trivial, trivial⟩, ?_⟩
    rw [plainScalar, tagged, htext _ (by decide), decodeText, if_pos rfl]
  | decimal text =>
    refine ⟨⟨trivial, trivial⟩, ?_⟩
    rw [plainScalar, tagged, htext _ (by decide), decodeText, if_neg (by decide), if_pos rfl]
  | bytes data =>
    refine ⟨⟨trivial, trivial⟩, ?_⟩
    rw [plainScalar, tagged, htext _ (by decide), decodeText, if_neg (by decide),
      if_neg (by decide), if_pos rfl, b64decode_b64encode]
  | uuid bytes =>
    refine ⟨⟨trivial, trivial⟩, ?_⟩
    rw [plainScalar, tagged, htext _ (by decide), decodeText, if_neg (by decide),
      if_neg (by decide), if_neg (by decide), if_pos rfl, uuidBytes_uuidString]
  | link t k => exact h.elim
  | tuple items => exact h.elim
  | frozenset items => exact h.elim
  | dict entries => exact h.elim
  | none => exact ⟨trivial, rfl⟩
  | int n => exact ⟨trivial, rfl⟩
  | bool b => exact ⟨trivial, rfl⟩
  | float bits => exact ⟨trivial, rfl⟩
  | str text => exact ⟨trivial, rfl⟩

theorem plainValue_simple (follow : Int → Int → Seen → Dump (Plain × Seen)) (c : Converted)
    (h : c.Simple) (seen : Seen) : plainValue follow c seen = pure (plainScalar c, seen) := by
  cases c with
  | link t k => exact h.elim
  | tuple items => exact h.elim
  | frozenset items => exact h.elim
  | dict entries => exact h.elim
  | _ => simp only [plainValue]

/-- Without expansion a link is a reference, however deep. -/
theorem linkToPlain_false (depth : Nat) {t k : Int} {name : PyStr}
    (h : realm.tableName t = .ok name) (seen : Seen) :
    linkToPlain realm false depth t k seen = pure (reference name k, seen) := by
  cases depth with
  | zero =>
    rw [linkToPlain, linkReference, h]
    rfl
  | succ depth =>
    rw [linkToPlain, if_neg Bool.false_ne_true, linkReference, h]
    rfl

/-- User data is not taken for a tag. -/
theorem not_tagged {entries : List (PyStr × Plain)} (h : ∀ e ∈ entries, ¬ Dollar e.1) :
    ¬ Tagged entries := by
  cases entries with
  | nil => exact id
  | cons e entries => exact h e List.mem_cons_self

mutual

/-- **A value that can be exported reads back from its plain form.** -/
theorem value_exports (hr : NamesLeadBack realm) (depth : Nat) : ∀ {value : Value} {c : Converted},
    value.Exportable realm → convert parseDecimal value = .ok c →
    ∃ p, (∀ seen, plainValue (linkToPlain realm false depth) c seen = pure (p, seen)) ∧
      Exports realm c p
  | .link t k, c, hx, hc => by
    cases hc
    obtain ⟨name, hname⟩ := hx
    obtain ⟨schema, hschema, rfl⟩ := hr t name hname
    refine ⟨reference name k, fun seen => ?_, ⟨⟨trivial, trivial, trivial⟩, trivial⟩,
      decodePlain_reference hschema k⟩
    rw [plainValue, linkToPlain_false depth hname]
  | .list items, c, hx, hc => by
    obtain ⟨cs, hcs, rfl⟩ := convert_list hc
    obtain ⟨ps, hps, hjson, hdec⟩ := items_export hr depth hx hcs
    refine ⟨.list ps, fun seen => ?_, hjson, ?_⟩
    · rw [plainValue, hps]
      rfl
    · rw [decodePlain, hdec]
      rfl
  | .dict entries, c, hx, hc => by
    rw [convert, bind_eq_ok_iff] at hc
    obtain ⟨cs, hcs, hc⟩ := hc
    cases hc
    obtain ⟨ps, hps, hjson, hdec, hkeys⟩ := entries_export hr depth hx hcs
    refine ⟨.dict ps, fun seen => ?_, hjson, ?_⟩
    · rw [plainValue, hps]
      rfl
    · rw [decodePlain, if_neg (not_tagged hkeys), hdec]
      rfl
  | .decimal128 text, c, _, hc => by
    rw [convert] at hc
    split at hc
    · cases hc
      exact ⟨_, plainValue_simple _ _ trivial, exports_scalar realm _ trivial⟩
    · cases hc
  | .set _, _, hx, _ => hx.elim
  | .none, _, _, hc | .int _, _, _, hc | .bool _, _, _, hc | .float _, _, _, hc | .str _, _, _, hc
  | .bytes _, _, _, hc | .uuid _, _, _, hc | .timestamp _ _, _, _, hc | .objectId _, _, _, hc => by
    rw [convert] at hc
    cases hc
    exact ⟨_, plainValue_simple _ _ trivial, exports_scalar realm _ trivial⟩

theorem items_export (hr : NamesLeadBack realm) (depth : Nat) : ∀ {items : List Value}
    {cs : List Converted}, ExportableItems realm items → convertItems parseDecimal items = .ok cs →
    ∃ ps, (∀ seen, plainItems (linkToPlain realm false depth) cs seen = pure (ps, seen)) ∧
      JsonItems ps ∧ decodeItems realm ps = some cs
  | [], cs, _, hc => by
    cases hc
    exact ⟨[], fun seen => by rw [plainItems], trivial, by rw [decodeItems]⟩
  | item :: items, cs, hx, hc => by
    rw [convertItems, bind_eq_ok_iff] at hc
    obtain ⟨c, hitem, hc⟩ := hc
    rw [bind_eq_ok_iff] at hc
    obtain ⟨rest, hrest, hc⟩ := hc
    cases hc
    obtain ⟨p, hp, hexp⟩ := value_exports hr depth hx.1 hitem
    obtain ⟨ps, hps, hjson, hdec⟩ := items_export hr depth hx.2 hrest
    refine ⟨p :: ps, fun seen => ?_, ⟨hexp.json, hjson⟩, ?_⟩
    · rw [plainItems, hp]
      show (plainItems _ rest seen >>= _) = _
      rw [hps]
      rfl
    · rw [decodeItems, hexp.decodes, hdec]
      rfl

theorem entries_export (hr : NamesLeadBack realm) (depth : Nat) :
    ∀ {entries : List (PyStr × Value)} {cs : List (PyStr × Converted)},
    ExportableEntries realm entries → convertEntries parseDecimal entries = .ok cs →
    ∃ ps, (∀ seen, plainEntries (linkToPlain realm false depth) cs seen = pure (ps, seen)) ∧
      JsonEntries ps ∧ decodeEntries realm ps = some cs ∧ ∀ e ∈ ps, ¬ Dollar e.1
  | [], cs, _, hc => by
    cases hc
    exact ⟨[], fun seen => by rw [plainEntries], trivial, by rw [decodeEntries],
      List.forall_mem_nil _⟩
  | (key, item) :: entries, cs, hx, hc => by
    rw [convertEntries, bind_eq_ok_iff] at hc
    obtain ⟨c, hitem, hc⟩ := hc
    rw [bind_eq_ok_iff] at hc
    obtain ⟨rest, hrest, hc⟩ := hc
    cases hc
    obtain ⟨hkey, hxi, hxs⟩ := hx
    obtain ⟨p, hp, hexp⟩ := value_exports hr depth hxi hitem
    obtain ⟨ps, hps, hjson, hdec, hkeys⟩ := entries_export hr depth hxs hrest
    refine ⟨(key, p) :: ps, fun seen => ?_, ⟨hexp.json, hjson⟩, ?_,
      List.forall_mem_cons.mpr ⟨hkey, hkeys⟩⟩
    · rw [plainEntries, hp]
      show (plainEntries _ rest seen >>= _) = _
      rw [hps]
      rfl
    · rw [decodeEntries, hexp.decodes, hdec]
      rfl

end

end

/-- **The plain form without expansion is JSON and reads back**, by one function of the
schema: for every value that can be exported, in every state, with nothing asked of
the native layer; and no other value has the same plain form. -/
theorem plain_form_decodes (parseDecimal : PyStr → Option PyStr) {native : NativeSchema}
    {realm : RealmSchema} (h : initRealm native = .ok realm)
    (hu : (realm.schema.map TableSchema.name).Nodup)
    (sem : Memory → (c : Command) → Except Error (Answer c) → Memory → Prop) (depth : Nat)
    {value : Value} {c : Converted} (hx : value.Exportable realm)
    (hc : convert parseDecimal value = .ok c) :
    ∃ p : Plain, (∀ seen s u result,
        Runs (serve sem parseDecimal) s (plainValue (linkToPlain realm false depth) c seen) u result ↔
          u = s ∧ result = .ok (p, seen)) ∧
      p.Json ∧ decodePlain realm p = some c ∧
      ∀ value' c' seen s u, Value.Exportable realm value' → convert parseDecimal value' = .ok c' →
        Runs (serve sem parseDecimal) s (plainValue (linkToPlain realm false depth) c' seen) u
          (.ok (p, seen)) → c' = c := by
  have hr := namesLeadBack_of_nodup h hu
  have hruns : ∀ {c : Converted} {p : Plain},
      (∀ seen, plainValue (linkToPlain realm false depth) c seen = pure (p, seen)) →
      ∀ seen s u result, Runs (serve sem parseDecimal) s
        (plainValue (linkToPlain realm false depth) c seen) u result ↔
          u = s ∧ result = .ok (p, seen) := by
    intro c p hp seen s u result
    rw [hp]
    constructor
    · intro hrun
      cases hrun
      exact ⟨rfl, rfl⟩
    · rintro ⟨rfl, rfl⟩
      exact .done _ _
  obtain ⟨p, hp, hexp⟩ := value_exports hr depth hx hc
  refine ⟨p, hruns hp, hexp.json, hexp.decodes, fun value' c' seen s u hx' hc' hrun => ?_⟩
  obtain ⟨p', hp', hexp'⟩ := value_exports hr depth hx' hc'
  obtain ⟨-, he⟩ := (hruns hp' _ _ _ _).mp hrun
  cases he
  exact Option.some.inj (hexp'.decodes.symm.trans hexp.decodes)

/-- A link, two bytes and a timestamp, under a key. -/
def tinyValue : Value :=
  .dict [("all".toList, .list [.link 1 3, .bytes [255, 0], .timestamp 5 (-1)])]

def tinyConverted : Converted :=
  .dict [("all".toList, .tuple [.link 1 3, .bytes [255, 0], .timestamp 5 (-1)])]

theorem plain_form_decodes_tiny : ∃ p : Plain, p.Json ∧
    decodePlain (plainRealm [("Person".toList, 1)]) p = some tinyConverted := by
  have hx : tinyValue.Exportable (plainRealm [("Person".toList, 1)]) :=
    ⟨by decide, ⟨⟨"Person".toList, rfl⟩, trivial, trivial, trivial⟩, trivial⟩
  obtain ⟨p, -, hjson, hdec, -⟩ := plain_form_decodes (fun _ => none)
    (initRealm_plain [("Person".toList, 1)]) (List.nodup_singleton _) step 0 hx
    (c := tinyConverted) rfl
  exact ⟨p, hjson, hdec⟩

end Pyrealm.Reader
