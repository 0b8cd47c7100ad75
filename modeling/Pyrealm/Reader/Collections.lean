import Mathlib.Data.List.Forall2
import Pyrealm.Reader.Identity

/-!
# Collections through both layers

`collection_to_python` and `dictionary_to_python` choose a Python container from
the schema; `Realm._convert` chooses again from what arrived.

    the field is what its schema says  ↔  its collection is not a set      (field_consistent_iff)

* `field_of_last`: the field of a name holds the last visible property of that name.
* `convertsTo_items`, `convertsTo_found`: elements through both layers.

A set arrives as a `list`, so the `set` branch of `Realm._convert` is never taken.
-/

namespace Pyrealm.Reader

open Py Effects Indexes Interning

section
variable (decodeReplace : Bytes → PyStr) (parseDecimal : PyStr → Option PyStr)

/-! ## What the schema says -/

/-- What one element reads as, through both layers. -/
def ConvertsTo (value : CoreValue) (converted : Converted) : Prop :=
  ∃ v, valueToPython decodeReplace value = .ok v ∧ convert parseDecimal v = .ok converted

/-- The entries of a Realm dictionary under the keys Python sees. -/
def decodedEntries (elements : List (Bytes × CoreValue)) : List (PyStr × CoreValue) :=
  elements.map fun e => (decodeReplace e.1, e.2)

/-- `v` is what the collection type of the property says, made of the property's
own elements: a tuple in their order, a frozenset of them, a dictionary that has
the last element of every key, or the one converted value. -/
def Consistent (object : CoreObject) (property : PropertyMeta) (v : Converted) : Prop :=
  match property.collectionType with
  | .list => ∃ items converted, object.getList property.key = .ok items ∧
      List.Forall₂ (ConvertsTo decodeReplace parseDecimal) items converted ∧ v = .tuple converted
  | .set => ∃ items converted, object.getSet property.key = .ok items ∧
      (∀ c, c ∈ converted ↔ ∃ item ∈ items, ConvertsTo decodeReplace parseDecimal item c) ∧
      v = .frozenset converted
  | .dictionary => ∃ elements entries, object.getDictionary property.key = .ok elements ∧
      (∀ key, Option.Rel (ConvertsTo decodeReplace parseDecimal)
        (Dict.lookupItem key (decodedEntries decodeReplace elements).reverse)
        (Dict.lookupItem key entries)) ∧
      v = .dict entries
  | .none => ∃ value, object.getValue property.key = .ok value ∧
      ConvertsTo decodeReplace parseDecimal value v

/-- The record's field of this name is this property: the last visible one of the
name, which is none of the metadata's. -/
structure FieldOf (classMeta : ClassMeta) (property : PropertyMeta) (name : PyStr) : Prop where
  last : lastOf PropertyMeta.name (encodeUtf8 name) (visible classMeta) = some property
  unreserved : name ≠ TABLE_KEY ∧ name ≠ OBJECT_KEY

/-- The caller holds a record made of this raw dictionary. -/
structure HoldsRecord (s : Memory) (r : Nat) (raw : Dict PyStr Value) : Prop where
  held : r ∈ s.heap.roots
  live : ∃ record, s.heap.live r = some record ∧ record.raw = fieldsOf raw

variable {decodeReplace parseDecimal}

theorem HoldsRecord.kept {s u : Memory} {r : Nat} {raw : Dict PyStr Value} (h : HoldsRecord s r raw)
    (hk : Kept Record.Grows s.heap u.heap) : HoldsRecord u r raw := by
  obtain ⟨record, hl, hraw⟩ := h.live
  obtain ⟨record', hl', hf⟩ := hk.live r h.held record hl
  exact ⟨hk.roots h.held, record', hl', (congrArg Prod.snd hf.fixed).trans hraw⟩

/-- A record that somebody holds was made of some raw dictionary. -/
theorem holdsRecord_of_yields {s : Memory} (hs : Reachable parseDecimal s) {r : Nat}
    {identity : Int × Int} (hy : Yields s r identity) : ∃ raw, HoldsRecord s r raw := by
  obtain ⟨record, hl, -⟩ := hy.live
  obtain ⟨raw, -, -, hraw⟩ := ((reachable_inv hs).sound r record hl).source
  exact ⟨raw, hy.held, record, hl, hraw⟩

/-- **The field of a name** holds the last visible property of that name. -/
theorem field_of_last {object : CoreObject} {classMeta : ClassMeta} {raw : Dict PyStr Value}
    (h : objectToDict decodeReplace object classMeta = .ok raw) {property : PropertyMeta}
    {name : PyStr} (hp : FieldOf classMeta property name) :
    ∃ value, propertyToPython decodeReplace object property = .ok value ∧
      (fieldsOf raw).get? name = some value := by
  obtain ⟨value, hv, hget⟩ := get?_of_last h hp.last
  refine ⟨value, hv, ?_⟩
  rw [get?_fieldsOf, if_neg (not_or.mpr hp.unreserved)]
  exact hget

/-! ## Elements through both layers -/

/-- The items of a list, in order. -/
theorem convertsTo_items {items : List CoreValue} {values : List Value} {converted : List Converted}
    (hv : items.mapM (valueToPython decodeReplace) = .ok values)
    (hc : convertItems parseDecimal values = .ok converted) :
    List.Forall₂ (ConvertsTo decodeReplace parseDecimal) items converted := by
  induction items generalizing values converted with
  | nil =>
    cases hv
    cases hc
    exact .nil
  | cons item items ih =>
    rw [List.mapM_cons, bind_eq_ok_iff] at hv
    obtain ⟨value, hvalue, hv⟩ := hv
    rw [bind_eq_ok_iff] at hv
    obtain ⟨values', hvalues, hv⟩ := hv
    cases hv
    rw [convertItems, bind_eq_ok_iff] at hc
    obtain ⟨c, hconv, hc⟩ := hc
    rw [bind_eq_ok_iff] at hc
    obtain ⟨cs, hrest, hc⟩ := hc
    cases hc
    exact .cons ⟨value, hvalue, hconv⟩ (ih hvalues hrest)

/-- `dictionary_to_python` sets the entries in order. -/
theorem dictionaryToPython_eq_ok {elements : List (Bytes × CoreValue)} {value : Value}
    (h : dictionaryToPython decodeReplace (.ok elements) = .ok value) :
    ∃ d : Dict PyStr Value, value = .dict d.items ∧ ∀ key,
      Option.Rel (fun item v => valueToPython decodeReplace item = .ok v)
        (Dict.lookupItem key (decodedEntries decodeReplace elements).reverse) (d.get? key) := by
  rw [dictionaryToPython, ok_bind, bind_eq_ok_iff] at h
  obtain ⟨d, hd, h⟩ := h
  cases h
  have hentries : ∃ entries, List.Forall₂ (fun (x : Bytes × CoreValue) (y : PyStr × Value) =>
        decodeReplace x.1 = y.1 ∧ valueToPython decodeReplace x.2 = .ok y.2) elements entries ∧
      d = entries.foldl (fun d e => d.set e.1 e.2) Dict.empty := by
    refine Dict.foldlM_set (fun start e next hnext => ?_) hd
    rw [bind_eq_ok_iff] at hnext
    obtain ⟨v, hv, hnext⟩ := hnext
    cases hnext
    exact ⟨(decodeReplace e.1, v), ⟨rfl, hv⟩, rfl⟩
  obtain ⟨entries, hentries, rfl⟩ := hentries
  refine ⟨_, rfl, fun key => ?_⟩
  rw [Dict.get?_foldl_set, Dict.get?_empty, Option.or_none]
  refine lookupItem_rel (List.forall₂_reverse_iff.mpr ?_) key
  exact List.forall₂_map_left_iff.mpr hentries

theorem convertEntries_forall₂ {items : List (PyStr × Value)} {entries : List (PyStr × Converted)}
    (h : convertEntries parseDecimal items = .ok entries) :
    List.Forall₂ (fun x y => x.1 = y.1 ∧ convert parseDecimal x.2 = .ok y.2) items entries := by
  induction items generalizing entries with
  | nil =>
    cases h
    exact .nil
  | cons e items ih =>
    obtain ⟨key, item⟩ := e
    rw [convertEntries, bind_eq_ok_iff] at h
    obtain ⟨c, hc, h⟩ := h
    rw [bind_eq_ok_iff] at h
    obtain ⟨rest, hrest, h⟩ := h
    cases h
    exact .cons ⟨rfl, hc⟩ (ih hrest)

/-- What a key finds, through both layers. -/
theorem convertsTo_found {given : Option CoreValue} {found : Option Value} {final : Option Converted}
    (hv : Option.Rel (fun item v => valueToPython decodeReplace item = .ok v) given found)
    (hc : Option.Rel (fun v c => convert parseDecimal v = .ok c) found final) :
    Option.Rel (ConvertsTo decodeReplace parseDecimal) given final := by
  cases hv with
  | none =>
    cases hc
    exact .none
  | some hv =>
    cases hc with
    | some hc => exact .some ⟨_, hv, hc⟩

/-! ## Both layers -/

theorem convert_list {values : List Value} {v : Converted}
    (h : convert parseDecimal (.list values) = .ok v) :
    ∃ converted, convertItems parseDecimal values = .ok converted ∧ v = .tuple converted := by
  rw [convert, bind_eq_ok_iff] at h
  obtain ⟨converted, hc, h⟩ := h
  cases h
  exact ⟨converted, hc, rfl⟩

/-- A list and a set come out of the native layer alike. -/
theorem collectionToPython_eq_ok {items : Except Error (List CoreValue)} {value : Value}
    (h : collectionToPython decodeReplace items = .ok value) :
    ∃ elements values, items = .ok elements ∧
      elements.mapM (valueToPython decodeReplace) = .ok values ∧ value = .list values := by
  rw [collectionToPython, bind_eq_ok_iff] at h
  obtain ⟨elements, hi, h⟩ := h
  rw [bind_eq_ok_iff] at h
  obtain ⟨values, hv, h⟩ := h
  cases h
  exact ⟨elements, values, hi, hv, rfl⟩

/-- **One property through both layers.** -/
theorem consistent_iff {object : CoreObject} {property : PropertyMeta} {value : Value} {v : Converted}
    (hv : propertyToPython decodeReplace object property = .ok value)
    (hc : convert parseDecimal value = .ok v) :
    Consistent decodeReplace parseDecimal object property v ↔ property.collectionType ≠ .set := by
  unfold propertyToPython at hv
  unfold Consistent
  cases hcol : property.collectionType with
  | none =>
    simp only [hcol] at hv ⊢
    rw [bind_eq_ok_iff] at hv
    obtain ⟨item, hitem, hv⟩ := hv
    simp only [ne_eq, reduceCtorEq, not_false_eq_true, iff_true]
    exact ⟨item, hitem, value, hv, hc⟩
  | list =>
    simp only [hcol] at hv ⊢
    obtain ⟨items, values, hitems, hvalues, rfl⟩ := collectionToPython_eq_ok hv
    obtain ⟨converted, hconv, rfl⟩ := convert_list hc
    simp only [ne_eq, reduceCtorEq, not_false_eq_true, iff_true]
    exact ⟨items, converted, hitems, convertsTo_items hvalues hconv, rfl⟩
  | set =>
    simp only [hcol] at hv ⊢
    obtain ⟨items, values, -, -, rfl⟩ := collectionToPython_eq_ok hv
    obtain ⟨converted, -, rfl⟩ := convert_list hc
    -- a tuple is no frozenset
    simp only [ne_eq, not_true_eq_false, iff_false]
    rintro ⟨_, _, _, _, he⟩
    cases he
  | dictionary =>
    simp only [hcol] at hv ⊢
    cases hget : object.getDictionary property.key with
    | error e =>
      rw [hget] at hv
      cases hv
    | ok elements =>
      rw [hget] at hv
      obtain ⟨d, rfl, hd⟩ := dictionaryToPython_eq_ok hv
      rw [convert, bind_eq_ok_iff] at hc
      obtain ⟨entries, hentries, hc⟩ := hc
      cases hc
      simp only [ne_eq, reduceCtorEq, not_false_eq_true, iff_true]
      refine ⟨elements, entries, rfl, fun key => convertsTo_found (hd key) ?_, rfl⟩
      exact lookupItem_rel (convertEntries_forall₂ hentries) key

/-- **A field reads as its schema says in exactly the case of no set**: in any
state of any realm, for any property of the object whose field reads at all. -/
theorem field_consistent_iff {object : CoreObject} {classMeta : ClassMeta} {raw : Dict PyStr Value}
    (h : objectToDict decodeReplace object classMeta = .ok raw) {property : PropertyMeta}
    {name : PyStr} (hp : FieldOf classMeta property name) {s : Memory}
    (hs : Reachable parseDecimal s) {r : Nat} (hr : HoldsRecord s r raw) {t : Memory} {v : Converted}
    (hrun : Runs step s (getField parseDecimal r name) t (.ok v)) :
    Consistent decodeReplace parseDecimal object property v ↔ property.collectionType ≠ .set := by
  obtain ⟨record, hl, hraw⟩ := hr.live
  have hspec : wp step (getField parseDecimal r name)
      (fun v _ => readField parseDecimal raw name = .ok v) (fun _ _ => True) s :=
    (reachable_inv hs).start.wp_getField hr.held hl hraw name (fun v _ hv _ => hv)
      fun _ _ _ _ => trivial
  have hread : readField parseDecimal raw name = .ok v := (wp_iff_runs _ _ _ _ _).mp hspec t _ hrun
  obtain ⟨value, hvalue, hfield⟩ := field_of_last h hp
  rw [readField, hfield] at hread
  exact consistent_iff hvalue ((convertField_eq_ok_iff name value v).mp hread)

end

/-! ## One property -/

/-- The object of key 3, whose only property has the one element 1. -/
def tagsObject : CoreObject where
  key := 3
  getValue := fun _ => .ok (.int 1)
  getList := fun _ => .ok [.int 1]
  getSet := fun _ => .ok [.int 1]
  getDictionary := fun _ => .ok []

def tagsProperty (collectionType : CollectionType) : PropertyMeta :=
  ⟨encodeUtf8 "tags".toList, .int, collectionType, 0⟩

def tagsClass (collectionType : CollectionType) : ClassMeta := ⟨[], 5, [tagsProperty collectionType]⟩

def tagsRaw : Dict PyStr Value :=
  ((Dict.empty.set TABLE_KEY (.int 5)).set OBJECT_KEY (.int 3)).set "tags".toList (.list [.int 1])

/-- After one read of the object. -/
def tagsMemory : Memory where
  heap := (Heap.empty.allocate ⟨5, 3, fieldsOf tagsRaw, Dict.empty⟩).assign (5, 3) 0
  answers := [.ok tagsRaw]

theorem reachable_tags : Reachable (fun _ => none) tagsMemory := by
  have hi : recordIdentity tagsRaw = .ok (5, 3) := rfl
  exact reachable_first _ hi

theorem holdsRecord_tags : HoldsRecord tagsMemory 0 tagsRaw :=
  ⟨List.mem_singleton_self 0, _, rfl, rfl⟩

theorem field_tags : ∃ t, Runs step tagsMemory (getField (fun _ => none) 0 "tags".toList) t
    (.ok (.tuple [.int 1])) := by
  apply Exists.intro
  apply Runs.call (.ok none) ⟨_, .refl, rfl, rfl⟩
  apply Runs.call (.ok (some (.list [.int 1]))) ⟨_, .refl, rfl, rfl⟩
  apply Runs.call (.ok ()) ⟨_, .refl, rfl, rfl⟩
  exact Runs.done _ _

theorem fieldOf_tags (collectionType : CollectionType) :
    FieldOf (tagsClass collectionType) (tagsProperty collectionType) "tags".toList where
  last := by
    have hone : (visible (tagsClass collectionType)).reverse = [tagsProperty collectionType] := rfl
    rw [lastOf, hone, firstOf_cons]
    exact if_pos rfl
  unreserved := by decide

/-- The raw dictionary does not tell a list from a set. -/
theorem objectToDict_tags {collectionType : CollectionType}
    (h : collectionType = .list ∨ collectionType = .set) :
    objectToDict (fun _ => []) tagsObject (tagsClass collectionType) = .ok tagsRaw := by
  have hname : pyStr (encodeUtf8 "tags".toList) = .ok "tags".toList := (pyStr_eq_ok_iff _ _).mpr rfl
  rcases h with rfl | rfl
  all_goals
    simp only [objectToDict, tagsClass, tagsProperty, List.foldlM_cons, List.foldlM_nil,
      propertyToPython, hname, ok_bind, reduceCtorEq, if_false]
    rfl

/-- A list of one element. -/
theorem field_consistent_iff_tags : ∃ t,
    Runs step tagsMemory (getField (fun _ => none) 0 "tags".toList) t (.ok (.tuple [.int 1])) ∧
      Consistent (fun _ => []) (fun _ => none) tagsObject (tagsProperty .list) (.tuple [.int 1]) := by
  obtain ⟨t, hrun⟩ := field_tags
  refine ⟨t, hrun, ?_⟩
  exact (field_consistent_iff (objectToDict_tags (Or.inl rfl)) (fieldOf_tags .list) reachable_tags
    holdsRecord_tags hrun).mpr (by decide)

/-- A set of one element reads as a tuple. -/
theorem set_reads_as_tuple : ∃ t,
    objectToDict (fun _ => []) tagsObject (tagsClass .set) = .ok tagsRaw ∧
      FieldOf (tagsClass .set) (tagsProperty .set) "tags".toList ∧
      Reachable (fun _ => none) tagsMemory ∧ HoldsRecord tagsMemory 0 tagsRaw ∧
      Runs step tagsMemory (getField (fun _ => none) 0 "tags".toList) t (.ok (.tuple [.int 1])) ∧
      ¬ Consistent (fun _ => []) (fun _ => none) tagsObject (tagsProperty .set) (.tuple [.int 1]) := by
  obtain ⟨t, hrun⟩ := field_tags
  refine ⟨t, objectToDict_tags (Or.inr rfl), fieldOf_tags .set, reachable_tags, holdsRecord_tags,
    hrun, ?_⟩
  rintro ⟨_, _, _, _, he⟩
  cases he

end Pyrealm.Reader
