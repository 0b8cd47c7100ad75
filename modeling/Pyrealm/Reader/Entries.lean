import Pyrealm.Pool.Utf8Replace
import Pyrealm.Reader.Damage

/-!
# The entries of a Realm dictionary

`dictionary_to_python` puts the entries under their decoded keys, and damaged
keys may decode alike.

    every entry is kept, on all three paths  ↔  no two keys decode alike      (dictionary_keeps_iff)

* `keepsEntries_iff`: the count, for any loop that keeps the last entry of a key.
* `toDict_reads`: a record's plain form has the plain form of each of its fields,
  made on the way (`PlainOf`), whatever links are expanded.
-/

namespace Pyrealm.Reader

open Py Effects Indexes Interning

/-! ## What is kept -/

section
variable {β : Type} (decodeReplace : Bytes → PyStr)

def decodedKeys (elements : List (Bytes × CoreValue)) : List PyStr :=
  elements.map fun e => decodeReplace e.1

/-- As many entries as elements, and every element's value under its own key. -/
structure KeepsEntries (R : CoreValue → β → Prop) (elements : List (Bytes × CoreValue))
    (entries : List (PyStr × β)) : Prop where
  count : entries.length = elements.length
  kept : ∀ e ∈ elements, ∃ v, Dict.lookupItem (decodeReplace e.1) entries = some v ∧ R e.2 v

variable {decodeReplace} {R : CoreValue → β → Prop}

/-- **Every entry is kept in exactly the case of distinct decoded keys.** -/
theorem keepsEntries_iff {elements : List (Bytes × CoreValue)} {entries : List (PyStr × β)}
    (hkeys : (entries.map Prod.fst).Nodup)
    (hfound : ∀ key, Option.Rel R
      (Dict.lookupItem key (decodedEntries decodeReplace elements).reverse)
      (Dict.lookupItem key entries)) :
    KeepsEntries decodeReplace R elements entries ↔ (decodedKeys decodeReplace elements).Nodup := by
  have hdecoded : (decodedEntries decodeReplace elements).map Prod.fst =
      decodedKeys decodeReplace elements := by
    rw [decodedEntries, List.map_map]
    rfl
  have hsame : ∀ key, key ∈ decodedKeys decodeReplace elements ↔ key ∈ entries.map Prod.fst := by
    intro key
    rw [← hdecoded, ← List.mem_reverse, ← List.map_reverse, Dict.mem_keys_iff_lookupItem,
      Dict.mem_keys_iff_lookupItem]
    have hrel := hfound key
    generalize Dict.lookupItem key (decodedEntries decodeReplace elements).reverse = given at hrel
    generalize Dict.lookupItem key entries = found at hrel
    cases hrel with
    | none => rfl
    | some _ => exact iff_of_true rfl rfl
  have hcount := nodup_iff_length_eq hkeys hsame
  rw [List.length_map, decodedKeys, List.length_map] at hcount
  constructor
  · exact fun h => hcount.mpr h.count
  · intro h
    refine ⟨hcount.mp h, fun e he => ?_⟩
    have hrev : ((decodedEntries decodeReplace elements).reverse.map Prod.fst).Nodup := by
      rw [List.map_reverse, List.nodup_reverse, hdecoded]
      exact h
    have hgiven : Dict.lookupItem (decodeReplace e.1)
        (decodedEntries decodeReplace elements).reverse = some e.2 := by
      rw [Dict.lookupItem_eq_some_iff _ _ _ hrev, List.mem_reverse]
      exact List.mem_map_of_mem (f := fun e : Bytes × CoreValue => (decodeReplace e.1, e.2)) he
    have hrel := hfound (decodeReplace e.1)
    rw [hgiven] at hrel
    generalize Dict.lookupItem (decodeReplace e.1) entries = found at hrel
    cases hrel with
    | some hr => exact ⟨_, rfl, hr⟩

end

/-- Keys of well-formed text never decode alike. -/
theorem decodedKeys_nodup_of_valid {elements : List (Bytes × CoreValue)}
    (h : (elements.map Prod.fst).Nodup)
    (hvalid : ∀ e ∈ elements, ∃ text, decodeUtf8 e.1 = some text) :
    (decodedKeys decodeUtf8Replace elements).Nodup := by
  have hmap : decodedKeys decodeUtf8Replace elements =
      (elements.map Prod.fst).map decodeUtf8Replace := by
    rw [List.map_map]
    rfl
  rw [hmap]
  refine List.Nodup.map_on (fun a ha b hb hab => ?_) h
  obtain ⟨e, he, rfl⟩ := List.mem_map.mp ha
  obtain ⟨e', he', rfl⟩ := List.mem_map.mp hb
  obtain ⟨s, hs⟩ := hvalid e he
  obtain ⟨t, ht⟩ := hvalid e' he'
  exact replace_inj_of_valid hs ht hab

/-! ## What `to_dict` reads -/

section
variable {parseDecimal : PyStr → Option PyStr} {realm : RealmSchema} {seen : Seen}
  {follow : Int → Int → Seen → Dump (Plain × Seen)}

/-- The plain form that a value is given between `s` and `t`, with these records under
expansion. -/
def PlainOf (parseDecimal : PyStr → Option PyStr) (follow : Int → Int → Seen → Dump (Plain × Seen))
    (seen : Seen) (s t : Memory) (v : Converted) (p : Plain) : Prop :=
  ∃ u w, Goes parseDecimal s u ∧
    Runs (serve step parseDecimal) u (plainValue follow v seen) w (.ok (p, seen)) ∧
    Goes parseDecimal w t

theorem PlainOf.widen {s s' t t' : Memory} {v : Converted} {p : Plain}
    (h : PlainOf parseDecimal follow seen s' t' v p) (hs : Goes parseDecimal s s')
    (ht : Goes parseDecimal t' t) : PlainOf parseDecimal follow seen s t v p := by
  obtain ⟨u, w, hu, hrun, hw⟩ := h
  exact ⟨u, w, hs.trans hu, hrun, hw.trans ht⟩

section
variable (hf : ∀ t k, Careful parseDecimal realm seen (follow t k seen))
include hf

theorem plainValue_reads {s : Memory} (hs : Reachable parseDecimal s) (v : Converted) :
    wp (serve step parseDecimal) (plainValue follow v seen)
      (fun out u => out.2 = seen ∧ Goes parseDecimal s u ∧
        PlainOf parseDecimal follow seen s u v out.1) (fun _ _ => True) s := by
  refine wp_mono (wp_runs (plainValue_careful hf v s hs)) ?_ fun _ _ _ => trivial
  rintro ⟨p, _⟩ u ⟨hrun, rfl, hu⟩
  exact ⟨rfl, hu, s, u, .refl hs, hrun, .refl hu.reachable⟩

theorem plainEntries_reads (entries : List (PyStr × Converted)) {s : Memory}
    (hs : Reachable parseDecimal s) :
    wp (serve step parseDecimal) (plainEntries follow entries seen)
      (fun out u => out.2 = seen ∧ Goes parseDecimal s u ∧ List.Forall₂
        (fun e e' => e.1 = e'.1 ∧ PlainOf parseDecimal follow seen s u e.2 e'.2) entries out.1)
      (fun _ _ => True) s := by
  induction entries generalizing s with
  | nil => exact ⟨rfl, .refl hs, .nil⟩
  | cons e entries ih =>
    obtain ⟨key, item⟩ := e
    rw [plainEntries, wp_bind]
    refine wp_mono (plainValue_reads hf hs item) ?_ fun _ _ _ => trivial
    rintro ⟨p, _⟩ u ⟨rfl, hu, hp⟩
    rw [wp_bind]
    refine wp_mono (ih hu.reachable) ?_ fun _ _ _ => trivial
    rintro ⟨rest, _⟩ w ⟨rfl, hw, hrest⟩
    have hhead := hp.widen (.refl hs) hw
    have hlast := hrest.imp fun _ _ h => And.intro h.1 (h.2.widen hu (.refl hw.reachable))
    exact ⟨rfl, hu.trans hw, .cons ⟨rfl, hhead⟩ hlast⟩

/-- The plain form of a dictionary has the plain form of every value. -/
theorem plainOf_dict {s t : Memory} {entries : List (PyStr × Converted)} {p : Plain}
    (h : PlainOf parseDecimal follow seen s t (.dict entries) p) :
    ∃ plain, p = .dict plain ∧ List.Forall₂
      (fun e e' => e.1 = e'.1 ∧ PlainOf parseDecimal follow seen s t e.2 e'.2) entries plain := by
  obtain ⟨u, w, hu, hrun, hw⟩ := h
  rw [plainValue] at hrun
  have hspec : wp (serve step parseDecimal)
      (plainEntries follow entries seen >>= fun out => Pure.pure (Plain.dict out.1, out.2))
      (fun out v => ∃ plain, out.1 = .dict plain ∧ List.Forall₂
        (fun e e' => e.1 = e'.1 ∧ PlainOf parseDecimal follow seen u v e.2 e'.2) entries plain)
      (fun _ _ => True) u := by
    rw [wp_bind]
    refine wp_mono (plainEntries_reads hf entries hu.reachable) ?_ fun _ _ _ => trivial
    exact fun out v hout => ⟨_, rfl, hout.2.2⟩
  obtain ⟨plain, hp, hall⟩ := (wp_iff_runs _ _ _ _ _).mp hspec w _ hrun
  exact ⟨plain, hp, hall.imp fun _ _ h => ⟨h.1, h.2.widen hu hw⟩⟩

end

/-! ## The fields of a record -/

/-- The plain form of a field, under the field's key. -/
def PlainField (parseDecimal : PyStr → Option PyStr)
    (follow : Int → Int → Seen → Dump (Plain × Seen)) (seen : Seen) (s t : Memory)
    (raw : Dict PyStr Value) (key : PyStr) (e : PyStr × Plain) : Prop :=
  key = e.1 ∧ ∃ v, readField parseDecimal raw key = .ok v ∧
    PlainOf parseDecimal follow seen s t v e.2

theorem PlainField.widen {s s' t t' : Memory} {raw : Dict PyStr Value} {key : PyStr}
    {e : PyStr × Plain} (h : PlainField parseDecimal follow seen s' t' raw key e)
    (hs : Goes parseDecimal s s') (ht : Goes parseDecimal t' t) :
    PlainField parseDecimal follow seen s t raw key e := by
  obtain ⟨hkey, v, hv, hplain⟩ := h
  exact ⟨hkey, v, hv, hplain.widen hs ht⟩

theorem fieldsToDict_reads (hf : ∀ t k, Careful parseDecimal realm seen (follow t k seen)) {r : Nat}
    {raw : Dict PyStr Value} (keys : List PyStr) {s : Memory} (hs : Reachable parseDecimal s)
    (hr : HoldsRecord s r raw) :
    wp (serve step parseDecimal) (fieldsToDict follow r keys seen)
      (fun out u => out.2 = seen ∧ Goes parseDecimal s u ∧
        List.Forall₂ (PlainField parseDecimal follow seen s u raw) keys out.1)
      (fun _ _ => True) s := by
  induction keys generalizing s with
  | nil => exact ⟨rfl, .refl hs, .nil⟩
  | cons key keys ih =>
    rw [fieldsToDict, request]
    refine wp_perform_bind ?_
    rintro v u ⟨result, hrun, ha⟩
    obtain ⟨record, hl, hraw⟩ := hr.live
    obtain ⟨hread, hanswers, hadvances⟩ := field_run_keeps hs hr.held hl hraw hrun
    have hu : Goes parseDecimal s u := ⟨hadvances, hanswers ▸ List.prefix_rfl⟩
    cases result with
    | error e => cases ha
    | ok v' =>
      cases ha
      rw [wp_bind]
      refine wp_mono (plainValue_reads hf hu.reachable v) ?_ fun _ _ _ => trivial
      rintro ⟨p, _⟩ w ⟨rfl, hw, hp⟩
      have hsw := hu.trans hw
      rw [wp_bind]
      refine wp_mono (ih hw.reachable (hr.kept hsw.kept)) ?_ fun _ _ _ => trivial
      rintro ⟨rest, _⟩ x ⟨rfl, hx, hrest⟩
      have hlast := hrest.imp fun _ _ h => h.widen hsw (.refl hx.reachable)
      exact ⟨rfl, hsw.trans hx, .cons ⟨rfl, v, hread, hp.widen hu hx⟩ hlast⟩

/-- **A record's plain form** has the plain form of every field, in order, made while
`to_dict` ran and only this record was under expansion. -/
theorem toDict_reads {s : Memory} (hs : Reachable parseDecimal s) {r : Nat} {raw : Dict PyStr Value}
    (hr : HoldsRecord s r raw) {identity : Int × Int} (hy : Yields s r identity) {expandLinks : Bool}
    {maxDepth : Int} {t : Memory} {out : Plain}
    (hrun : Runs (serve step parseDecimal) s (toDict realm expandLinks maxDepth r) t (.ok out)) :
    ∃ fields, out = .dict fields ∧ List.Forall₂ (PlainField parseDecimal
      (linkToPlain realm expandLinks maxDepth.toNat) {identity} s t raw) (fieldsOf raw).keys fields := by
  obtain ⟨record, hl, hraw⟩ := hr.live
  obtain ⟨_, hl', rfl⟩ := hy.live
  cases hl.symm.trans hl'
  have hspec : wp (serve step parseDecimal) (toDict realm expandLinks maxDepth r)
      (fun out t => ∃ fields, out = .dict fields ∧ List.Forall₂ (PlainField parseDecimal
        (linkToPlain realm expandLinks maxDepth.toNat) {record.identity} s t raw)
        (fieldsOf raw).keys fields) (fun _ _ => True) s := by
    rw [toDict]
    split
    · exact trivial
    · rw [wp_bind, recordToDict, request]
      refine wp_perform_bind ?_
      rintro identity _ ⟨rfl, ha⟩
      rw [Memory.ofRecord, hl] at ha
      cases ha
      rw [if_neg (Finset.notMem_empty _), request]
      refine wp_perform_bind ?_
      rintro keys _ ⟨rfl, hk⟩
      rw [Memory.ofRecord, hl] at hk
      cases hk
      rw [wp_bind, hraw, insert_empty_eq]
      refine wp_mono (fieldsToDict_reads (fun t k => linkToPlain_careful expandLinks _ _ t k) _ hs hr)
        ?_ fun _ _ _ => trivial
      rintro ⟨fields, _⟩ u ⟨rfl, -, hfields⟩
      show wp _ (removeSeen record.identity {record.identity} >>= _) _ _ u
      rw [removeSeen, if_pos (Finset.mem_singleton_self _)]
      exact ⟨fields, rfl, hfields⟩
  exact (wp_iff_runs _ _ _ _ _).mp hspec t _ hrun

end

/-! ## A dictionary property -/

section
variable {parseDecimal : PyStr → Option PyStr} {decodeReplace : Bytes → PyStr}

/-- An element of the record of this identity, and the plain form that `to_dict` gives
what it reads as. -/
def PlainOfElement (decodeReplace : Bytes → PyStr) (parseDecimal : PyStr → Option PyStr)
    (realm : RealmSchema) (expandLinks : Bool) (maxDepth : Int) (identity : Int × Int) (s t : Memory)
    (value : CoreValue) (p : Plain) : Prop :=
  ∃ c, ConvertsTo decodeReplace parseDecimal value c ∧
    PlainOf parseDecimal (linkToPlain realm expandLinks maxDepth.toNat) {identity} s t c p

/-- Related entries are kept alike. -/
theorem keeps_of_forall₂ {β γ : Type} {R : CoreValue → β → Prop} {S : β → γ → Prop}
    {elements : List (Bytes × CoreValue)} {entries : List (PyStr × β)} {entries' : List (PyStr × γ)}
    (hkeys : (entries.map Prod.fst).Nodup)
    (hfound : ∀ key, Option.Rel R
      (Dict.lookupItem key (decodedEntries decodeReplace elements).reverse)
      (Dict.lookupItem key entries))
    (hall : List.Forall₂ (fun e e' => e.1 = e'.1 ∧ S e.2 e'.2) entries entries') :
    KeepsEntries decodeReplace (fun value c => ∃ b, R value b ∧ S b c) elements entries' ↔
      (decodedKeys decodeReplace elements).Nodup := by
  refine keepsEntries_iff (keys_eq_of_forall₂ (hall.imp fun _ _ h => h.1) ▸ hkeys) fun key => ?_
  have hrel := hfound key
  have hrel' := lookupItem_rel hall key
  generalize Dict.lookupItem key (decodedEntries decodeReplace elements).reverse = given at hrel
  generalize Dict.lookupItem key entries = found at hrel hrel'
  generalize Dict.lookupItem key entries' = found' at hrel'
  cases hrel with
  | none =>
    cases hrel'
    exact .none
  | some hr =>
    cases hrel' with
    | some hs => exact .some ⟨_, hr, hs⟩

/-- The field of a dictionary property. -/
theorem dictionary_field {object : CoreObject} {classMeta : ClassMeta} {raw : Dict PyStr Value}
    (h : objectToDict decodeReplace object classMeta = .ok raw) {property : PropertyMeta}
    {name : PyStr} (hp : FieldOf classMeta property name) (hcol : property.collectionType = .dictionary)
    {elements : List (Bytes × CoreValue)}
    (helements : object.getDictionary property.key = .ok elements) :
    ∃ d : Dict PyStr Value, propertyToPython decodeReplace object property = .ok (.dict d.items) ∧
      (fieldsOf raw).get? name = some (.dict d.items) ∧
      ∀ key, Option.Rel (fun item v => valueToPython decodeReplace item = .ok v)
        (Dict.lookupItem key (decodedEntries decodeReplace elements).reverse)
        (Dict.lookupItem key d.items) := by
  obtain ⟨value, hv, hget⟩ := field_of_last h hp
  have hdict := hv
  rw [propertyToPython, hcol] at hdict
  simp only [helements] at hdict
  obtain ⟨d, rfl, hd⟩ := dictionaryToPython_eq_ok hdict
  exact ⟨d, hv, hget, hd⟩

/-- What reads of the field give. -/
theorem readField_dict {raw : Dict PyStr Value} {name : PyStr} {items : List (PyStr × Value)}
    (hget : (fieldsOf raw).get? name = some (.dict items)) {v : Converted}
    (hread : readField parseDecimal raw name = .ok v) :
    ∃ entries, v = .dict entries ∧
      List.Forall₂ (fun x y => x.1 = y.1 ∧ convert parseDecimal x.2 = .ok y.2) items entries := by
  rw [readField, hget] at hread
  have hconv := (convertField_eq_ok_iff _ _ _).mp hread
  rw [convert, bind_eq_ok_iff] at hconv
  obtain ⟨entries, hentries, hconv⟩ := hconv
  cases hconv
  exact ⟨entries, rfl, convertEntries_forall₂ hentries⟩

/-- **No entry is lost in exactly the case of distinct decoded keys**: for any
dictionary property of any object that a field stands for, in the raw dictionary, on
any read of the field and in any plain form, in any state of any realm. -/
theorem dictionary_keeps_iff {object : CoreObject} {classMeta : ClassMeta} {raw : Dict PyStr Value}
    (h : objectToDict decodeUtf8Replace object classMeta = .ok raw) {property : PropertyMeta}
    {name : PyStr} (hp : FieldOf classMeta property name) (hcol : property.collectionType = .dictionary)
    {elements : List (Bytes × CoreValue)}
    (helements : object.getDictionary property.key = .ok elements)
    {s : Memory} (hs : Reachable parseDecimal s) {r : Nat} (hr : HoldsRecord s r raw) :
    (∃ entries, propertyToPython decodeUtf8Replace object property = .ok (.dict entries) ∧
      (KeepsEntries decodeUtf8Replace
          (fun item v => valueToPython decodeUtf8Replace item = .ok v) elements entries ↔
        (decodedKeys decodeUtf8Replace elements).Nodup)) ∧
    (∀ t v, Runs step s (getField parseDecimal r name) t (.ok v) → ∃ entries, v = .dict entries ∧
      (KeepsEntries decodeUtf8Replace (ConvertsTo decodeUtf8Replace parseDecimal) elements entries ↔
        (decodedKeys decodeUtf8Replace elements).Nodup)) ∧
    ∀ realm expandLinks maxDepth t out,
      Runs (serve step parseDecimal) s (toDict realm expandLinks maxDepth r) t (.ok out) →
        ∃ identity fields entries, Yields s r identity ∧ out = .dict fields ∧
          Dict.lookupItem name fields = some (.dict entries) ∧
          (KeepsEntries decodeUtf8Replace
              (PlainOfElement decodeUtf8Replace parseDecimal realm expandLinks maxDepth identity s t)
              elements entries ↔
            (decodedKeys decodeUtf8Replace elements).Nodup) := by
  obtain ⟨d, hnative, hget, hfound⟩ := dictionary_field h hp hcol helements
  -- what any read of the field gives
  have hread : ∀ v, readField parseDecimal raw name = .ok v → ∃ entries, v = .dict entries ∧
      (entries.map Prod.fst).Nodup ∧
      (∀ key, Option.Rel (ConvertsTo decodeUtf8Replace parseDecimal)
        (Dict.lookupItem key (decodedEntries decodeUtf8Replace elements).reverse)
        (Dict.lookupItem key entries)) := by
    intro v hv
    obtain ⟨entries, rfl, hall⟩ := readField_dict hget hv
    have hkeys : d.items.map Prod.fst = entries.map Prod.fst :=
      keys_eq_of_forall₂ (hall.imp fun _ _ h => h.1)
    exact ⟨entries, rfl, hkeys ▸ d.nodup, fun key =>
      convertsTo_found (hfound key) (lookupItem_rel hall key)⟩
  refine ⟨⟨d.items, hnative, keepsEntries_iff d.nodup hfound⟩, fun t v hrun => ?_,
    fun realm expandLinks maxDepth t out hrun => ?_⟩
  · obtain ⟨record, hl, hraw⟩ := hr.live
    obtain ⟨hv, -, -⟩ := field_run_keeps hs hr.held hl hraw hrun
    obtain ⟨entries, rfl, hkeys, hconv⟩ := hread v hv
    exact ⟨entries, rfl, keepsEntries_iff hkeys hconv⟩
  · obtain ⟨record, hl, -⟩ := hr.live
    have hy : Yields s r record.identity := ⟨hr.held, record, hl, rfl⟩
    obtain ⟨fields, rfl, hfields⟩ := toDict_reads hs hr hy hrun
    have hkey : name ∈ (fieldsOf raw).keys := Dict.mem_of_get? hget
    obtain ⟨⟨name', p⟩, hmem, rfl, v, hv, hplain⟩ := forall₂_mem_left hfields hkey
    obtain ⟨entries, rfl, hkeys, hconv⟩ := hread v hv
    obtain ⟨plain, rfl, hall⟩ := plainOf_dict
      (fun t k => linkToPlain_careful expandLinks maxDepth.toNat _ t k) hplain
    have hnodup : (fields.map Prod.fst).Nodup := by
      have hsame : (fieldsOf raw).keys = fields.map Prod.fst :=
        List.forall₂_eq_eq_eq ▸ List.forall₂_map_right_iff.mpr (hfields.imp fun _ _ h => h.1)
      exact hsame ▸ (fieldsOf raw).nodup
    exact ⟨record.identity, fields, plain, hy, rfl,
      (Dict.lookupItem_eq_some_iff _ _ _ hnodup).mpr hmem,
      keeps_of_forall₂ hkeys hconv hall⟩

end

/-! ## Two entries -/

/-- The object of key 3 whose only property is a dictionary of these elements. -/
def mapObject (elements : List (Bytes × CoreValue)) : CoreObject :=
  { tagsObject with getDictionary := fun _ => .ok elements }

def mapRaw (items : List (PyStr × Value)) : Dict PyStr Value :=
  ((Dict.empty.set TABLE_KEY (.int 5)).set OBJECT_KEY (.int 3)).set "tags".toList (.dict items)

/-- After one read of the object. -/
def mapMemory (items : List (PyStr × Value)) : Memory where
  heap := (Heap.empty.allocate ⟨5, 3, fieldsOf (mapRaw items), Dict.empty⟩).assign (5, 3) 0
  answers := [.ok (mapRaw items)]

theorem reachable_map (items : List (PyStr × Value)) :
    Reachable (fun _ => none) (mapMemory items) := by
  have hi : recordIdentity (mapRaw items) = .ok (5, 3) := rfl
  exact reachable_first _ hi

theorem holdsRecord_map (items : List (PyStr × Value)) :
    HoldsRecord (mapMemory items) 0 (mapRaw items) :=
  ⟨List.mem_singleton_self 0, _, rfl, rfl⟩

theorem objectToDict_map {elements : List (Bytes × CoreValue)} {items : List (PyStr × Value)}
    (h : dictionaryToPython decodeUtf8Replace (.ok elements) = .ok (.dict items)) :
    objectToDict decodeUtf8Replace (mapObject elements) (tagsClass .dictionary) =
      .ok (mapRaw items) := by
  have hname : pyStr (encodeUtf8 "tags".toList) = .ok "tags".toList := (pyStr_eq_ok_iff _ _).mpr rfl
  simp only [objectToDict, tagsClass, tagsProperty, List.foldlM_cons, List.foldlM_nil,
    propertyToPython, mapObject, h, hname, ok_bind, reduceCtorEq, if_false]
  rfl

theorem field_map {items : List (PyStr × Value)} {entries : List (PyStr × Converted)}
    (h : convert (fun _ => none) (.dict items) = .ok (.dict entries)) :
    ∃ t, Runs step (mapMemory items) (getField (fun _ => none) 0 "tags".toList) t
      (.ok (.dict entries)) := by
  have hfield : convertField (fun _ => none) "tags".toList (.dict items) = .ok (.dict entries) :=
    (convertField_eq_ok_iff _ _ _).mpr h
  apply Exists.intro
  apply Runs.call (.ok none) ⟨_, .refl, rfl, rfl⟩
  apply Runs.call (.ok (some (.dict items))) ⟨_, .refl, rfl, rfl⟩
  dsimp only [Prog.bind]
  rw [hfield]
  apply Runs.call (.ok ()) ⟨_, .refl, rfl, rfl⟩
  exact Runs.done _ _

/-- The keys `a` and `b`. -/
theorem dictionary_keeps_iff_pair : ∃ t,
    Runs step (mapMemory [("a".toList, .int 1), ("b".toList, .int 2)])
      (getField (fun _ => none) 0 "tags".toList) t
      (.ok (.dict [("a".toList, .int 1), ("b".toList, .int 2)])) ∧
    KeepsEntries decodeUtf8Replace (ConvertsTo decodeUtf8Replace fun _ => none)
      [([0x61], .int 1), ([0x62], .int 2)] [("a".toList, .int 1), ("b".toList, .int 2)] := by
  have hconv : convert (fun _ => none) (.dict [("a".toList, .int 1), ("b".toList, .int 2)]) =
      .ok (.dict [("a".toList, .int 1), ("b".toList, .int 2)]) := rfl
  obtain ⟨t, hrun⟩ := field_map hconv
  refine ⟨t, hrun, ?_⟩
  have hdict : dictionaryToPython decodeUtf8Replace (.ok [([0x61], .int 1), ([0x62], .int 2)]) =
      .ok (.dict [("a".toList, .int 1), ("b".toList, .int 2)]) := rfl
  obtain ⟨-, hread, -⟩ := dictionary_keeps_iff (objectToDict_map hdict) (fieldOf_tags .dictionary)
    rfl rfl (reachable_map _) (holdsRecord_map _)
  obtain ⟨entries, he, hkeeps⟩ := hread t _ hrun
  cases he
  exact hkeeps.mpr (by decide)

/-- Two damaged keys, of one byte each, leave one entry. -/
theorem damaged_keys_lose_entry : ∃ t,
    ([[0xFF], [0xFE]] : List Bytes).Nodup ∧
      objectToDict decodeUtf8Replace (mapObject [([0xFF], .int 1), ([0xFE], .int 2)])
        (tagsClass .dictionary) = .ok (mapRaw [([REPLACEMENT], .int 2)]) ∧
      FieldOf (tagsClass .dictionary) (tagsProperty .dictionary) "tags".toList ∧
      Reachable (fun _ => none) (mapMemory [([REPLACEMENT], .int 2)]) ∧
      HoldsRecord (mapMemory [([REPLACEMENT], .int 2)]) 0 (mapRaw [([REPLACEMENT], .int 2)]) ∧
      Runs step (mapMemory [([REPLACEMENT], .int 2)]) (getField (fun _ => none) 0 "tags".toList) t
        (.ok (.dict [([REPLACEMENT], .int 2)])) ∧
      ¬ KeepsEntries decodeUtf8Replace (ConvertsTo decodeUtf8Replace fun _ => none)
        [([0xFF], .int 1), ([0xFE], .int 2)] [([REPLACEMENT], .int 2)] := by
  have hdict : dictionaryToPython decodeUtf8Replace (.ok [([0xFF], .int 1), ([0xFE], .int 2)]) =
      .ok (.dict [([REPLACEMENT], .int 2)]) := rfl
  have hconv : convert (fun _ => none) (.dict [([REPLACEMENT], .int 2)]) =
      .ok (.dict [([REPLACEMENT], .int 2)]) := rfl
  obtain ⟨t, hrun⟩ := field_map hconv
  refine ⟨t, by decide, objectToDict_map hdict, fieldOf_tags .dictionary, reachable_map _,
    holdsRecord_map _, hrun, fun hkeeps => ?_⟩
  exact absurd hkeeps.count (by decide)

end Pyrealm.Reader
