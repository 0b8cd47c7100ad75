import Pyrealm.Reader.Collections
import Pyrealm.Reader.Plain

/-!
# Link expansion

What `to_dict` returns for a graph of records whose links resolve and whose
fields decode.  `render` says it without a set of records seen: a link is a
reference if links are not expanded, if `max_depth` expanded links enclose it,
or if its target is on the chain of expanded records that leads to it.

    toDict = the expansion of its record          (toDict_renders)

* `plainValue_spec`, `fieldsToDict_spec`, `recordToDict_spec`, `linkToPlain_spec`:
  each part renders, and returns the set `seen` it was given.
-/

namespace Pyrealm.Reader

open Py Effects Indexes Interning

/-! ## Graphs -/

mutual

/-- The targets of the links in a value. -/
def linksOf : Converted → List (Int × Int)
  | .link t k => [(t, k)]
  | .tuple items => linksOfItems items
  | .frozenset items => linksOfItems items
  | .dict entries => linksOfEntries entries
  | _ => []

def linksOfItems : List Converted → List (Int × Int)
  | [] => []
  | item :: items => linksOf item ++ linksOfItems items

def linksOfEntries : List (PyStr × Converted) → List (Int × Int)
  | [] => []
  | (_, item) :: entries => linksOf item ++ linksOfEntries entries

end

/-- A finite graph of records, as the native layer answers them: every record
names its object, every field decodes, every link leads to a record of the
graph, whose table has a name. -/
structure RecordGraph (parseDecimal : PyStr → Option PyStr) (realm : RealmSchema) where
  nodes : Finset (Int × Int)
  raw : Int × Int → Dict PyStr Value
  fields : Int × Int → List (PyStr × Converted)
  name : Int → PyStr
  named : ∀ id ∈ nodes, Names (raw id) id
  decodes : ∀ id ∈ nodes, convertEntries parseDecimal (fieldsOf (raw id)).items = .ok (fields id)
  linked : ∀ id ∈ nodes, ∀ l ∈ linksOfEntries (fields id), l ∈ nodes
  tables : ∀ id ∈ nodes, realm.tableName id.1 = .ok (name id.1)

section
variable {parseDecimal : PyStr → Option PyStr} {realm : RealmSchema}
  (g : RecordGraph parseDecimal realm)

/-- The native layer answers with the records of the graph. -/
def RecordGraph.Answers : (c : Command) → Except Error (Answer c) → Prop
  | .native (.record t k), answer => (t, k) ∈ g.nodes → answer = .ok (g.raw (t, k))
  | _, _ => True

/-- A command after any garbage collection, over this graph. -/
def RecordGraph.step (s : Memory) (c : Command) (answer : Except Error (Answer c)) (t : Memory) :
    Prop :=
  Reader.step s c answer t ∧ g.Answers c answer

/-! ## The rule -/

section
variable (expandLinks : Bool) (maxDepth : Nat)

/-- The number of expanded links around a place, given the records from the root
to it: the root was not reached by a link. -/
def enclosing (chain : List (Int × Int)) : Nat := chain.length - 1

mutual

/-- The plain form of a value on the chain of these expanded records. -/
def RecordGraph.render (chain : List (Int × Int)) : Converted → Plain
  | .link t k =>
    if expandLinks = true ∧ enclosing chain < maxDepth ∧ (t, k) ∉ chain then
      .dict (RecordGraph.renderEntries ((t, k) :: chain) (g.fields (t, k)))
    else reference (g.name t) k
  | .tuple items => .list (RecordGraph.renderItems chain items)
  | .frozenset items => .list (RecordGraph.renderItems chain items)
  | .dict entries => .dict (RecordGraph.renderEntries chain entries)
  | v => plainScalar v
termination_by v => (maxDepth + 1 - chain.length, sizeOf v)
decreasing_by
  · -- one more link is expanded
    rename_i h
    have hlt := h.2.1
    unfold enclosing at hlt
    apply Prod.Lex.left
    rw [List.length_cons]
    omega
  all_goals decreasing_tactic

def RecordGraph.renderItems (chain : List (Int × Int)) : List Converted → List Plain
  | [] => []
  | item :: items => RecordGraph.render chain item :: RecordGraph.renderItems chain items
termination_by items => (maxDepth + 1 - chain.length, sizeOf items)

def RecordGraph.renderEntries (chain : List (Int × Int)) :
    List (PyStr × Converted) → List (PyStr × Plain)
  | [] => []
  | (key, item) :: entries =>
    (key, RecordGraph.render chain item) :: RecordGraph.renderEntries chain entries
termination_by entries => (maxDepth + 1 - chain.length, sizeOf entries)

end

/-- **The rule for links.**  No more than `max_depth` links are ever expanded around a place. -/
theorem RecordGraph.render_link {chain : List (Int × Int)} (h : enclosing chain ≤ maxDepth)
    (t k : Int) : g.render expandLinks maxDepth chain (.link t k) =
      if expandLinks = false ∨ enclosing chain = maxDepth ∨ (t, k) ∈ chain then
        reference (g.name t) k
      else .dict (g.renderEntries expandLinks maxDepth ((t, k) :: chain) (g.fields (t, k))) := by
  rw [RecordGraph.render]
  by_cases hm : (t, k) ∈ chain
  · rw [if_neg (fun hc => hc.2.2 hm), if_pos (Or.inr (Or.inr hm))]
  · cases expandLinks with
    | false => rw [if_neg (fun hc => Bool.false_ne_true hc.1), if_pos (Or.inl rfl)]
    | true =>
      by_cases hd : enclosing chain = maxDepth
      · rw [if_neg (by omega), if_pos (Or.inr (Or.inl hd))]
      · rw [if_pos ⟨rfl, by omega, hm⟩, if_neg (by simp [hd, hm])]

/-- The expansion of a record. -/
def RecordGraph.expansion (root : Int × Int) : Plain :=
  .dict (g.renderEntries expandLinks maxDepth [root] (g.fields root))

end

/-! ## Runs over a graph -/

/-- Every command can be answered with the graph. -/
theorem RecordGraph.step_serial (s : Memory) (c : Command) : ∃ answer t, g.step s c answer t := by
  cases c with
  | native read =>
    cases read with
    | record t k => exact ⟨.ok (g.raw (t, k)), _, ⟨_, .refl, rfl⟩, fun _ => rfl⟩
    | item results index => exact ⟨.error .nativeError, _, ⟨_, .refl, rfl⟩, trivial⟩
  | nativeLen results => exact ⟨.error .nativeError, _, ⟨_, .refl, rfl⟩, trivial⟩
  | _ => exact ⟨_, _, ⟨_, .refl, rfl, rfl⟩, trivial⟩

/-- A realm in use, whose objects were those of the graph so far. -/
structure RecordGraph.Served (s : Memory) : Prop where
  reachable : Reachable parseDecimal s
  stable : Stable g.raw s.answers

/-- What a part of `to_dict` leaves as it was, over the graph. -/
structure RecordGraph.Continues (s u : Memory) : Prop extends Advances parseDecimal s u where
  stable : Stable g.raw u.answers

variable {g} {s u : Memory}

theorem RecordGraph.Served.refl (h : g.Served s) : g.Continues s s := ⟨.refl h.reachable, h.stable⟩

theorem RecordGraph.Continues.toServed (h : g.Continues s u) : g.Served u := ⟨h.reachable, h.stable⟩

theorem RecordGraph.Continues.trans {v : Memory} (h : g.Continues s u) (h' : g.Continues u v) :
    g.Continues s v :=
  ⟨h.toAdvances.trans h'.toAdvances, h'.stable⟩

/-- A record in memory is that of the graph. -/
theorem RecordGraph.Served.raw_eq (h : g.Served s) {r : Nat} {record : Record}
    (hl : s.heap.live r = some record) : record.raw = fieldsOf (g.raw record.identity) := by
  obtain ⟨raw, hm, hi, hraw⟩ := ((reachable_inv h.reachable).sound r record hl).source
  rw [hraw, h.stable raw record.identity hm ((recordIdentity_eq_ok raw _).mp hi)]

/-- Resolving a link of the graph reads its target, or nothing. -/
theorem RecordGraph.record_answers (g : RecordGraph parseDecimal realm) (s : Memory) {t k : Int}
    (h : (t, k) ∈ g.nodes) :
    wp g.step (record t k)
      (fun _ u => u.answers = s.answers ∨ u.answers = s.answers ++ [.ok (g.raw (t, k))])
      (fun _ u => u.answers = s.answers ∨ u.answers = s.answers ++ [.ok (g.raw (t, k))]) s := by
  have hquiet : ∀ s c answer t, c.Silent → g.step s c answer t → ∀ answers, s.answers = answers →
      t.answers = answers := fun s c answer t hc hst answers hs =>
    silent_answers s c answer t hc hst.1 hs
  rw [record, wp_bind, ask, wp_perform]
  have hget : (Command.cacheGet (t, k)).Silent := trivial
  refine ⟨fun cached u hu => ?_, fun e u hu => Or.inl (hquiet _ _ _ _ hget hu _ rfl)⟩
  have hsame := hquiet _ _ _ _ hget hu _ rfl
  cases cached with
  | some r => exact Or.inl hsame
  | none =>
    show wp g.step (withNativeErrors _ >>= _) _ _ u
    rw [wp_bind, withNativeErrors, wp_tryCatch, ask, wp_perform]
    constructor
    · rintro raw v ⟨⟨heap, -, hv⟩, ha⟩
      cases hv
      cases ha h
      have hkept : ∀ w c answer w', c.Silent → g.step w c answer w' →
          w.answers = s.answers ++ [.ok (g.raw (t, k))] →
          w'.answers = s.answers ++ [.ok (g.raw (t, k))] :=
        fun _ _ _ _ hc hst => hquiet _ _ _ _ hc hst _
      refine wp_mono (wp_of_only hkept (recordFromRaw_silent _) ?_) ?_ ?_
      · rw [← hsame]
      · exact fun _ _ => Or.inr
      · exact fun _ _ => Or.inr
    · rintro e v ⟨-, ha⟩
      cases ha h

/-- **Resolving a link of the graph** holds the one record of its target. -/
theorem RecordGraph.Served.resolve (hs : g.Served s) {t k : Int} (h : (t, k) ∈ g.nodes)
    {result : Except Error Nat} (hrun : Runs g.step s (record t k) u result) :
    ∃ r, result = .ok r ∧ g.Served u ∧ Yields u r (t, k) ∧ u.heap.roots = r :: s.heap.roots ∧
      Kept Record.Grows s.heap u.heap := by
  have hanswers : u.answers = s.answers ∨ u.answers = s.answers ++ [.ok (g.raw (t, k))] := by
    apply hrun.of_wp
    exact g.record_answers s h
  have hgood := (recordIdentity_eq_ok _ _).mpr (g.named _ h)
  -- the one answer there may be is the record of the graph
  have hone : ∀ answer, u.answers = s.answers ++ [answer] → answer = .ok (g.raw (t, k)) := by
    intro answer ha
    rcases hanswers with hu | hu
    · rw [hu] at ha
      exact absurd (List.append_right_eq_self.mp ha.symm) (List.cons_ne_nil _ _)
    · rw [hu] at ha
      exact (List.singleton_injective (List.append_cancel_left ha)).symm
  have hstable : Stable g.raw u.answers := by
    intro raw id hm hn
    have hold : .ok raw ∈ s.answers → raw = g.raw id := fun hm => hs.stable raw id hm hn
    rcases hanswers with hu | hu
    · exact hold (hu ▸ hm)
    · rw [hu] at hm
      rcases List.mem_append.mp hm with hm | hm
      · exact hold hm
      · cases List.mem_singleton.mp hm
        rw [(g.named _ h).inj hn]
  obtain ⟨hreach, hkept, hends⟩ := resolve_run hs.reachable (hrun.mono fun _ _ _ _ hst => hst.1)
  cases result with
  | error e =>
    obtain ⟨answer, ha, he⟩ := hends
    rw [hone answer ha] at he
    rw [show surface (.ok (g.raw (t, k))) = .ok (t, k) from hgood] at he
    cases he
  | ok r =>
    obtain ⟨hroots, identity, hy, hid⟩ := hends
    have hsame : identity = (t, k) := by
      rcases hid with hid | ⟨raw, ha, hi⟩
      · exact hid
      · cases hone _ ha
        rw [hgood] at hi
        exact (Except.ok.inj hi).symm
    exact ⟨r, rfl, ⟨hreach, hstable⟩, hsame ▸ hy, hroots, hkept⟩

/-- **Reading a field of a record of the graph** gives its decoded value. -/
theorem RecordGraph.Served.field (hs : g.Served s) {r : Nat} {id : Int × Int} (hy : Yields s r id)
    (hid : id ∈ g.nodes) {key : PyStr} {v : Converted} (hv : (key, v) ∈ g.fields id)
    {result : Except Error Converted} (hrun : Runs g.step s (getField parseDecimal r key) u result) :
    result = .ok v ∧ g.Continues s u := by
  obtain ⟨record, hl, rfl⟩ := hy.live
  have hread : readField parseDecimal (g.raw record.identity) key = .ok v := by
    obtain ⟨⟨key', value⟩, he, rfl, hconv⟩ :=
      forall₂_mem_right (convertEntries_forall₂ (g.decodes _ hid)) hv
    rw [readField, (Dict.get?_eq_some_iff _ _ _).mpr he]
    exact (convertField_eq_ok_iff _ _ v).mpr hconv
  obtain ⟨hres, hans, hadv⟩ := field_run_keeps hs.reachable hy.held hl (hs.raw_eq hl)
    (hrun.mono fun _ _ _ _ hst => hst.1)
  exact ⟨hres.symm.trans hread, hadv, hans ▸ hs.stable⟩

/-! ## Requests -/

section
variable {exn : DumpError → Memory → Prop}

/-- A request with one answer, which leaves the memory as it is. -/
theorem wp_answered {q : Request} {a : Reply q} {post : Reply q → Memory → Prop}
    (hq : ∀ answer u, serve g.step parseDecimal s q answer u → u = s ∧ answer = .ok a)
    (h : post a s) : wp (serve g.step parseDecimal) (request q) post exn s := by
  rw [request, wp_perform]
  constructor
  · intro a' u hu
    obtain ⟨rfl, ha⟩ := hq _ _ hu
    cases ha
    exact h
  · intro e u hu
    obtain ⟨-, ha⟩ := hq _ _ hu
    cases ha

theorem wp_identity {r : Nat} {id : Int × Int} (hy : Yields s r id)
    {post : Int × Int → Memory → Prop} (h : post id s) :
    wp (serve g.step parseDecimal) (request (.identity r)) post exn s := by
  obtain ⟨record, hl, rfl⟩ := hy.live
  have hof : s.ofRecord r Record.identity = .ok record.identity := by rw [Memory.ofRecord, hl]
  exact wp_answered (fun _ _ hu => ⟨hu.1, hu.2.trans hof⟩) h

theorem wp_keys (hs : g.Served s) {r : Nat} {id : Int × Int} (hy : Yields s r id)
    (hid : id ∈ g.nodes) {post : List PyStr → Memory → Prop}
    (h : post ((g.fields id).map Prod.fst) s) :
    wp (serve g.step parseDecimal) (request (.keys r)) post exn s := by
  obtain ⟨record, hl, rfl⟩ := hy.live
  have hkeys : record.raw.keys = (g.fields record.identity).map Prod.fst := by
    rw [hs.raw_eq hl, Dict.keys]
    exact Indexes.keys_eq_of_forall₂ ((convertEntries_forall₂ (g.decodes _ hid)).imp fun _ _ h => h.1)
  have hof : s.ofRecord r (fun record => record.raw.keys) =
      .ok ((g.fields record.identity).map Prod.fst) := by
    rw [Memory.ofRecord, hl, ← hkeys]
  exact wp_answered (fun _ _ hu => ⟨hu.1, hu.2.trans hof⟩) h

theorem wp_field (hs : g.Served s) {r : Nat} {id : Int × Int} (hy : Yields s r id)
    (hid : id ∈ g.nodes) {key : PyStr} {v : Converted} (hv : (key, v) ∈ g.fields id)
    {post : Converted → Memory → Prop} (h : ∀ u, g.Continues s u → post v u) :
    wp (serve g.step parseDecimal) (request (.field r key)) post exn s := by
  rw [request, wp_perform]
  constructor
  · rintro v' u ⟨result, hrun, ha⟩
    obtain ⟨rfl, hu⟩ := hs.field hy hid hv hrun
    cases ha
    exact h u hu
  · rintro e u ⟨result, hrun, ha⟩
    obtain ⟨rfl, -⟩ := hs.field hy hid hv hrun
    cases ha

/-- A resolved record is used and let go. -/
theorem wp_resolved (hs : g.Served s) {t k : Int} (hid : (t, k) ∈ g.nodes) {α : Type}
    {body : Nat → Dump α} {post : α → Memory → Prop}
    (h : ∀ r u, g.Served u → Yields u r (t, k) →
      wp (serve g.step parseDecimal) (body r) (fun a v => g.Continues u v ∧
        ∀ w, g.Continues s w → post a w) exn u) :
    wp (serve g.step parseDecimal)
      (request (.resolve t k) >>= fun r => body r >>= fun a => request (.drop r) >>= fun _ => pure a)
      post exn s := by
  rw [wp_bind, request, wp_perform]
  constructor
  · rintro r u ⟨result, hrun, ha⟩
    obtain ⟨r', rfl, hu, hy, hroots, hkept⟩ := hs.resolve hid hrun
    cases ha
    rw [wp_bind]
    refine wp_mono (h r u hu hy) ?_ fun _ _ => id
    rintro a v ⟨hv, hpost⟩
    rw [wp_bind, request, wp_perform]
    constructor
    · rintro _ w ⟨rfl, -⟩
      exact hpost _ ⟨Advances.drop hkept hroots hv.toAdvances, hv.stable⟩
    · rintro e w ⟨-, ha⟩
      cases ha
  · rintro e u ⟨result, hrun, ha⟩
    obtain ⟨r', rfl, -⟩ := hs.resolve hid hrun
    cases ha

end

/-! ## Parts of `to_dict` -/

section
variable {seen : Seen} {α β : Type}

/-- The part returns this and the set `seen` it was given, and leaves the rest as it was. -/
def RecordGraph.Gives (g : RecordGraph parseDecimal realm) (seen : Seen) (p : Dump (α × Seen))
    (out : α) : Prop :=
  ∀ s, g.Served s → wp (serve g.step parseDecimal) p
    (fun result u => result = (out, seen) ∧ g.Continues s u) (fun _ _ => False) s

theorem RecordGraph.Gives.pure (out : α) : g.Gives seen (Pure.pure (out, seen)) out :=
  fun _ hs => ⟨rfl, hs.refl⟩

theorem RecordGraph.Gives.next {p : Dump (α × Seen)} {out : α} (h : g.Gives seen p out)
    (hs : g.Served s) {f : α × Seen → Dump β} {post : β → Memory → Prop}
    (hf : ∀ u, g.Continues s u →
      wp (serve g.step parseDecimal) (f (out, seen)) post (fun _ _ => False) u) :
    wp (serve g.step parseDecimal) (p >>= f) post (fun _ _ => False) s := by
  rw [wp_bind]
  refine wp_mono (h s hs) ?_ fun _ _ => id
  rintro _ u ⟨rfl, hu⟩
  exact hf u hu

theorem RecordGraph.Gives.bind {p : Dump (α × Seen)} {out : α} (h : g.Gives seen p out)
    {f : α × Seen → Dump (β × Seen)} {out' : β} (hf : g.Gives seen (f (out, seen)) out') :
    g.Gives seen (p >>= f) out' := by
  intro s hs
  refine h.next hs fun u hu => wp_mono (hf u hu.toServed) ?_ fun _ _ => id
  rintro result v ⟨hr, hv⟩
  exact ⟨hr, hu.trans hv⟩

end

section
variable {expandLinks : Bool} {maxDepth : Nat} {chain : List (Int × Int)} {seen : Seen}
  {follow : Int → Int → Seen → Dump (Plain × Seen)}

/-- The links of the graph are rendered, on this chain. -/
def RecordGraph.Follows (g : RecordGraph parseDecimal realm) (expandLinks : Bool) (maxDepth : Nat)
    (chain : List (Int × Int)) (seen : Seen) (follow : Int → Int → Seen → Dump (Plain × Seen)) :
    Prop :=
  ∀ t k, (t, k) ∈ g.nodes →
    g.Gives seen (follow t k seen) (g.render expandLinks maxDepth chain (.link t k))

mutual

/-- **A value is rendered** if its links are. -/
theorem plainValue_spec (hf : g.Follows expandLinks maxDepth chain seen follow) :
    ∀ v, (∀ l ∈ linksOf v, l ∈ g.nodes) →
    g.Gives seen (plainValue follow v seen) (g.render expandLinks maxDepth chain v)
  | .link t k, hl => by
    rw [plainValue]
    exact hf t k (hl _ (List.mem_singleton_self _))
  | .tuple items, hl => by
    rw [plainValue, RecordGraph.render]
    exact (plainItems_spec hf items hl).bind (.pure _)
  | .frozenset items, hl => by
    rw [plainValue, RecordGraph.render]
    exact (plainItems_spec hf items hl).bind (.pure _)
  | .dict entries, hl => by
    rw [plainValue, RecordGraph.render]
    exact (plainEntries_spec hf entries hl).bind (.pure _)
  | .none, _ | .int _, _ | .bool _, _ | .float _, _ | .str _, _ | .bytes _, _ | .uuid _, _
  | .timestamp _ _, _ | .objectId _, _ | .decimal _, _ => by
    simp only [plainValue, RecordGraph.render]
    exact .pure _

theorem plainItems_spec (hf : g.Follows expandLinks maxDepth chain seen follow) :
    ∀ items, (∀ l ∈ linksOfItems items, l ∈ g.nodes) →
    g.Gives seen (plainItems follow items seen) (g.renderItems expandLinks maxDepth chain items)
  | [], _ => by
    rw [plainItems, RecordGraph.renderItems]
    exact .pure _
  | item :: items, hl => by
    rw [plainItems, RecordGraph.renderItems]
    rw [linksOfItems, List.forall_mem_append] at hl
    exact (plainValue_spec hf item hl.1).bind ((plainItems_spec hf items hl.2).bind (.pure _))

theorem plainEntries_spec (hf : g.Follows expandLinks maxDepth chain seen follow) :
    ∀ entries, (∀ l ∈ linksOfEntries entries, l ∈ g.nodes) →
    g.Gives seen (plainEntries follow entries seen)
      (g.renderEntries expandLinks maxDepth chain entries)
  | [], _ => by
    rw [plainEntries, RecordGraph.renderEntries]
    exact .pure _
  | (key, item) :: entries, hl => by
    rw [plainEntries, RecordGraph.renderEntries]
    rw [linksOfEntries, List.forall_mem_append] at hl
    exact (plainValue_spec hf item hl.1).bind ((plainEntries_spec hf entries hl.2).bind (.pure _))

end

/-- The fields of a record, in order. -/
theorem fieldsToDict_spec (hf : g.Follows expandLinks maxDepth chain seen follow) {r : Nat}
    {id : Int × Int} (hid : id ∈ g.nodes) (entries : List (PyStr × Converted))
    (hsub : entries ⊆ g.fields id) (hl : ∀ l ∈ linksOfEntries entries, l ∈ g.nodes) (s : Memory)
    (hs : g.Served s) (hy : Yields s r id) :
    wp (serve g.step parseDecimal) (fieldsToDict follow r (entries.map Prod.fst) seen)
      (fun out u => out = (g.renderEntries expandLinks maxDepth chain entries, seen) ∧
        g.Continues s u) (fun _ _ => False) s := by
  induction entries generalizing s with
  | nil =>
    rw [RecordGraph.renderEntries]
    exact ⟨rfl, hs.refl⟩
  | cons e entries ih =>
    obtain ⟨key, v⟩ := e
    rw [linksOfEntries, List.forall_mem_append] at hl
    rw [List.map_cons, fieldsToDict, RecordGraph.renderEntries, wp_bind]
    refine wp_field hs hy hid (hsub List.mem_cons_self) fun u hu => ?_
    refine (plainValue_spec hf v hl.1).next hu.toServed fun w hw => ?_
    have hsw := hu.trans hw
    rw [wp_bind]
    refine wp_mono (ih (fun _ he => hsub (List.mem_cons_of_mem _ he)) hl.2 w hw.toServed
      (hy.kept hsw.kept)) ?_ fun _ _ hno => hno
    rintro _ x ⟨rfl, hx⟩
    exact ⟨rfl, hsw.trans hx⟩

/-- **`_to_dict`** adds its record to the chain, and takes it off again. -/
theorem recordToDict_spec {id : Int × Int}
    (hf : g.Follows expandLinks maxDepth (id :: chain) (id :: chain).toFinset follow)
    (hid : id ∈ g.nodes) {r : Nat} (hs : g.Served s) (hy : Yields s r id) :
    wp (serve g.step parseDecimal) (recordToDict realm follow r chain.toFinset)
      (fun out u => out = (if id ∈ chain then reference (g.name id.1) id.2
          else .dict (g.renderEntries expandLinks maxDepth (id :: chain) (g.fields id)),
        chain.toFinset) ∧ g.Continues s u) (fun _ _ => False) s := by
  rw [recordToDict, wp_bind]
  refine wp_identity hy ?_
  by_cases hm : id ∈ chain
  · simp only [List.mem_toFinset, hm, if_true]
    rw [recordReference, g.tables id hid]
    exact ⟨rfl, hs.refl⟩
  · simp only [List.mem_toFinset, hm, if_false]
    rw [wp_bind]
    refine wp_keys hs hy hid ?_
    rw [wp_bind, ← List.toFinset_cons]
    refine wp_mono (fieldsToDict_spec hf hid (g.fields id) (fun _ he => he) (g.linked id hid) s hs hy)
      ?_ fun _ _ hno => hno
    rintro _ u ⟨rfl, hu⟩
    -- what was added is there to be removed
    have hin : id ∈ (id :: chain).toFinset := List.mem_toFinset.mpr List.mem_cons_self
    have hout : (id :: chain).toFinset.erase id = chain.toFinset := by
      rw [List.toFinset_cons, Finset.erase_insert]
      rwa [List.mem_toFinset]
    show wp _ (removeSeen id (id :: chain).toFinset >>= _) _ _ u
    rw [removeSeen, if_pos hin, hout]
    exact ⟨rfl, hu⟩

end

theorem linkReference_gives {expandLinks : Bool} {maxDepth : Nat} {chain : List (Int × Int)}
    (hle : enclosing chain ≤ maxDepth) {t k : Int} (hid : (t, k) ∈ g.nodes)
    (h : expandLinks = false ∨ enclosing chain = maxDepth) :
    g.Gives chain.toFinset (linkReference realm t k >>= fun out => pure (out, chain.toFinset))
      (g.render expandLinks maxDepth chain (.link t k)) := by
  have hreference : expandLinks = false ∨ enclosing chain = maxDepth ∨ (t, k) ∈ chain :=
    h.imp_right Or.inl
  rw [g.render_link expandLinks maxDepth hle, if_pos hreference, linkReference, g.tables _ hid]
  exact .pure _

/-- **Every link is rendered**, whatever else was expanded before. -/
theorem linkToPlain_spec (g : RecordGraph parseDecimal realm) (expandLinks : Bool) (maxDepth : Nat) :
    ∀ (remaining : Nat) (chain : List (Int × Int)), chain ≠ [] →
      enclosing chain + remaining = maxDepth →
      g.Follows expandLinks maxDepth chain chain.toFinset (linkToPlain realm expandLinks remaining)
  | 0, chain, _, hd => by
    intro t k hid
    rw [linkToPlain]
    exact linkReference_gives (by omega) hid (Or.inr (by omega))
  | remaining + 1, chain, hne, hd => by
    intro t k hid
    rw [linkToPlain]
    cases hexp : expandLinks with
    | false =>
      rw [if_neg Bool.false_ne_true]
      exact linkReference_gives (by omega) hid (Or.inl rfl)
    | true =>
      rw [if_pos rfl]
      intro s hs
      have hlen := List.length_pos_of_ne_nil hne
      have hnext : enclosing ((t, k) :: chain) + remaining = maxDepth := by
        unfold enclosing at hd ⊢
        rw [List.length_cons]
        omega
      have hrender : g.render true maxDepth chain (.link t k) =
          if (t, k) ∈ chain then reference (g.name t) k
          else .dict (g.renderEntries true maxDepth ((t, k) :: chain) (g.fields (t, k))) := by
        have hno : enclosing chain ≠ maxDepth := by omega
        rw [g.render_link true maxDepth (by omega)]
        simp only [Bool.true_eq_false, hno, false_or]
      refine wp_resolved hs hid fun r u hu hy => ?_
      have hf := linkToPlain_spec g true maxDepth remaining _ (List.cons_ne_nil _ _) hnext
      refine wp_mono (recordToDict_spec hf hid hu hy) ?_ fun _ _ hno => hno
      rintro _ v ⟨rfl, hv⟩
      exact ⟨hv, fun w hw => ⟨by rw [hrender], hw⟩⟩

/-- **What `to_dict` returns**, on any graph of records, in any state of the realm
they belong to: it always returns, and returns the expansion of its record. -/
theorem toDict_renders (g : RecordGraph parseDecimal realm) (hs : Reachable parseDecimal s)
    (hstable : Stable g.raw s.answers) {root : Int × Int} (hroot : root ∈ g.nodes) {r : Nat}
    (hy : Yields s r root) (expandLinks : Bool) {maxDepth : Int} (hd : 0 ≤ maxDepth) :
    (∃ u result, Runs (serve g.step parseDecimal) s (toDict realm expandLinks maxDepth r) u result) ∧
    ∀ u result, Runs (serve g.step parseDecimal) s (toDict realm expandLinks maxDepth r) u result →
      result = .ok (g.expansion expandLinks maxDepth.toNat root) ∧
        Reachable parseDecimal u ∧ Stable g.raw u.answers ∧ Yields u r root := by
  refine ⟨exists_runs _ (serve_serial parseDecimal g.step_serial) _ s, fun u result hrun => ?_⟩
  have hspec : wp (serve g.step parseDecimal) (toDict realm expandLinks maxDepth r)
      (fun out u => out = g.expansion expandLinks maxDepth.toNat root ∧ g.Continues s u)
      (fun _ _ => False) s := by
    rw [toDict, if_neg (by omega), wp_bind]
    have hf := linkToPlain_spec g expandLinks maxDepth.toNat maxDepth.toNat [root]
      (List.cons_ne_nil _ _) (Nat.zero_add _)
    refine wp_mono (recordToDict_spec (show g.Follows expandLinks maxDepth.toNat (root :: []) _ _
      from hf) hroot ⟨hs, hstable⟩ hy) ?_
      fun _ _ hno => hno
    rintro _ u ⟨rfl, hu⟩
    refine ⟨?_, hu⟩
    rw [RecordGraph.expansion, if_neg List.not_mem_nil]
  obtain ⟨out, rfl, rfl, hu⟩ := hrun.returned hspec
  exact ⟨rfl, hu.reachable, hu.stable, hy.kept hu.kept⟩

end

/-! ## A record linked to itself -/

def loopRaw : Dict PyStr Value :=
  ((Dict.empty.set TABLE_KEY (.int 5)).set OBJECT_KEY (.int 3)).set "me".toList (.link 5 3)

/-- After one read of the record. -/
def loopMemory : Memory where
  heap := (Heap.empty.allocate ⟨5, 3, fieldsOf loopRaw, Dict.empty⟩).assign (5, 3) 0
  answers := [.ok loopRaw]

theorem reachable_loop : Reachable (fun _ => none) loopMemory := by
  have hi : recordIdentity loopRaw = .ok (5, 3) := rfl
  exact reachable_first _ hi

def nodeTable : TableSchema := ⟨"Node".toList, 5, none, false, false, []⟩

def loopRealm : RealmSchema :=
  ⟨[nodeTable], Dict.empty.set nodeTable.name nodeTable, Dict.empty.set nodeTable.key nodeTable⟩

def loopGraph : RecordGraph (fun _ => none) loopRealm where
  nodes := {(5, 3)}
  raw := fun _ => loopRaw
  fields := fun _ => [("me".toList, .link 5 3)]
  name := fun _ => "Node".toList
  named := by
    intro id hid
    rw [Finset.mem_singleton.mp hid]
    exact ⟨rfl, rfl⟩
  decodes := fun _ _ => rfl
  linked := by
    intro id _ l hl
    exact Finset.mem_singleton.mpr (List.mem_singleton.mp hl)
  tables := by
    intro id hid
    rw [Finset.mem_singleton.mp hid]
    rfl

/-- Seven links may be expanded, but the record inside itself is a reference. -/
theorem toDict_renders_loop : ∃ u, Runs (serve loopGraph.step (fun _ => none)) loopMemory
    (toDict loopRealm true 7 0) u (.ok (.dict [("me".toList, reference "Node".toList 3)])) := by
  have hstable : Stable loopGraph.raw loopMemory.answers := by
    intro raw _ hm _
    cases List.mem_singleton.mp hm
    rfl
  obtain ⟨⟨u, result, hrun⟩, hall⟩ := toDict_renders loopGraph reachable_loop hstable
    (Finset.mem_singleton_self (5, 3)) ⟨List.mem_singleton_self 0, _, rfl, rfl⟩ true
    (show (0 : Int) ≤ 7 by decide)
  have hout : loopGraph.expansion true (7 : Int).toNat (5, 3) =
      .dict [("me".toList, reference "Node".toList 3)] := by
    show Plain.dict (loopGraph.renderEntries true 7 [(5, 3)] [("me".toList, .link 5 3)]) = _
    rw [RecordGraph.renderEntries, RecordGraph.renderEntries, RecordGraph.render,
      if_neg (fun h => h.2.2 (List.mem_singleton_self _))]
    rfl
  refine ⟨u, ?_⟩
  rw [← hout, ← (hall u result hrun).1]
  exact hrun

end Pyrealm.Reader
