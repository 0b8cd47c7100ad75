import Pyrealm.Reader.Expansion

/-!
# `to_dict` on damaged data

Links that do not resolve, fields that do not decode, metadata that is missing or
wrong, tables without a name: whatever the native layer answers.

    toDict returns, or raises for a reason        (toDict_excused)

* `Excused`: the reasons.  `KeyError`, of a field or of `seen.remove`, is none, and
  neither is `NativeError`.
* `Careful`: a part of `to_dict` gives back the set `seen` it was given, or raises
  for a reason.
-/

namespace Pyrealm.Reader

open Py Effects Interning

/-! ## Reasons -/

section
variable (parseDecimal : PyStr → Option PyStr) (realm : RealmSchema)

/-- Why `to_dict` may raise between `s` and `u`: the last native answer was this
exception, or it is a `RealmError`. -/
def Excused (s u : Memory) : DumpError → Prop
  | .access (.realmError _) => True
  | .access e => e ≠ .nativeError ∧
    ∃ before, s.answers <+: before ∧ u.answers = before ++ [.error e]
  | .unknownTable e => realm.tableName e.key = .error e
  | .unknownLinkTable key => realm.tableName key = .error ⟨key⟩
  | .keyError => False

/-- A part of `to_dict` that returns leaves the realm as operations do. -/
structure Goes (s u : Memory) : Prop extends Advances parseDecimal s u where
  answers : s.answers <+: u.answers

/-- One that raises has a reason, and keeps the records that are held. -/
structure Raised (s u : Memory) (e : DumpError) : Prop where
  reachable : Reachable parseDecimal u
  kept : Kept Record.Grows s.heap u.heap
  excused : Excused realm s u e

/-- It gives back the set `seen` that it was given, or raises for a reason. -/
def Careful {α : Type} (seen : Seen) (p : Dump (α × Seen)) : Prop :=
  ∀ s, Reachable parseDecimal s → wp (serve step parseDecimal) p
    (fun out u => out.2 = seen ∧ Goes parseDecimal s u) (fun e u => Raised parseDecimal realm s u e) s

end

section
variable {parseDecimal : PyStr → Option PyStr} {realm : RealmSchema} {s u : Memory}

theorem Goes.refl (hs : Reachable parseDecimal s) : Goes parseDecimal s s :=
  ⟨.refl hs, List.prefix_rfl⟩

theorem Goes.trans {v : Memory} (h : Goes parseDecimal s u) (h' : Goes parseDecimal u v) :
    Goes parseDecimal s v :=
  ⟨h.toAdvances.trans h'.toAdvances, h.answers.trans h'.answers⟩

theorem Excused.before {v : Memory} (h : s.answers <+: u.answers) {e : DumpError}
    (he : Excused realm u v e) : Excused realm s v e := by
  cases e with
  | access e =>
    cases e with
    | realmError reason => exact trivial
    | _ =>
      obtain ⟨hne, before, hbefore, hv⟩ := he
      exact ⟨hne, before, h.trans hbefore, hv⟩
  | keyError => exact he
  | unknownTable e => exact he
  | unknownLinkTable key => exact he

theorem Goes.raised {v : Memory} (h : Goes parseDecimal s u) {e : DumpError}
    (he : Raised parseDecimal realm u v e) : Raised parseDecimal realm s v e :=
  ⟨he.reachable, h.kept.trans he.kept, he.excused.before h.answers⟩

/-- What is raised where nothing has changed. -/
theorem Raised.here (hs : Reachable parseDecimal s) {e : DumpError} (he : Excused realm s s e) :
    Raised parseDecimal realm s s e := ⟨hs, Kept.refl _, he⟩

/-! ## Rules -/

section
variable {α β : Type} {seen : Seen}

theorem Careful.pure (a : α) : Careful parseDecimal realm seen (Pure.pure (a, seen)) :=
  fun _ hs => ⟨rfl, .refl hs⟩

theorem Careful.next {p : Dump (α × Seen)} (h : Careful parseDecimal realm seen p)
    (hs : Reachable parseDecimal s) {f : α × Seen → Dump β} {post : β → Memory → Prop}
    (hf : ∀ a u, Goes parseDecimal s u →
      wp (serve step parseDecimal) (f (a, seen)) post (fun e v => Raised parseDecimal realm s v e) u) :
    wp (serve step parseDecimal) (p >>= f) post (fun e v => Raised parseDecimal realm s v e) s := by
  rw [wp_bind]
  refine wp_mono (h s hs) ?_ fun _ _ => id
  rintro ⟨a, _⟩ u ⟨rfl, hu⟩
  exact hf a u hu

theorem Careful.bind {p : Dump (α × Seen)} (h : Careful parseDecimal realm seen p)
    {f : α × Seen → Dump (β × Seen)} (hf : ∀ a, Careful parseDecimal realm seen (f (a, seen))) :
    Careful parseDecimal realm seen (p >>= f) := by
  intro s hs
  refine h.next hs fun a u hu => wp_mono (hf a u hu.reachable) ?_ fun _ _ => hu.raised
  rintro out v ⟨hout, hv⟩
  exact ⟨hout, hu.trans hv⟩

end

/-! ## Requests -/

theorem step_answers (s : Memory) (c : Command) (answer : Except Error (Answer c)) (t : Memory)
    (h : step s c answer t) : s.answers <+: t.answers := by
  by_cases hc : c.Silent
  · rw [silent_answers s c answer t hc h rfl]
  · obtain ⟨heap, -, he⟩ := h
    cases c with
    | native read =>
      cases he
      exact List.prefix_append _ _
    | _ => exact absurd trivial hc

/-- A field that the record has is read, or cannot be decoded. -/
theorem readField_mem {raw : Dict PyStr Value} {key : PyStr} (hkey : key ∈ (fieldsOf raw).keys)
    {e : Error} (h : readField parseDecimal raw key = .error e) :
    ∃ reason, e = .realmError reason := by
  obtain ⟨value, hvalue⟩ := (Dict.mem_iff_get? _ _).mp hkey
  rw [readField, hvalue] at h
  dsimp only at h
  unfold convertField at h
  split at h
  · cases h
  · cases h
    exact ⟨_, rfl⟩
  · next e' hno hconv =>
    obtain ⟨reason, rfl⟩ := convert_error parseDecimal hconv
    exact absurd rfl (hno reason)

theorem wp_heldField (hs : Reachable parseDecimal s) {r : Nat} {raw : Dict PyStr Value}
    (hr : HoldsRecord s r raw) {key : PyStr} (hkey : key ∈ (fieldsOf raw).keys) :
    wp (serve step parseDecimal) (request (.field r key)) (fun _ u => Goes parseDecimal s u)
      (fun e u => Raised parseDecimal realm s u e) s := by
  obtain ⟨record, hl, hraw⟩ := hr.live
  rw [request, wp_perform]
  constructor
  · rintro v u ⟨result, hrun, -⟩
    obtain ⟨-, hans, hu⟩ := field_run_keeps hs hr.held hl hraw hrun
    exact ⟨hu, hans ▸ List.prefix_rfl⟩
  · rintro e u ⟨result, hrun, ha⟩
    obtain ⟨hread, -, hu⟩ := field_run_keeps hs hr.held hl hraw hrun
    cases result with
    | ok v => cases ha
    | error e' =>
      cases ha
      obtain ⟨reason, rfl⟩ := readField_mem hkey hread
      exact ⟨hu.reachable, hu.kept, trivial⟩

/-- A link resolves to a record that is held once more, or does not for a reason. -/
theorem wp_resolveLink (hs : Reachable parseDecimal s) (t k : Int) {post : Nat → Memory → Prop}
    (h : ∀ r u raw, Reachable parseDecimal u → Kept Record.Grows s.heap u.heap →
      u.heap.roots = r :: s.heap.roots → s.answers <+: u.answers → HoldsRecord u r raw → post r u) :
    wp (serve step parseDecimal) (request (.resolve t k)) post
      (fun e u => Raised parseDecimal realm s u e) s := by
  rw [request, wp_perform]
  constructor
  · rintro r u ⟨result, hrun, ha⟩
    obtain ⟨hu, hkept, hends⟩ := resolve_run hs hrun
    have hkeep : ∀ (v : Memory) c answer w, step v c answer w → s.answers <+: v.answers →
        s.answers <+: w.answers := fun v c answer w hstep hv =>
      hv.trans (step_answers v c answer w hstep)
    have hanswers : s.answers <+: u.answers := hrun.keeps hkeep List.prefix_rfl
    cases result with
    | error e => cases ha
    | ok r' =>
      cases ha
      obtain ⟨hroots, identity, hy, -⟩ := hends
      obtain ⟨raw, hr⟩ := holdsRecord_of_yields hu hy
      exact h r u raw hu hkept hroots hanswers hr
  · rintro e u ⟨result, hrun, ha⟩
    obtain ⟨hu, hkept, hends⟩ := resolve_run hs hrun
    cases result with
    | ok r => cases ha
    | error e' =>
      cases ha
      obtain ⟨answer, hanswer, he⟩ := hends
      refine ⟨hu, hkept, ?_⟩
      rcases surface_error he with ⟨reason, rfl⟩ | ⟨rfl, hne⟩
      · exact trivial
      · have hlast : e' ≠ .nativeError ∧ ∃ before, s.answers <+: before ∧
            u.answers = before ++ [.error e'] := ⟨hne, s.answers, List.prefix_rfl, hanswer⟩
        cases e' with
        | realmError reason => exact trivial
        | _ => exact hlast

/-! ## Parts of `to_dict` -/

section
variable {follow : Int → Int → Seen → Dump (Plain × Seen)} {seen : Seen}

mutual

theorem plainValue_careful (hf : ∀ t k, Careful parseDecimal realm seen (follow t k seen)) :
    ∀ v, Careful parseDecimal realm seen (plainValue follow v seen)
  | .link t k => by
    rw [plainValue]
    exact hf t k
  | .tuple items => by
    rw [plainValue]
    exact (plainItems_careful hf items).bind fun _ => .pure _
  | .frozenset items => by
    rw [plainValue]
    exact (plainItems_careful hf items).bind fun _ => .pure _
  | .dict entries => by
    rw [plainValue]
    exact (plainEntries_careful hf entries).bind fun _ => .pure _
  | .none | .int _ | .bool _ | .float _ | .str _ | .bytes _ | .uuid _ | .timestamp _ _
  | .objectId _ | .decimal _ => by
    simp only [plainValue]
    exact .pure _

theorem plainItems_careful (hf : ∀ t k, Careful parseDecimal realm seen (follow t k seen)) :
    ∀ items, Careful parseDecimal realm seen (plainItems follow items seen)
  | [] => by
    rw [plainItems]
    exact .pure _
  | item :: items => by
    rw [plainItems]
    exact (plainValue_careful hf item).bind fun _ =>
      (plainItems_careful hf items).bind fun _ => .pure _

theorem plainEntries_careful (hf : ∀ t k, Careful parseDecimal realm seen (follow t k seen)) :
    ∀ entries, Careful parseDecimal realm seen (plainEntries follow entries seen)
  | [] => by
    rw [plainEntries]
    exact .pure _
  | (key, item) :: entries => by
    rw [plainEntries]
    exact (plainValue_careful hf item).bind fun _ =>
      (plainEntries_careful hf entries).bind fun _ => .pure _

end

theorem fieldsToDict_careful (hf : ∀ t k, Careful parseDecimal realm seen (follow t k seen)) {r : Nat}
    {raw : Dict PyStr Value} (keys : List PyStr) (hkeys : keys ⊆ (fieldsOf raw).keys) {s : Memory}
    (hs : Reachable parseDecimal s) (hr : HoldsRecord s r raw) :
    wp (serve step parseDecimal) (fieldsToDict follow r keys seen)
      (fun out u => out.2 = seen ∧ Goes parseDecimal s u)
      (fun e u => Raised parseDecimal realm s u e) s := by
  induction keys generalizing s with
  | nil => exact ⟨rfl, .refl hs⟩
  | cons key keys ih =>
    rw [fieldsToDict, wp_bind]
    refine wp_mono (wp_heldField hs hr (hkeys List.mem_cons_self)) (fun v u hu => ?_) fun _ _ => id
    refine wp_mono ((plainValue_careful hf v).next hu.reachable fun item w hw => ?_) (fun _ _ => id)
      fun _ _ => hu.raised
    have hsw := hu.trans hw
    rw [wp_bind]
    refine wp_mono (ih (fun _ hk => hkeys (List.mem_cons_of_mem _ hk)) hw.reachable
      (hr.kept hsw.kept)) ?_ fun _ _ => hw.raised
    rintro ⟨entries, _⟩ x ⟨rfl, hx⟩
    exact ⟨rfl, hsw.trans hx⟩

end

theorem tableName_error {key : Int} {e : UnknownTable} (h : realm.tableName key = .error e) :
    e = ⟨key⟩ := by
  rw [RealmSchema.tableName] at h
  split at h
  · cases h
  · cases h
    rfl

/-- **`_to_dict`** takes off the set what it put on it. -/
theorem recordToDict_careful {follow : Int → Int → Seen → Dump (Plain × Seen)}
    (hf : ∀ seen t k, Careful parseDecimal realm seen (follow t k seen)) (seen : Seen) {s : Memory}
    (hs : Reachable parseDecimal s) {r : Nat} {raw : Dict PyStr Value} (hr : HoldsRecord s r raw) :
    wp (serve step parseDecimal) (recordToDict realm follow r seen)
      (fun out u => out.2 = seen ∧ Goes parseDecimal s u)
      (fun e u => Raised parseDecimal realm s u e) s := by
  obtain ⟨record, hl, hraw⟩ := hr.live
  rw [recordToDict, wp_bind, request, wp_perform]
  constructor
  · rintro identity _ ⟨rfl, -⟩
    by_cases hseen : identity ∈ seen
    · rw [if_pos hseen, recordReference]
      cases htable : realm.tableName identity.1 with
      | ok table => exact ⟨rfl, .refl hs⟩
      | error e =>
        cases tableName_error htable
        exact Raised.here hs htable
    · rw [if_neg hseen, wp_bind, request, wp_perform]
      constructor
      · rintro keys _ ⟨rfl, hkeys⟩
        rw [Memory.ofRecord, hl] at hkeys
        cases hkeys
        have hinner := fieldsToDict_careful (hf (insert identity seen)) record.raw.keys
          (fun _ hk => hraw ▸ hk) hs hr
        rw [wp_bind]
        refine wp_mono hinner ?_ fun _ _ => id
        rintro ⟨entries, _⟩ u ⟨rfl, hu⟩
        show wp _ (removeSeen identity (insert identity seen) >>= _) _ _ u
        rw [removeSeen, if_pos (Finset.mem_insert_self _ _), Finset.erase_insert hseen]
        exact ⟨rfl, hu⟩
      · rintro e _ ⟨-, he⟩
        rw [Memory.ofRecord, hl] at he
        cases he
  · rintro e _ ⟨-, he⟩
    rw [Memory.ofRecord, hl] at he
    cases he

theorem linkReference_careful (t k : Int) (seen : Seen) : Careful parseDecimal realm seen
    (linkReference realm t k >>= fun out => pure (out, seen)) := by
  rw [linkReference]
  cases htable : realm.tableName t with
  | ok table => exact .pure _
  | error e =>
    cases tableName_error htable
    exact fun s hs => Raised.here hs htable

/-- **Links are followed** to any depth, wherever they lead. -/
theorem linkToPlain_careful (expandLinks : Bool) (remaining : Nat) (seen : Seen) (t k : Int) :
    Careful parseDecimal realm seen (linkToPlain realm expandLinks remaining t k seen) := by
  induction remaining generalizing seen t k with
  | zero =>
    rw [linkToPlain]
    exact linkReference_careful t k seen
  | succ remaining ih =>
    rw [linkToPlain]
    split
    · intro s hs
      rw [wp_bind]
      refine wp_resolveLink hs t k fun r u raw hu hkept hroots hanswers hr => ?_
      rw [wp_bind]
      refine wp_mono (recordToDict_careful (fun seen t k => ih seen t k) seen hu hr) ?_ ?_
      · rintro out v ⟨hout, hv⟩
        rw [wp_bind, request, wp_perform]
        constructor
        · rintro _ w ⟨rfl, -⟩
          exact ⟨hout, Advances.drop hkept hroots hv.toAdvances, hanswers.trans hv.answers⟩
        · rintro e w ⟨-, ha⟩
          cases ha
      · intro e v hv
        exact ⟨hv.reachable, hkept.trans hv.kept, hv.excused.before hanswers⟩
    · exact linkReference_careful t k seen

/-- **`to_dict` on any data**: below the recursion limit it ends, and it returns, having
dropped every record that it resolved, or raises for a reason.  Either way the records
that were held are held, with the identity, the fields and the conversions they had. -/
theorem toDict_excused (realm : RealmSchema) (hs : Reachable parseDecimal s) {r : Nat}
    (hr : r ∈ s.heap.roots) (expandLinks : Bool) (maxDepth : Int) :
    (∃ u result,
      Runs (serve step parseDecimal) s (toDict realm expandLinks maxDepth r) u result) ∧
    ∀ u result, Runs (serve step parseDecimal) s (toDict realm expandLinks maxDepth r) u result →
      if maxDepth < 0 then result = .error (.access .valueError) ∧ u = s
      else Ends (fun _ u => Goes parseDecimal s u) (fun e u => Raised parseDecimal realm s u e)
        u result := by
  refine ⟨exists_runs _ (serve_serial parseDecimal step_serial) _ s, fun u result hrun => ?_⟩
  rw [toDict] at hrun
  split
  · next hneg =>
    rw [if_pos hneg] at hrun
    cases hrun
    exact ⟨rfl, rfl⟩
  · next hpos =>
    rw [if_neg hpos] at hrun
    obtain ⟨identity, hy⟩ := (reachable_inv hs).yields hr
    obtain ⟨raw, hheld⟩ := holdsRecord_of_yields hs hy
    refine (wp_iff_runs _ _ _ _ _).mp ?_ u result hrun
    rw [wp_bind]
    refine wp_mono (recordToDict_careful
      (fun seen t k => linkToPlain_careful expandLinks maxDepth.toNat seen t k) ∅ hs hheld) ?_
      fun _ _ => id
    rintro ⟨out, _⟩ v ⟨-, hv⟩
    exact hv

end

/-- The link of the record to itself, with a native layer that may fail. -/
theorem toDict_excused_loop : ∃ u result,
    Runs (serve step (fun _ => none)) loopMemory (toDict loopRealm true 7 0) u result ∧
    Ends (fun _ u => Goes (fun _ => none) loopMemory u)
      (fun e u => Raised (fun _ => none) loopRealm loopMemory u e) u result := by
  obtain ⟨⟨u, result, hrun⟩, hall⟩ :=
    toDict_excused loopRealm reachable_loop (List.mem_singleton_self 0) true 7
  exact ⟨u, result, hrun, hall u result hrun⟩

end Pyrealm.Reader
