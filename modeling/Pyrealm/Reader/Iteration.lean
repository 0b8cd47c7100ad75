import Pyrealm.Reader.Results

/-!
# Iteration over a result set

`Results.__iter__` and `iter_valid`, resumed by a caller that does anything
between two records, over any entries: readable, damaged, or not read at all.

    iter_valid visits 0, …, n - 1        (iteration_visits)
    __iter__ visits 0, …, the first index that cannot be read

* `wp_readItem`: what reading one entry does, given the native answer for it.
* `Drives`: a generator resumed some times.
* `Exhausts`: however it is driven, it visits the indices in order and ends.
-/

namespace Pyrealm.Reader

open Py Effects Interning

/-! ## Result sets -/

section
variable (results count : Nat) (item : Int → RawAnswer)

/-- What the native layer answers for this result set. -/
def Serves : (c : Command) → Except Error (Answer c) → Prop
  | .native (.item r index), answer => r = results → answer = item index
  | .nativeLen r, answer => r = results → answer = .ok count
  | _, _ => True

/-- A command after any garbage collection, over this result set. -/
def serving (s : Memory) (c : Command) (answer : Except Error (Answer c)) (t : Memory) : Prop :=
  step s c answer t ∧ Serves results count item c answer

theorem serving_serial (s : Memory) (c : Command) :
    ∃ answer t, serving results count item s c answer t := by
  cases c with
  | native read =>
    cases read with
    | record t k => exact ⟨.error .nativeError, _, ⟨_, .refl, rfl⟩, trivial⟩
    | item r index => exact ⟨item index, _, ⟨_, .refl, rfl⟩, fun _ => rfl⟩
  | nativeLen r => exact ⟨.ok count, _, ⟨_, .refl, rfl⟩, fun _ => rfl⟩
  | _ => exact ⟨_, _, ⟨_, .refl, rfl, rfl⟩, trivial⟩

/-- A `NativeError`, or a raw dictionary, whatever its metadata. -/
def Answered (answer : RawAnswer) : Prop := (∃ raw, answer = .ok raw) ∨ answer = .error .nativeError

end

theorem readable_or_broken {answer : RawAnswer} (h : Answered answer) :
    (∃ raw identity, answer = .ok raw ∧ Names raw identity) ∨ Broken answer := by
  rcases h with ⟨raw, rfl⟩ | rfl
  · by_cases hn : ∃ identity, Names raw identity
    · obtain ⟨identity, hn⟩ := hn
      exact Or.inl ⟨raw, identity, rfl, hn⟩
    · exact Or.inr (not_exists.mp hn)
  · exact Or.inr rfl

section
variable {parseDecimal : PyStr → Option PyStr} {results count : Nat} {item : Int → RawAnswer}
  {s : Memory}

theorem readItem_answers (s : Memory) (index : Int) :
    wp (serving results count item) (readItem results index)
      (fun _ t => t.answers = s.answers ++ [item index])
      (fun _ t => t.answers = s.answers ++ [item index]) s := by
  rw [readItem, wp_bind, ask, wp_perform]
  constructor
  · rintro raw t ⟨⟨heap, -, ht⟩, ha⟩
    cases ht
    have hraw : .ok raw = item index := ha rfl
    rw [← hraw]
    exact wp_of_only (fun _ _ _ _ hc hst => silent_answers _ _ _ _ hc hst.1)
      (recordFromRaw_silent raw) rfl
  · rintro e t ⟨⟨heap, -, ht⟩, ha⟩
    cases ht
    have he : .error e = item index := ha rfl
    rw [← he]

/-- **Reading one entry**: the live record that the native answer names, or the
exception this surfaces as. -/
theorem wp_readItem (h : Inv parseDecimal s) (index : Int) :
    wp (serving results count item) (readItem results index)
      (fun r t => Stage parseDecimal s [item index] none t ∧
        ∃ identity, surface (item index) = .ok identity ∧ Yields t r identity)
      (fun e t => Stage parseDecimal s [item index] none t ∧
        surface (item index) = .error (translate e)) s := by
  rw [wp_iff_runs]
  intro t out hrun
  have hspec : wp step (readItem results index)
      (fun r t => ∃ answer, Stage parseDecimal s [answer] none t ∧
        ∃ identity, surface answer = .ok identity ∧ Yields t r identity)
      (fun e t => ∃ answer, Stage parseDecimal s [answer] none t ∧
        surface answer = .error (translate e)) s :=
    h.start.wp_readItem results index
      (fun answer identity _ _ ha ht hy => ⟨answer, ht, identity, ha, hy⟩)
      fun answer _ _ ha ht => ⟨answer, ht, ha⟩
  have hends := (wp_iff_runs _ _ _ _ _).mp hspec t out (hrun.mono fun _ _ _ _ hst => hst.1)
  have hanswers := (wp_iff_runs _ _ _ _ _).mp (readItem_answers s index) t out hrun
  -- the one answer is the one for this index
  have hone : ∀ answer, t.answers = s.answers ++ [item index] →
      Stage parseDecimal s [answer] none t → answer = item index := by
    intro answer ha ht
    rw [ht.answers] at ha
    exact List.singleton_injective (List.append_cancel_left ha)
  cases out with
  | ok r =>
    obtain ⟨answer, ht, hy⟩ := hends
    cases hone answer hanswers ht
    exact ⟨ht, hy⟩
  | error e =>
    obtain ⟨answer, ht, he⟩ := hends
    cases hone answer hanswers ht
    exact ⟨ht, he⟩

theorem wp_getItem (h : Inv parseDecimal s) (index : Int) :
    wp (serving results count item) (getItem results index)
      (fun r t => Stage parseDecimal s [item index] none t ∧
        ∃ identity, surface (item index) = .ok identity ∧ Yields t r identity)
      (fun e t => Stage parseDecimal s [item index] none t ∧ surface (item index) = .error e) s := by
  rw [getItem, withNativeErrors, wp_tryCatch]
  exact wp_readItem h index

/-- The length is the count. -/
theorem wp_len (h : Inv parseDecimal s) {post : Nat → Memory → Prop} {exn : Error → Memory → Prop}
    (hpost : ∀ t, Stage parseDecimal s [] none t → post count t) :
    wp (serving results count item) (len results) post exn s := by
  rw [wp_iff_runs]
  intro t out hrun
  have hkept : wp step (len results) (fun _ t => Stage parseDecimal s [] none t)
      (fun _ t => Stage parseDecimal s [] none t) s :=
    h.start.wp_len results (fun _ _ ht => ht) fun _ _ _ ht => ht
  have hstage : Stage parseDecimal s [] none t := by
    apply (hrun.mono fun _ _ _ _ hst => hst.1).of_wp
    exact hkept
  have hcount : wp (serving results count item) (len results) (fun n _ => n = count)
      (fun _ _ => False) s := by
    rw [len, withNativeErrors, wp_tryCatch, ask, wp_perform]
    constructor
    · rintro n t ⟨-, ha⟩
      exact Except.ok.inj (ha rfl)
    · rintro e t ⟨-, ha⟩
      cases ha rfl
  obtain ⟨n, rfl, rfl⟩ := hrun.returned hcount
  exact hpost t hstage

end

/-! ## Generators -/

/-- What is left to resume. -/
def restOf : Except Error Resumed → Option Generator
  | .ok (.yielded _ rest) => some rest
  | .ok (.reported _ _ rest) => some rest
  | _ => none

section
variable (sem : Memory → (c : Command) → Except Error (Answer c) → Memory → Prop)
  (between : Memory → Memory → Prop) (body : Nat → Nat → Nat → Action Resumed)

/-- A generator resumed some times: what each `next` gave, in what state. -/
inductive Drives : Memory → Option Generator → List (Memory × Except Error Resumed) → Memory →
    Option Generator → Prop
  | stay (s : Memory) (g : Option Generator) : Drives s g [] s g
  | next {s t u v : Memory} {g : Generator} {g' : Option Generator} {out : Except Error Resumed}
      {events : List (Memory × Except Error Resumed)} (hrun : Runs sem s (resume body g) t out)
      (hb : between t u) (hrest : Drives u (restOf out) events v g') :
      Drives s (some g) ((t, out) :: events) v g'

/-- However `for` drives the generator of a result set, it visits the indices up
to `stop` in order, and ends there; and every drive can go on to the end. -/
structure Exhausts (results stop : Nat) (visited : Nat → Memory × Except Error Resumed → Prop)
    (s : Memory) : Prop where
  visits : ∀ events t g, Drives sem between body s (some ⟨results, none⟩) events t g →
    ∀ i event, events[i]? = some event → visited i event
  ends : ∀ events t g, Drives sem between body s (some ⟨results, none⟩) events t g →
    events.length ≤ stop + 1 ∧ (g = none ↔ events.length = stop + 1)
  goesOn : ∀ events t g, Drives sem between body s (some ⟨results, none⟩) events t g →
    ∃ more u, Drives sem between body s (some ⟨results, none⟩) (events ++ more) u none

/-- A generator that has visited `i` indices. -/
def Stands (results count stop i : Nat) : Option Generator → Prop
  | some g => i ≤ stop ∧ (g = ⟨results, some (i, count)⟩ ∨ (i = 0 ∧ g = ⟨results, none⟩))
  | none => i = stop + 1

variable {sem between body}

theorem Drives.append {s t u : Memory} {g g' g'' : Option Generator}
    {events more : List (Memory × Except Error Resumed)}
    (h : Drives sem between body s g events t g') (h' : Drives sem between body t g' more u g'') :
    Drives sem between body s g (events ++ more) u g'' := by
  induction h with
  | stay s g => exact h'
  | next hrun hb _ ih => exact .next hrun hb (ih h')

section
variable {keeps : Memory → Prop} {visited : Nat → Memory × Except Error Resumed → Prop}
  {results count stop : Nat}

/-- **The loop**, given what one `next` does. -/
theorem Drives.visits (hbetween : ∀ t u, keeps t → between t u → keeps u)
    (hstep : ∀ i g s t out, Stands results count stop i (some g) → keeps s →
      Runs sem s (resume body g) t out →
      keeps t ∧ visited i (t, out) ∧ Stands results count stop (i + 1) (restOf out))
    {s t : Memory} {g g' : Option Generator} {events : List (Memory × Except Error Resumed)}
    (h : Drives sem between body s g events t g') {i : Nat}
    (hg : Stands results count stop i g) (hs : keeps s) :
    (∀ k event, events[k]? = some event → visited (i + k) event) ∧
      Stands results count stop (i + events.length) g' ∧ keeps t := by
  induction h generalizing i with
  | stay s g =>
    refine ⟨fun k event hk => ?_, hg, hs⟩
    rw [List.getElem?_nil] at hk
    cases hk
  | @next s t u v g g' out events hrun hb _ ih =>
    obtain ⟨ht, hv, hrest⟩ := hstep i g s t out hg hs hrun
    obtain ⟨hall, hend, hkeeps⟩ := ih hrest (hbetween _ _ ht hb)
    refine ⟨fun k event hk => ?_, ?_, hkeeps⟩
    · cases k with
      | zero =>
        cases hk
        exact hv
      | succ k =>
        have hvisit := hall k event hk
        rwa [Nat.add_assoc, Nat.add_comm 1 k] at hvisit
    · rwa [List.length_cons, Nat.add_comm events.length 1, ← Nat.add_assoc]

/-- A generator can be driven to its end. -/
theorem exists_drives (hbetween : ∀ t, between t t)
    (hserial : ∀ s c, ∃ answer t, sem s c answer t)
    (hstep : ∀ i g s t out, Stands results count stop i (some g) → keeps s →
      Runs sem s (resume body g) t out →
      keeps t ∧ visited i (t, out) ∧ Stands results count stop (i + 1) (restOf out))
    {i : Nat} {s : Memory} {g : Option Generator} (hg : Stands results count stop i g)
    (hs : keeps s) : ∃ events t, Drives sem between body s g events t none := by
  cases g with
  | none => exact ⟨[], s, .stay s none⟩
  | some g =>
    obtain ⟨t, out, hrun⟩ := exists_runs sem hserial (resume body g) s
    obtain ⟨ht, -, hrest⟩ := hstep i g s t out hg hs hrun
    have hlt : stop + 1 - (i + 1) < stop + 1 - i := by
      have hle := hg.1
      omega
    obtain ⟨events, u, hu⟩ := exists_drives hbetween hserial hstep hrest ht
    exact ⟨_, u, .next hrun (hbetween t) hu⟩
termination_by stop + 1 - i

theorem exhausts_of_step (hbetween : ∀ t u, keeps t → between t u → keeps u)
    (hrefl : ∀ t, between t t) (hserial : ∀ s c, ∃ answer t, sem s c answer t)
    (hstep : ∀ i g s t out, Stands results count stop i (some g) → keeps s →
      Runs sem s (resume body g) t out →
      keeps t ∧ visited i (t, out) ∧ Stands results count stop (i + 1) (restOf out))
    {s : Memory} (hs : keeps s) : Exhausts sem between body results stop visited s := by
  have hstart : Stands results count stop 0 (some ⟨results, none⟩) :=
    ⟨Nat.zero_le _, Or.inr ⟨rfl, rfl⟩⟩
  constructor
  · intro events t g h i event hi
    obtain ⟨hall, -, -⟩ := h.visits hbetween hstep hstart hs
    have hvisit := hall i event hi
    rwa [Nat.zero_add] at hvisit
  · intro events t g h
    obtain ⟨-, hend, -⟩ := h.visits hbetween hstep hstart hs
    rw [Nat.zero_add] at hend
    cases g with
    | none => exact ⟨Nat.le_of_eq hend, iff_of_true rfl hend⟩
    | some g =>
      have hle := hend.1
      exact ⟨by omega, iff_of_false (Option.some_ne_none g) (by omega)⟩
  · intro events t g h
    obtain ⟨-, hend, hkeeps⟩ := h.visits hbetween hstep hstart hs
    obtain ⟨more, u, hu⟩ := exists_drives hrefl hserial hstep hend hkeeps
    exact ⟨more, u, h.append hu⟩

end

end

/-! ## One record after the other -/

section
variable (results count : Nat) (item : Int → RawAnswer)
  (damage : Nat → Error → Except Error Resumed → Prop)

/-- What `next` gives at an index: the record of the entry, what its damage leads
to, and after the last entry the end. -/
inductive Visited (i : Nat) : Memory × Except Error Resumed → Prop
  | record {t : Memory} {raw : Dict PyStr Value} {identity : Int × Int} {r : Nat} (hi : i < count)
      (hitem : item i = .ok raw) (hn : Names raw identity) (hy : Yields t r identity) :
      Visited i (t, .ok (.yielded r ⟨results, some (i + 1, count)⟩))
  | damaged {t : Memory} {reason : Reason} {out : Except Error Resumed} (hi : i < count)
      (hb : Broken (item i)) (hd : damage i (.realmError reason) out) : Visited i (t, out)
  | stopped {t : Memory} (hi : i = count) : Visited i (t, .ok .stopped)

/-- `RealmError` leaves the generator. -/
def Raises (_ : Nat) (e : Error) (out : Except Error Resumed) : Prop := out = .error e

/-- `on_error(index, error)` is called, and the generator goes on. -/
def Reports (i : Nat) (e : Error) (out : Except Error Resumed) : Prop :=
  out = .ok (.reported i e ⟨results, some (i + 1, count)⟩)

/-- Where `__iter__` ends. -/
def StopsAt (stop : Nat) : Prop :=
  (∀ j < stop, ∃ raw identity, item j = .ok raw ∧ Names raw identity) ∧
    (stop = count ∨ (stop < count ∧ Broken (item stop)))

/-- The caller goes on to do anything: other operations, whatever these get from
the native layer, records dropped, collections. -/
def Later (parseDecimal : PyStr → Option PyStr) : Memory → Memory → Prop :=
  Relation.ReflTransGen (Moves parseDecimal)

end

section
variable {parseDecimal : PyStr → Option PyStr} {results count : Nat} {item : Int → RawAnswer}
  {s : Memory}

theorem Later.inv {t : Memory} (h : Later parseDecimal s t) (hs : Inv parseDecimal s) :
    Inv parseDecimal t := by
  induction h with
  | refl => exact hs
  | tail _ hm ih => exact hm.inv ih

theorem exists_stopsAt (hitem : ∀ i : Nat, i < count → Answered (item i)) :
    ∃ stop, StopsAt count item stop := by
  -- the first index that does not read, if there is one
  have hfirst : ∀ n, n ≤ count → (∃ stop ≤ n, StopsAt count item stop) ∨
      ∀ j < n, ∃ raw identity, item j = .ok raw ∧ Names raw identity := by
    intro n
    induction n with
    | zero => exact fun _ => Or.inr fun j hj => absurd hj (Nat.not_lt_zero j)
    | succ n ih =>
      intro hn
      rcases ih (Nat.le_of_succ_le hn) with ⟨stop, hle, hstop⟩ | hall
      · exact Or.inl ⟨stop, Nat.le_succ_of_le hle, hstop⟩
      · rcases readable_or_broken (hitem n hn) with hread | hbroken
        · refine Or.inr fun j hj => ?_
          rcases Nat.lt_succ_iff_lt_or_eq.mp hj with hj | rfl
          · exact hall j hj
          · exact hread
        · exact Or.inl ⟨n, Nat.le_succ n, hall, Or.inr ⟨hn, hbroken⟩⟩
  rcases hfirst count (Nat.le_refl _) with ⟨stop, -, hstop⟩ | hall
  · exact ⟨stop, hstop⟩
  · exact ⟨count, hall, Or.inl rfl⟩

/-- The range is made by the first `next`. -/
theorem wp_resume {body : Nat → Nat → Nat → Action Resumed} (h : Inv parseDecimal s) {stop i : Nat}
    {g : Generator} (hg : Stands results count stop i (some g))
    {post : Resumed → Memory → Prop} {exn : Error → Memory → Prop}
    (hbody : ∀ t, Stage parseDecimal s [] none t →
      wp (serving results count item) (body results i count) post exn t) :
    wp (serving results count item) (resume body g) post exn s := by
  obtain ⟨-, rfl | ⟨rfl, rfl⟩⟩ := hg
  · exact hbody s h.start
  · show wp _ (len results >>= fun n => body results 0 n) _ _ s
    rw [wp_bind]
    exact wp_len h hbody

/-- What one `next` gives, from what its body does. -/
theorem resume_run {body : Nat → Nat → Nat → Action Resumed} (h : Inv parseDecimal s)
    {stop i : Nat} {g : Generator} (hg : Stands results count stop i (some g))
    {visited : Memory × Except Error Resumed → Prop}
    (hbody : ∀ u, Inv parseDecimal u → wp (serving results count item) (body results i count)
      (fun out t => (∃ new, Stage parseDecimal u new none t) ∧ visited (t, .ok out))
      (fun e t => (∃ new, Stage parseDecimal u new none t) ∧ visited (t, .error e)) u)
    {t : Memory} {out : Except Error Resumed}
    (hrun : Runs (serving results count item) s (resume body g) t out) :
    (∃ new, Stage parseDecimal s new none t) ∧ visited (t, out) := by
  apply hrun.of_wp
  refine wp_resume h hg fun u hu => wp_mono (hbody u hu.inv) ?_ ?_
  · rintro out t ⟨⟨new, ht⟩, hv⟩
    exact ⟨⟨_, hu.trans ht⟩, hv⟩
  · rintro e t ⟨⟨new, ht⟩, hv⟩
    exact ⟨⟨_, hu.trans ht⟩, hv⟩

theorem wp_advance (h : Inv parseDecimal s) {i : Nat} (hi : i ≤ count)
    (hitem : i < count → Answered (item i)) :
    wp (serving results count item) (advance results i count)
      (fun out t => (∃ new, Stage parseDecimal s new none t) ∧
        Visited results count item Raises i (t, .ok out))
      (fun e t => (∃ new, Stage parseDecimal s new none t) ∧
        Visited results count item Raises i (t, .error e)) s := by
  rw [advance]
  by_cases hlt : i < count
  · rw [if_pos hlt, wp_bind]
    have hcases := readable_or_broken (hitem hlt)
    refine wp_mono (wp_getItem h i) ?_ ?_
    · rintro r t ⟨ht, identity, hs, hy⟩
      refine ⟨⟨_, ht⟩, ?_⟩
      obtain ⟨raw, hraw, hn⟩ := surface_eq_ok hs
      exact .record hlt hraw hn hy
    · rintro e t ⟨ht, he⟩
      refine ⟨⟨_, ht⟩, ?_⟩
      rcases hcases with ⟨raw, identity, hraw, hn⟩ | hb
      · rw [hraw] at he
        have hok : surface (.ok raw) = .ok identity := (recordIdentity_eq_ok raw identity).mpr hn
        rw [hok] at he
        cases he
      · obtain ⟨reason, hr⟩ := surface_of_broken hb
        rw [hr] at he
        cases he
        exact .damaged hlt hb rfl
  · rw [if_neg hlt]
    exact ⟨⟨[], h.start⟩, .stopped (by omega)⟩

theorem wp_advanceValid (h : Inv parseDecimal s) {i : Nat} (hi : i ≤ count)
    (hitem : i < count → Answered (item i)) :
    wp (serving results count item) (advanceValid results i count)
      (fun out t => (∃ new, Stage parseDecimal s new none t) ∧
        Visited results count item (Reports results count) i (t, .ok out))
      (fun e t => (∃ new, Stage parseDecimal s new none t) ∧
        Visited results count item (Reports results count) i (t, .error e)) s := by
  rw [advanceValid, wp_tryCatch]
  refine wp_mono (wp_advance h hi hitem) ?_ ?_
  · rintro out t ⟨ht, hv⟩
    refine ⟨ht, ?_⟩
    cases hv with
    | record hi hraw hn hy => exact .record hi hraw hn hy
    | damaged _ _ hd => cases hd
    | stopped hi => exact .stopped hi
  · rintro e t ⟨ht, hv⟩
    cases hv with
    | damaged hi hb hd =>
      cases hd
      exact ⟨ht, .damaged hi hb rfl⟩

/-- One `next` of `Results.__iter__`. -/
theorem advance_run (h : Inv parseDecimal s) (hitem : ∀ i : Nat, i < count → Answered (item i))
    {stop : Nat} (hstop : StopsAt count item stop) {i : Nat} {g : Generator}
    (hg : Stands results count stop i (some g)) {t : Memory} {out : Except Error Resumed}
    (hrun : Runs (serving results count item) s (resume advance g) t out) :
    (∃ new, Stage parseDecimal s new none t) ∧ Visited results count item Raises i (t, out) ∧
      Stands results count stop (i + 1) (restOf out) := by
  have hle : i ≤ stop := hg.1
  have hcount : stop ≤ count := by
    rcases hstop.2 with rfl | ⟨hlt, -⟩
    · exact Nat.le_refl _
    · exact Nat.le_of_lt hlt
  obtain ⟨ht, hv⟩ := resume_run h hg (fun u hu => wp_advance hu (by omega) (hitem i)) hrun
  refine ⟨ht, hv, ?_⟩
  cases hv with
  | record hi hraw hn hy =>
    -- the entry reads, so iteration does not stop here
    have hne : i ≠ stop := by
      rintro rfl
      rcases hstop.2 with rfl | ⟨-, hb⟩
      · exact absurd hi (Nat.lt_irrefl _)
      · rw [hraw] at hb
        exact hb _ hn
    exact ⟨by omega, Or.inl rfl⟩
  | damaged hi hb hd =>
    cases hd
    have heq : i = stop := by
      by_contra hne
      obtain ⟨raw, identity, hraw, hn⟩ := hstop.1 i (by omega)
      rw [hraw] at hb
      exact hb identity hn
    exact congrArg (· + 1) heq
  | stopped hi => exact congrArg (· + 1) (show i = stop by omega)

theorem advance_keeps (hitem : ∀ i : Nat, i < count → Answered (item i)) {stop : Nat}
    (hstop : StopsAt count item stop) (i : Nat) (g : Generator) (s t : Memory)
    (out : Except Error Resumed) (hg : Stands results count stop i (some g))
    (h : Inv parseDecimal s) (hrun : Runs (serving results count item) s (resume advance g) t out) :
    Inv parseDecimal t ∧ Visited results count item Raises i (t, out) ∧
      Stands results count stop (i + 1) (restOf out) := by
  obtain ⟨⟨new, ht⟩, hv, hrest⟩ := advance_run h hitem hstop hg hrun
  exact ⟨ht.inv, hv, hrest⟩

/-- One `next` of `Results.iter_valid`. -/
theorem advanceValid_run (h : Inv parseDecimal s) (hitem : ∀ i : Nat, i < count → Answered (item i))
    {i : Nat} {g : Generator} (hg : Stands results count count i (some g)) {t : Memory}
    {out : Except Error Resumed}
    (hrun : Runs (serving results count item) s (resume advanceValid g) t out) :
    Inv parseDecimal t ∧ Visited results count item (Reports results count) i (t, out) ∧
      Stands results count count (i + 1) (restOf out) := by
  obtain ⟨⟨new, ht⟩, hv⟩ :=
    resume_run h hg (fun u hu => wp_advanceValid hu hg.1 (hitem i)) hrun
  refine ⟨ht.inv, hv, ?_⟩
  cases hv with
  | record hi hraw hn hy => exact ⟨hi, Or.inl rfl⟩
  | damaged hi hb hd =>
    cases hd
    exact ⟨hi, Or.inl rfl⟩
  | stopped hi => exact congrArg (· + 1) hi

end

/-- **`iter_valid` visits every index once, in order**, whatever the entries are
and whatever the caller does in between; `__iter__` does up to the first entry
that cannot be read, and raises `RealmError` there. -/
theorem iteration_visits (parseDecimal : PyStr → Option PyStr) {results count : Nat}
    {item : Int → RawAnswer} (hitem : ∀ i : Nat, i < count → Answered (item i)) {s : Memory}
    (hs : Reachable parseDecimal s) :
    Exhausts (serving results count item) (Later parseDecimal) advanceValid results count
        (Visited results count item (Reports results count)) s ∧
      ∃ stop, StopsAt count item stop ∧
        Exhausts (serving results count item) (Later parseDecimal) advance results stop
          (Visited results count item Raises) s := by
  have hinv := reachable_inv hs
  have hbetween : ∀ t u, Inv parseDecimal t → Later parseDecimal t u → Inv parseDecimal u :=
    fun t u ht hu => hu.inv ht
  have hrefl : ∀ t, Later parseDecimal t t := fun _ => .refl
  obtain ⟨stop, hstop⟩ := exists_stopsAt hitem
  refine ⟨?_, stop, hstop, ?_⟩
  · exact exhausts_of_step hbetween hrefl (serving_serial results count item)
      (fun i g s t out hg hs hrun => advanceValid_run hs hitem hg hrun) hinv
  · exact exhausts_of_step hbetween hrefl (serving_serial results count item)
      (advance_keeps hitem hstop) hinv

/-- An entry that reads, one that does not, and one without metadata. -/
def mixedItem (index : Int) : RawAnswer :=
  if index = 0 then .ok tinyRaw else if index = 1 then .error .nativeError else .ok Dict.empty

theorem iteration_visits_mixed : ∃ events t,
    Drives (serving 0 3 mixedItem) (Later fun _ => none) advanceValid Memory.initial
      (some ⟨0, none⟩) events t none ∧ events.length = 4 := by
  have hitem : ∀ i : Nat, i < 3 → Answered (mixedItem i) := by
    intro i _
    unfold mixedItem
    split
    · exact Or.inl ⟨_, rfl⟩
    · split
      · exact Or.inr rfl
      · exact Or.inl ⟨_, rfl⟩
  have hall : Exhausts (serving 0 3 mixedItem) (Later fun _ => none) advanceValid 0 3 _
      Memory.initial := (iteration_visits (fun _ => none) hitem .refl).1
  obtain ⟨events, t, h⟩ := hall.goesOn [] _ _ (.stay _ _)
  exact ⟨events, t, h, ((hall.ends events t none h).2.mp rfl)⟩

end Pyrealm.Reader
