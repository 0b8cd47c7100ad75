import Pyrealm.Pool.PyBytes

/-!
# Programs that call the system

A program calls commands and goes on with their answers; an answer is a value
or an exception.  What a command may answer in a state, and what state it
leaves, is a parameter (`sem`).

* `Runs`: a run of a program from a state to a state.
* `wp`: what must hold of the state before a program so that every run of it
  ends as stated.  `wp_iff_runs`: that is what `wp` says; `wp_bind`,
  `wp_tryCatch`, `wp_ensuring`: how it follows the program text.
* `Runs.keeps`: an invariant of every command is one of every run;
  `Runs.simulated`: simulation.
* `Prog.Only`: which commands a program may call; `wp_of_only`: it keeps what
  these keep.
* `both`: a state of two parts; `wp_both`: what holds of each holds of both.
* `recorded`: the state is the history of commands and answers.  There,
  `Steady` programs never swallow an exception (`Steady.bind`,
  `Steady.ensuring`, `Steady.forEach`).
-/

namespace Effects

/-- A command and the answer it got. -/
structure Event (C : Type) (R : C → Type) (ε : Type) where
  command : C
  answer : Except ε (R command)

/-- Programs over the commands `C`; `c` is answered by an `R c`. -/
inductive Prog (C : Type) (R : C → Type) (ε : Type) (α : Type) where
  | done (result : Except ε α)
  | call (c : C) (next : Except ε (R c) → Prog C R ε α)

variable {C : Type} {R : C → Type} {ε α β : Type}

namespace Prog

def bind : Prog C R ε α → (α → Prog C R ε β) → Prog C R ε β
  | done (.ok a), f => f a
  | done (.error e), _ => done (.error e)
  | call c next, f => call c fun answer => (next answer).bind f

instance : Monad (Prog C R ε) where
  pure a := done (.ok a)
  bind := bind

def perform (c : C) : Prog C R ε (R c) := call c done

def raise (e : ε) : Prog C R ε α := done (.error e)

/-- `try: p` / `except: handler` -/
def tryCatch (handler : ε → Prog C R ε α) : Prog C R ε α → Prog C R ε α
  | done (.ok a) => done (.ok a)
  | done (.error e) => handler e
  | call c next => call c fun answer => (next answer).tryCatch handler

/-- `p`, then `c` however `p` ends; an exception of `c` replaces the result of `p`. -/
def ensuring (c : C) : Prog C R ε α → Prog C R ε α
  | done result => call c fun answer =>
    match answer with
    | .ok _ => done result
    | .error e => done (.error e)
  | call c' next => call c' fun answer => (next answer).ensuring c

/-- `for x in xs: body(x)` -/
def forEach (body : α → Prog C R ε Unit) : List α → Prog C R ε Unit
  | [] => pure ()
  | x :: xs => do
    body x
    forEach body xs

end Prog

/-! ## Runs -/

section
variable {σ : Type} (sem : σ → (c : C) → Except ε (R c) → σ → Prop)

/-- A run of a program from a state to a state. -/
inductive Runs : σ → Prog C R ε α → σ → Except ε α → Prop
  | done (s : σ) (result : Except ε α) : Runs s (.done result) s result
  | call {s t : σ} {c : C} {next : Except ε (R c) → Prog C R ε α} (answer : Except ε (R c))
      {final : σ} {result : Except ε α} :
      sem s c answer t → Runs t (next answer) final result → Runs s (.call c next) final result

/-- The states from which every run of the program ends in `post` or, by an
exception, in `exn`. -/
def wp : Prog C R ε α → (α → σ → Prop) → (ε → σ → Prop) → σ → Prop
  | .done (.ok a), post, _, s => post a s
  | .done (.error e), _, exn, s => exn e s
  | .call c next, post, exn, s => ∀ answer t, sem s c answer t → wp (next answer) post exn t

/-- What a run must satisfy. -/
def Ends (post : α → σ → Prop) (exn : ε → σ → Prop) (final : σ) : Except ε α → Prop
  | .ok a => post a final
  | .error e => exn e final

/-- **`wp` speaks of all runs.** -/
theorem wp_iff_runs (p : Prog C R ε α) (post : α → σ → Prop) (exn : ε → σ → Prop) (s : σ) :
    wp sem p post exn s ↔ ∀ final result, Runs sem s p final result → Ends post exn final result := by
  induction p generalizing s with
  | done result =>
    constructor
    · intro h final r hr
      cases hr
      cases result with
      | ok a => exact h
      | error e => exact h
    · intro h
      have hr := h s result (.done s result)
      cases result with
      | ok a => exact hr
      | error e => exact hr
  | call c next ih =>
    constructor
    · intro h final r hr
      cases hr with
      | call answer ha hr => exact (ih answer _).mp (h answer _ ha) final r hr
    · intro h answer t ha
      exact (ih answer _).mpr fun final r hr => h final r (.call answer ha hr)

/-- If every command can be answered, every program has a run. -/
theorem exists_runs (h : ∀ s c, ∃ answer t, sem s c answer t) (p : Prog C R ε α) (s : σ) :
    ∃ final result, Runs sem s p final result := by
  induction p generalizing s with
  | done result => exact ⟨s, result, .done s result⟩
  | call c next ih =>
    obtain ⟨answer, t, ha⟩ := h s c
    obtain ⟨final, result, hr⟩ := ih answer t
    exact ⟨final, result, .call answer ha hr⟩

/-! ## Rules -/

variable {sem}

/-- A run that returns is a run under any handler. -/
theorem Runs.tryCatch {p : Prog C R ε α} {s final : σ} {a : α} (h : Runs sem s p final (.ok a))
    (handler : ε → Prog C R ε α) : Runs sem s (p.tryCatch handler) final (.ok a) := by
  induction p generalizing s with
  | done result =>
    cases h
    exact .done _ _
  | call c next ih =>
    cases h with
    | call answer ha hr => exact .call answer ha (ih answer hr)

/-- A run under one semantics is a run under any that allows its answers. -/
theorem Runs.mono {sem' : σ → (c : C) → Except ε (R c) → σ → Prop}
    (hsem : ∀ s c answer t, sem s c answer t → sem' s c answer t) {p : Prog C R ε α} {s final : σ}
    {result : Except ε α} (h : Runs sem s p final result) : Runs sem' s p final result := by
  induction h with
  | done s result => exact .done s result
  | call answer ha _ ih => exact .call answer (hsem _ _ _ _ ha) ih

/-- What every command keeps, a run keeps. -/
theorem Runs.keeps {keeps : σ → Prop} (hkeep : ∀ s c answer t, sem s c answer t → keeps s → keeps t)
    {p : Prog C R ε α} {s final : σ} {result : Except ε α} (h : Runs sem s p final result)
    (hs : keeps s) : keeps final := by
  induction h with
  | done s result => exact hs
  | call answer ha _ ih => exact ih (hkeep _ _ _ _ ha hs)

/-- **Simulation**: a run is a run under any semantics that can follow its answers. -/
theorem Runs.simulated {τ : Type} {sem' : τ → (c : C) → Except ε (R c) → τ → Prop}
    {rel : σ → τ → Prop}
    (hstep : ∀ s u c answer t, sem s c answer t → rel s u → ∃ v, sem' u c answer v ∧ rel t v)
    {p : Prog C R ε α} {s final : σ} {result : Except ε α} (h : Runs sem s p final result) {u : τ}
    (hu : rel s u) : ∃ v, Runs sem' u p v result ∧ rel final v := by
  induction h generalizing u with
  | done s result => exact ⟨u, .done u result, hu⟩
  | call answer ha _ ih =>
    obtain ⟨v, hv, hrel⟩ := hstep _ _ _ _ _ ha hu
    obtain ⟨w, hw, hend⟩ := ih hrel
    exact ⟨w, .call answer hv hw, hend⟩

theorem Runs.bind {p : Prog C R ε α} {f : α → Prog C R ε β} {s t final : σ} {a : α}
    {result : Except ε β} (h : Runs sem s p t (.ok a)) (hf : Runs sem t (f a) final result) :
    Runs sem s (p >>= f) final result := by
  induction p generalizing s with
  | done r =>
    cases h
    exact hf
  | call c next ih =>
    cases h with
    | call answer ha hr => exact .call answer ha (ih answer hr)

theorem Runs.bind_error {p : Prog C R ε α} (f : α → Prog C R ε β) {s final : σ} {e : ε}
    (h : Runs sem s p final (.error e)) : Runs sem s (p >>= f) final (.error e) := by
  induction p generalizing s with
  | done r =>
    cases h
    exact .done _ _
  | call c next ih =>
    cases h with
    | call answer ha hr => exact .call answer ha (ih answer hr)

theorem Runs.ensuring {p : Prog C R ε α} {s t final : σ} {result : Except ε α}
    (h : Runs sem s p t result) {c : C} {a : R c} (hc : sem t c (.ok a) final) :
    Runs sem s (p.ensuring c) final result := by
  induction h with
  | done s result => exact .call (.ok a) hc (.done _ _)
  | call answer ha _ ih => exact .call answer ha (ih hc)

theorem wp_mono {p : Prog C R ε α} {post post' : α → σ → Prop} {exn exn' : ε → σ → Prop} {s : σ}
    (h : wp sem p post exn s) (hpost : ∀ a final, post a final → post' a final)
    (hexn : ∀ e final, exn e final → exn' e final) : wp sem p post' exn' s := by
  rw [wp_iff_runs] at h ⊢
  intro final result hr
  have he := h final result hr
  cases result with
  | ok a => exact hpost a final he
  | error e => exact hexn e final he

theorem wp_pure (a : α) (post : α → σ → Prop) (exn : ε → σ → Prop) (s : σ) :
    wp sem (pure a : Prog C R ε α) post exn s ↔ post a s := Iff.rfl

theorem wp_raise (e : ε) (post : α → σ → Prop) (exn : ε → σ → Prop) (s : σ) :
    wp sem (Prog.raise e : Prog C R ε α) post exn s ↔ exn e s := Iff.rfl

theorem wp_perform (c : C) (post : R c → σ → Prop) (exn : ε → σ → Prop) (s : σ) :
    wp sem (Prog.perform c) post exn s ↔
      (∀ a t, sem s c (.ok a) t → post a t) ∧ ∀ e t, sem s c (.error e) t → exn e t := by
  constructor
  · exact fun h => ⟨fun a => h (.ok a), fun e => h (.error e)⟩
  · rintro ⟨h1, h2⟩ answer t ha
    cases answer with
    | ok a => exact h1 a t ha
    | error e => exact h2 e t ha

theorem wp_bind (p : Prog C R ε α) (f : α → Prog C R ε β) (post : β → σ → Prop)
    (exn : ε → σ → Prop) (s : σ) :
    wp sem (p >>= f) post exn s ↔ wp sem p (fun a t => wp sem (f a) post exn t) exn s := by
  induction p generalizing s with
  | done result =>
    cases result with
    | ok a => exact Iff.rfl
    | error e => exact Iff.rfl
  | call c next ih =>
    exact forall_congr' fun answer => forall_congr' fun t => imp_congr_right fun _ => ih answer t

/-- A command before the rest of a program of whose exceptions nothing is asked. -/
theorem wp_perform_bind {c : C} {f : R c → Prog C R ε α} {post : α → σ → Prop} {s : σ}
    (h : ∀ a t, sem s c (.ok a) t → wp sem (f a) post (fun _ _ => True) t) :
    wp sem (Prog.perform c >>= f) post (fun _ _ => True) s := by
  rw [wp_bind, wp_perform]
  exact ⟨h, fun _ _ _ => trivial⟩

theorem wp_tryCatch (p : Prog C R ε α) (handler : ε → Prog C R ε α) (post : α → σ → Prop)
    (exn : ε → σ → Prop) (s : σ) :
    wp sem (p.tryCatch handler) post exn s ↔
      wp sem p post (fun e t => wp sem (handler e) post exn t) s := by
  induction p generalizing s with
  | done result =>
    cases result with
    | ok a => exact Iff.rfl
    | error e => exact Iff.rfl
  | call c next ih =>
    exact forall_congr' fun answer => forall_congr' fun t => imp_congr_right fun _ => ih answer t

theorem wp_ensuring (p : Prog C R ε α) (c : C) (post : α → σ → Prop) (exn : ε → σ → Prop) (s : σ) :
    wp sem (p.ensuring c) post exn s ↔
      wp sem p
        (fun a t => wp sem (Prog.perform c) (fun _ => post a) exn t)
        (fun e t => wp sem (Prog.perform c) (fun _ => exn e) exn t) s := by
  induction p generalizing s with
  | done result =>
    cases result with
    | ok a =>
      refine forall_congr' fun answer => forall_congr' fun t => imp_congr_right fun _ => ?_
      cases answer with
      | ok _ => exact Iff.rfl
      | error e => exact Iff.rfl
    | error e =>
      refine forall_congr' fun answer => forall_congr' fun t => imp_congr_right fun _ => ?_
      cases answer with
      | ok _ => exact Iff.rfl
      | error e => exact Iff.rfl
  | call c next ih =>
    exact forall_congr' fun answer => forall_congr' fun t => imp_congr_right fun _ => ih answer t

/-- One statement about both ways to end. -/
theorem Runs.of_wp {p : Prog C R ε α} {P : σ → Except ε α → Prop} {s final : σ}
    {result : Except ε α} (hr : Runs sem s p final result)
    (h : wp sem p (fun a t => P t (.ok a)) (fun e t => P t (.error e)) s) : P final result := by
  have hends := (wp_iff_runs _ p _ _ s).mp h final result hr
  cases result with
  | ok a => exact hends
  | error e => exact hends

/-- A program that raises nothing returns. -/
theorem Runs.returned {p : Prog C R ε α} {post : α → σ → Prop} {s final : σ}
    {result : Except ε α} (hr : Runs sem s p final result) (h : wp sem p post (fun _ _ => False) s) :
    ∃ a, result = .ok a ∧ post a final := by
  have hends := (wp_iff_runs _ p _ _ s).mp h final result hr
  cases result with
  | ok a => exact ⟨a, rfl, hends⟩
  | error e => exact hends.elim

variable (sem) in
/-- The program has a run, and every run of it ends this way. -/
def Returns (s : σ) (p : Prog C R ε α) (out : Except ε α) : Prop :=
  (∃ final, Runs sem s p final out) ∧ ∀ final result, Runs sem s p final result → result = out

theorem returns_of_wp (hserial : ∀ s c, ∃ answer t, sem s c answer t) {s : σ} {p : Prog C R ε α}
    {out : Except ε α}
    (h : wp sem p (fun a _ => .ok a = out) (fun e _ => .error e = out) s) : Returns sem s p out := by
  have hall : ∀ final result, Runs sem s p final result → result = out := by
    intro final result hr
    apply hr.of_wp
    exact h
  obtain ⟨final, result, hr⟩ := exists_runs sem hserial p s
  exact ⟨⟨final, hall final result hr ▸ hr⟩, hall⟩

/-- Two statements about all runs. -/
theorem wp_and {p : Prog C R ε α} {post post' : α → σ → Prop} {exn exn' : ε → σ → Prop} {s : σ}
    (h : wp sem p post exn s) (h' : wp sem p post' exn' s) :
    wp sem p (fun a t => post a t ∧ post' a t) (fun e t => exn e t ∧ exn' e t) s := by
  rw [wp_iff_runs] at h h' ⊢
  intro final result hr
  have he := h final result hr
  have he' := h' final result hr
  cases result with
  | ok a => exact ⟨he, he'⟩
  | error e => exact ⟨he, he'⟩

/-- What holds of all runs holds of those under fewer answers. -/
theorem wp_of_refined {sem' : σ → (c : C) → Except ε (R c) → σ → Prop}
    (hsem : ∀ s c answer t, sem s c answer t → sem' s c answer t) {p : Prog C R ε α}
    {post : α → σ → Prop} {exn : ε → σ → Prop} {s : σ} (h : wp sem' p post exn s) :
    wp sem p post exn s := by
  rw [wp_iff_runs] at h ⊢
  exact fun final result hr => h final result (hr.mono hsem)

/-- What is proved of all runs may use that they are runs. -/
theorem wp_runs {p : Prog C R ε α} {post : α → σ → Prop} {exn : ε → σ → Prop} {s : σ}
    (h : wp sem p post exn s) :
    wp sem p (fun a t => Runs sem s p t (.ok a) ∧ post a t)
      (fun e t => Runs sem s p t (.error e) ∧ exn e t) s := by
  rw [wp_iff_runs] at h ⊢
  intro final result hr
  have he := h final result hr
  cases result with
  | ok a => exact ⟨hr, he⟩
  | error e => exact ⟨hr, he⟩

end

/-! ## Which commands a program calls -/

/-- Every command the program may call is one of `calls`. -/
def Prog.Only (calls : C → Prop) : Prog C R ε α → Prop
  | .done _ => True
  | .call c next => calls c ∧ ∀ answer, (next answer).Only calls

section
variable {calls : C → Prop}

theorem Only.perform {c : C} (hc : calls c) : (Prog.perform c : Prog C R ε (R c)).Only calls :=
  ⟨hc, fun _ => trivial⟩

theorem Only.bind {p : Prog C R ε α} {f : α → Prog C R ε β} (h : p.Only calls)
    (hf : ∀ a, (f a).Only calls) : (p >>= f).Only calls := by
  induction p with
  | done result =>
    cases result with
    | ok a => exact hf a
    | error e => exact trivial
  | call c next ih => exact ⟨h.1, fun answer => ih answer (h.2 answer)⟩

theorem Only.ensuring {p : Prog C R ε α} {c : C} (h : p.Only calls) (hc : calls c) :
    (p.ensuring c).Only calls := by
  induction p with
  | done result =>
    refine ⟨hc, fun answer => ?_⟩
    cases answer with
    | ok _ => exact trivial
    | error e => exact trivial
  | call c' next ih => exact ⟨h.1, fun answer => ih answer (h.2 answer)⟩

/-- **A program keeps what each of its commands keeps.** -/
theorem wp_of_only {σ : Type} {sem : σ → (c : C) → Except ε (R c) → σ → Prop} {keeps : σ → Prop}
    (hkeep : ∀ s c answer t, calls c → sem s c answer t → keeps s → keeps t) {p : Prog C R ε α}
    (h : p.Only calls) {s : σ} (hs : keeps s) : wp sem p (fun _ => keeps) (fun _ => keeps) s := by
  induction p generalizing s with
  | done result =>
    cases result with
    | ok a => exact hs
    | error e => exact hs
  | call c next ih => exact fun answer t ha => ih answer (h.2 answer) (hkeep s c answer t h.1 ha hs)

end

/-! ## Independent parts of the state -/

section
variable {σ τ : Type} (sem : σ → (c : C) → Except ε (R c) → σ → Prop)
  (sem' : τ → (c : C) → Except ε (R c) → τ → Prop)

/-- Two parts of the state, each with the effect of every command on it. -/
def both (s : σ × τ) (c : C) (answer : Except ε (R c)) (t : σ × τ) : Prop :=
  sem s.1 c answer t.1 ∧ sem' s.2 c answer t.2

variable {sem} {sem'}

/-- **What holds of each part holds of both.** -/
theorem wp_both {p : Prog C R ε α} {post : α → σ → Prop} {exn : ε → σ → Prop} {post' : α → τ → Prop}
    {exn' : ε → τ → Prop} {s : σ × τ} (h : wp sem p post exn s.1) (h' : wp sem' p post' exn' s.2) :
    wp (both sem sem') p (fun a t => post a t.1 ∧ post' a t.2) (fun e t => exn e t.1 ∧ exn' e t.2) s := by
  induction p generalizing s with
  | done result => cases result <;> exact ⟨h, h'⟩
  | call c next ih => exact fun answer t ht => ih answer (h answer t.1 ht.1) (h' answer t.2 ht.2)

theorem wp_true (p : Prog C R ε α) (s : σ) : wp sem p (fun _ _ => True) (fun _ _ => True) s := by
  rw [wp_iff_runs]
  intro final result _
  cases result <;> exact trivial

theorem wp_right {p : Prog C R ε α} {post : α → τ → Prop} {exn : ε → τ → Prop} {s : σ × τ}
    (h : wp sem' p post exn s.2) :
    wp (both sem sem') p (fun a t => post a t.2) (fun e t => exn e t.2) s :=
  wp_mono (wp_both (wp_true p s.1) h) (fun _ _ h => h.2) (fun _ _ h => h.2)

/-- A run on one part is a run on both, where its commands may leave the other part alone. -/
theorem Runs.left {calls : C → Prop} {p : Prog C R ε α} (hp : p.Only calls) {s final : σ}
    {result : Except ε α} (h : Runs sem s p final result) {u : τ}
    (hkeep : ∀ c answer, calls c → sem' u c answer u) :
    Runs (both sem sem') (s, u) p (final, u) result := by
  induction h with
  | done s result => exact .done _ _
  | call answer ha _ ih => exact .call answer ⟨ha, hkeep _ _ hp.1⟩ (ih (hp.2 answer))

theorem Runs.right {calls : C → Prop} {p : Prog C R ε α} (hp : p.Only calls) {s final : τ}
    {result : Except ε α} (h : Runs sem' s p final result) {u : σ}
    (hkeep : ∀ c answer, calls c → sem u c answer u) :
    Runs (both sem sem') (u, s) p (u, final) result := by
  induction h with
  | done s result => exact .done _ _
  | call answer ha _ ih => exact .call answer ⟨hkeep _ _ hp.1, ha⟩ (ih (hp.2 answer))

end

/-! ## Histories -/

section
variable (allowed : List (Event C R ε) → Event C R ε → Prop)

/-- The state is the history, and `allowed` says which answers may follow it. -/
def recorded (past : List (Event C R ε)) (c : C) (answer : Except ε (R c))
    (now : List (Event C R ε)) : Prop :=
  allowed past ⟨c, answer⟩ ∧ now = past ++ [⟨c, answer⟩]

variable {allowed}

theorem recorded_serial (h : ∀ past c, ∃ answer, allowed past ⟨c, answer⟩)
    (past : List (Event C R ε)) (c : C) : ∃ answer now, recorded allowed past c answer now := by
  obtain ⟨answer, ha⟩ := h past c
  exact ⟨answer, _, ha, rfl⟩

theorem wp_recorded (c : C) (post : R c → List (Event C R ε) → Prop)
    (exn : ε → List (Event C R ε) → Prop) (past : List (Event C R ε)) :
    wp (recorded allowed) (Prog.perform c) post exn past ↔
      (∀ a, allowed past ⟨c, .ok a⟩ → post a (past ++ [⟨c, .ok a⟩])) ∧
      ∀ e, allowed past ⟨c, .error e⟩ → exn e (past ++ [⟨c, .error e⟩]) := by
  rw [wp_perform]
  constructor
  · exact fun h => ⟨fun a ha => h.1 a _ ⟨ha, rfl⟩, fun e he => h.2 e _ ⟨he, rfl⟩⟩
  · rintro ⟨h1, h2⟩
    refine ⟨?_, ?_⟩
    · rintro a _ ⟨ha, rfl⟩
      exact h1 a ha
    · rintro e _ ⟨he, rfl⟩
      exact h2 e he

/-! ## Programs that swallow nothing -/

variable (allowed) (neutral : C → Prop) (fails : Event C R ε → Prop) (caught : ε → Prop)

/-- From the history `past` the program calls neutral commands only; it returns
if none of them fails, and else raises what a handler for `caught` catches. -/
def SteadyAt (past : List (Event C R ε)) (p : Prog C R ε α) : Prop :=
  wp (recorded allowed) p
    (fun _ now => ∃ events, now = past ++ events ∧
      ∀ ev ∈ events, neutral ev.command ∧ ¬ fails ev)
    (fun e now => ∃ events, now = past ++ events ∧ (∀ ev ∈ events, neutral ev.command) ∧
      (∃ ev ∈ events, fails ev) ∧ caught e) past

def Steady (p : Prog C R ε α) : Prop := ∀ past, SteadyAt allowed neutral fails caught past p

variable {allowed neutral fails caught}

theorem SteadyAt.wp_of {past : List (Event C R ε)} {p : Prog C R ε α}
    (h : SteadyAt allowed neutral fails caught past p) {post : α → List (Event C R ε) → Prop}
    {exn : ε → List (Event C R ε) → Prop}
    (hpost : ∀ a events, (∀ ev ∈ events, neutral ev.command ∧ ¬ fails ev) → post a (past ++ events))
    (hexn : ∀ e events, (∀ ev ∈ events, neutral ev.command) → (∃ ev ∈ events, fails ev) → caught e →
      exn e (past ++ events)) : wp (recorded allowed) p post exn past := by
  refine wp_mono h ?_ ?_
  · rintro a _ ⟨events, rfl, hev⟩
    exact hpost a events hev
  · rintro e _ ⟨events, rfl, h1, h2, h3⟩
    exact hexn e events h1 h2 h3

theorem SteadyAt.pure (past : List (Event C R ε)) (a : α) :
    SteadyAt allowed neutral fails caught past (pure a : Prog C R ε α) :=
  ⟨[], (List.append_nil past).symm, by simp⟩

theorem SteadyAt.perform (past : List (Event C R ε)) (c : C) (hc : neutral c)
    (hok : ∀ a, allowed past ⟨c, .ok a⟩ → ¬ fails ⟨c, .ok a⟩)
    (herr : ∀ e, allowed past ⟨c, .error e⟩ → fails ⟨c, .error e⟩ ∧ caught e) :
    SteadyAt allowed neutral fails caught past (Prog.perform c) := by
  rw [SteadyAt, wp_recorded]
  constructor
  · intro a ha
    refine ⟨_, rfl, ?_⟩
    intro ev hev
    rw [List.mem_singleton] at hev
    rw [hev]
    exact ⟨hc, hok a ha⟩
  · intro e he
    obtain ⟨h1, h2⟩ := herr e he
    refine ⟨_, rfl, ?_, ⟨_, List.mem_singleton_self _, h1⟩, h2⟩
    intro ev hev
    rw [List.mem_singleton] at hev
    rw [hev]
    exact hc

/-- What a steady program does after some quiet events, counted from before them. -/
theorem SteadyAt.shift {past events : List (Event C R ε)} {p : Prog C R ε α}
    (hev : ∀ ev ∈ events, neutral ev.command ∧ ¬ fails ev)
    (h : SteadyAt allowed neutral fails caught (past ++ events) p) :
    wp (recorded allowed) p
      (fun _ now => ∃ events', now = past ++ events' ∧
        ∀ ev ∈ events', neutral ev.command ∧ ¬ fails ev)
      (fun e now => ∃ events', now = past ++ events' ∧ (∀ ev ∈ events', neutral ev.command) ∧
        (∃ ev ∈ events', fails ev) ∧ caught e) (past ++ events) := by
  refine h.wp_of ?_ ?_
  · intro _ events' hev'
    refine ⟨events ++ events', List.append_assoc _ _ _, fun ev hm => ?_⟩
    rcases List.mem_append.mp hm with hm | hm
    · exact hev ev hm
    · exact hev' ev hm
  · rintro e events' hn ⟨ev, hm, hfail⟩ hc
    refine ⟨events ++ events', List.append_assoc _ _ _, fun ev hm => ?_,
      ⟨ev, List.mem_append_right _ hm, hfail⟩, hc⟩
    rcases List.mem_append.mp hm with hm | hm
    · exact (hev ev hm).1
    · exact hn ev hm

theorem SteadyAt.bind {past : List (Event C R ε)} {p : Prog C R ε α} {f : α → Prog C R ε β}
    (h : SteadyAt allowed neutral fails caught past p)
    (hf : ∀ a events, (∀ ev ∈ events, neutral ev.command ∧ ¬ fails ev) →
      SteadyAt allowed neutral fails caught (past ++ events) (f a)) :
    SteadyAt allowed neutral fails caught past (p >>= f) := by
  rw [SteadyAt, wp_bind]
  refine h.wp_of ?_ ?_
  · exact fun a events hev => (hf a events hev).shift hev
  · exact fun e events hn hfail hc => ⟨events, rfl, hn, hfail, hc⟩

theorem Steady.pure (a : α) : Steady allowed neutral fails caught (pure a : Prog C R ε α) :=
  fun past => SteadyAt.pure past a

theorem Steady.bind {p : Prog C R ε α} {f : α → Prog C R ε β}
    (h : Steady allowed neutral fails caught p) (hf : ∀ a, Steady allowed neutral fails caught (f a)) :
    Steady allowed neutral fails caught (p >>= f) :=
  fun past => (h past).bind fun a _ _ => hf a _

theorem Steady.forEach {body : α → Prog C R ε Unit}
    (h : ∀ a, Steady allowed neutral fails caught (body a)) (xs : List α) :
    Steady allowed neutral fails caught (Prog.forEach body xs) := by
  induction xs with
  | nil => exact Steady.pure ()
  | cons x xs ih => exact (h x).bind fun _ => ih

/-- A steady program followed by a steady clean-up. -/
theorem Steady.ensuring {p : Prog C R ε α} {c : C} (h : Steady allowed neutral fails caught p)
    (hc : Steady allowed neutral fails caught (Prog.perform (ε := ε) (R := R) c)) :
    Steady allowed neutral fails caught (p.ensuring c) := by
  intro past
  rw [SteadyAt, wp_ensuring]
  refine (h past).wp_of ?_ ?_
  · exact fun a events hev => (hc (past ++ events)).shift hev
  · rintro e events hn ⟨ev, hm, hfail⟩ hcaught
    -- the clean-up may replace the exception, the failed event stays
    have hjoin : ∀ events', (∀ ev ∈ events', neutral ev.command) →
        ∀ ev ∈ events ++ events', neutral ev.command := by
      intro events' hn' ev hm
      rcases List.mem_append.mp hm with hm | hm
      · exact hn ev hm
      · exact hn' ev hm
    refine (hc _).wp_of ?_ ?_
    · exact fun _ events' hev' => ⟨events ++ events', List.append_assoc _ _ _,
        hjoin events' fun ev hm => (hev' ev hm).1, ⟨ev, List.mem_append_left _ hm, hfail⟩, hcaught⟩
    · exact fun e' events' hn' _ hcaught' => ⟨events ++ events', List.append_assoc _ _ _,
        hjoin events' hn', ⟨ev, List.mem_append_left _ hm, hfail⟩, hcaught'⟩

end

end Effects
