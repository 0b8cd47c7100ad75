import Mathlib.Logic.Function.Basic
import Mathlib.Logic.Relation
import Pyrealm.Pool.Effects

/-!
# Programs that compete for a resource

Any number of programs run interleaved, and anybody outside may make the
resource at any time.  A program asks for it, and only the answer that grants it
makes the program its owner.

* `Prog.interpret`: every command of a program run as a program over other commands.
* `Guarded`: a program that uses the resource only after it was granted, and ends
  with the exception if it asks and is refused.
* `reachable_lawful`: in every interleaving of guarded programs, the users of the
  resource own it.
-/

namespace Effects

variable {C D : Type} {R : C → Type} {S : D → Type} {ε α β : Type}

/-! ## Interpretation -/

namespace Prog

/-- `p`, then `k` with what `p` returned or raised. -/
def andThen : Prog D S ε α → (Except ε α → Prog D S ε β) → Prog D S ε β
  | done result, k => k result
  | call c next, k => call c fun answer => (next answer).andThen k

/-- Every command is replaced by a program for it. -/
def interpret (f : (c : C) → Prog D S ε (R c)) : Prog C R ε α → Prog D S ε α
  | done result => done result
  | call c next => (f c).andThen fun answer => (next answer).interpret f

end Prog

theorem andThen_done (p : Prog D S ε α) : p.andThen .done = p := by
  induction p with
  | done result => rfl
  | call c next ih => exact congrArg (Prog.call c) (funext ih)

theorem andThen_bind {γ : Type} (p : Prog D S ε α) (k : Except ε α → Prog D S ε β)
    (g : β → Prog D S ε γ) : (p.andThen k >>= g) = p.andThen fun r => k r >>= g := by
  induction p with
  | done result => rfl
  | call c next ih => exact congrArg (Prog.call c) (funext ih)

section
variable (f : (c : C) → Prog D S ε (R c))

theorem interpret_perform (c : C) : (Prog.perform c : Prog C R ε (R c)).interpret f = f c :=
  andThen_done (f c)

theorem interpret_bind (p : Prog C R ε α) (k : α → Prog C R ε β) :
    (p >>= k).interpret f = p.interpret f >>= fun a => (k a).interpret f := by
  induction p with
  | done result =>
    cases result with
    | ok a => rfl
    | error e => rfl
  | call c next ih =>
    show (f c).andThen (fun answer => (next answer >>= k).interpret f) =
      ((f c).andThen fun answer => (next answer).interpret f) >>= fun a => (k a).interpret f
    rw [andThen_bind]
    exact congrArg (f c).andThen (funext ih)

end

theorem Only.andThen {calls : D → Prop} {p : Prog D S ε α} {k : Except ε α → Prog D S ε β}
    (h : p.Only calls) (hk : ∀ r, (k r).Only calls) : (p.andThen k).Only calls := by
  induction p with
  | done result => exact hk result
  | call c next ih => exact ⟨h.1, fun answer => ih answer (h.2 answer)⟩

/-- The commands of an interpreted program are those of its interpretation. -/
theorem Only.interpret {calls : C → Prop} {calls' : D → Prop} {f : (c : C) → Prog D S ε (R c)}
    (hf : ∀ c, calls c → (f c).Only calls') {p : Prog C R ε α} (h : p.Only calls) :
    (p.interpret f).Only calls' := by
  induction p with
  | done result => exact trivial
  | call c next ih => exact Only.andThen (hf c h.1) fun answer => ih answer (h.2 answer)

theorem Only.mono {calls calls' : C → Prop} {p : Prog C R ε α} (h : p.Only calls)
    (hc : ∀ c, calls c → calls' c) : p.Only calls' := by
  induction p with
  | done result => exact trivial
  | call c next ih => exact ⟨hc c h.1, fun answer => ih answer (h.2 answer)⟩

/-! ## Guarded programs -/

/-- The commands that ask for a resource, the answers that grant it, and the
commands that use it. -/
structure Permit (C : Type) (R : C → Type) (ε : Type) where
  asks : C → Prop
  granted : (c : C) → Except ε (R c) → Prop
  uses : C → Prop

/-- The program uses the resource, and returns, only after it was granted, and asks
no more then.  An exception that answers a request ends the program with it. -/
def Guarded (permit : Permit C R ε) : Prog C R ε α → Prop
  | .done (.ok _) => False
  | .done (.error _) => True
  | .call c next => ¬ permit.uses c ∧ (permit.asks c → ∀ e, next (.error e) = .done (.error e)) ∧
    ∀ answer, (permit.granted c answer → (next answer).Only fun c => ¬ permit.asks c) ∧
      (¬ permit.granted c answer → Guarded permit (next answer))

/-- A command without a part in the competition. -/
def Permit.Idle (permit : Permit C R ε) (c : C) : Prop :=
  ¬ permit.asks c ∧ ¬ permit.uses c ∧ ∀ answer, ¬ permit.granted c answer

section
variable {permit : Permit C R ε}

/-- Idle commands may precede a guarded program. -/
theorem Guarded.after {p : Prog C R ε α} {f : α → Prog C R ε β} (h : p.Only permit.Idle)
    (hf : ∀ a, Guarded permit (f a)) : Guarded permit (p >>= f) := by
  induction p with
  | done result =>
    cases result with
    | ok a => exact hf a
    | error e => exact trivial
  | call c next ih =>
    obtain ⟨⟨hask, huse, hgrant⟩, hnext⟩ := h
    exact ⟨huse, fun ha => absurd ha hask, fun answer =>
      ⟨fun hg => absurd hg (hgrant answer), fun _ => ih answer (hnext answer)⟩⟩

/-- What follows a guarded program may use the resource. -/
theorem Guarded.before {p : Prog C R ε α} {f : α → Prog C R ε β} (h : Guarded permit p)
    (hf : ∀ a, (f a).Only fun c => ¬ permit.asks c) : Guarded permit (p >>= f) := by
  induction p with
  | done result =>
    cases result with
    | ok a => exact False.elim h
    | error e => exact trivial
  | call c next ih =>
    obtain ⟨huse, hfatal, hnext⟩ := h
    refine ⟨huse, fun ha e => ?_, fun answer => ⟨fun hg => ?_, fun hg => ?_⟩⟩
    · show (next (.error e)).bind f = _
      rw [hfatal ha e]
      rfl
    · exact Only.bind ((hnext answer).1 hg) hf
    · exact ih answer ((hnext answer).2 hg)

end

/-! ## The competition -/

/-- Who made the resource. -/
inductive Owner (ι : Type) where
  | nobody
  | outside
  | program (i : ι)

/-- A call, and the owner at that time. -/
structure Seen (C : Type) (R : C → Type) (ε ι : Type) where
  owner : Owner ι
  command : C
  answer : Except ε (R command)

structure World (C : Type) (R : C → Type) (ε α ι : Type) where
  owner : Owner ι
  pending : ι → Prog C R ε α
  past : ι → List (Seen C R ε ι)

section
variable {ι : Type} (permit : ι → Permit C R ε)
  (answers : ι → Owner ι → (c : C) → Except ε (R c) → Owner ι → Prop)

/-- Nobody loses the resource, and it is granted to one that has no owner. -/
structure Exclusive : Prop where
  granted : ∀ {i owner c answer owner'}, answers i owner c answer owner' →
    (permit i).granted c answer → owner = .nobody ∧ owner' = .program i
  kept : ∀ {i owner c answer owner'}, answers i owner c answer owner' → owner ≠ .nobody →
    owner' = owner

/-- The program used the resource, whatever the answer. -/
def Used (permit : Permit C R ε) (past : List (Seen C R ε ι)) : Prop :=
  ∃ seen ∈ past, permit.uses seen.command

def Granted (permit : Permit C R ε) (past : List (Seen C R ε ι)) : Prop :=
  ∃ seen ∈ past, permit.granted seen.command seen.answer

/-- What holds of one program at any time. -/
structure Lawful (w : World C R ε α ι) (i : ι) : Prop where
  waiting : ¬ Granted (permit i) (w.past i) →
    Guarded (permit i) (w.pending i) ∧ ¬ Used (permit i) (w.past i)
  holding : Granted (permit i) (w.past i) →
    w.owner = .program i ∧ (w.pending i).Only fun c => ¬ (permit i).asks c
  refused : ∀ seen ∈ w.past i, (permit i).asks seen.command → ∀ e, seen.answer = .error e →
    w.pending i = .done (.error e) ∧ ¬ Used (permit i) (w.past i)
  answered : ∀ seen ∈ w.past i, ∃ owner, answers i seen.owner seen.command seen.answer owner

variable {permit} {answers}

theorem used_append (permit : Permit C R ε) (past : List (Seen C R ε ι)) (seen : Seen C R ε ι) :
    Used permit (past ++ [seen]) ↔ Used permit past ∨ permit.uses seen.command := by
  simp only [Used, List.mem_append, List.mem_singleton, or_and_right, exists_or, exists_eq_left]

theorem granted_append (permit : Permit C R ε) (past : List (Seen C R ε ι)) (seen : Seen C R ε ι) :
    Granted permit (past ++ [seen]) ↔
      Granted permit past ∨ permit.granted seen.command seen.answer := by
  simp only [Granted, List.mem_append, List.mem_singleton, or_and_right, exists_or, exists_eq_left]

/-- A program that goes on was not refused. -/
theorem Lawful.not_refused {w : World C R ε α ι} {i : ι} (h : Lawful permit answers w i) {c : C}
    {next : Except ε (R c) → Prog C R ε α} (hp : w.pending i = .call c next) {seen : Seen C R ε ι}
    (hs : seen ∈ w.past i) (hask : (permit i).asks seen.command) {e : ε} (he : seen.answer = .error e) :
    False := by
  have hdone := (h.refused seen hs hask e he).1
  rw [hp] at hdone
  cases hdone

/-- The program that does its next call. -/
theorem Lawful.call (hx : Exclusive permit answers) {w : World C R ε α ι} {i : ι}
    (h : Lawful permit answers w i) {c : C} {next : Except ε (R c) → Prog C R ε α}
    (hp : w.pending i = .call c next) {answer : Except ε (R c)} {owner : Owner ι}
    (ha : answers i w.owner c answer owner) {w' : World C R ε α ι} (ho : w'.owner = owner)
    (hpending : w'.pending i = next answer)
    (hpast : w'.past i = w.past i ++ [⟨w.owner, c, answer⟩]) : Lawful permit answers w' i := by
  have hanswered : ∀ seen ∈ w'.past i, ∃ owner, answers i seen.owner seen.command seen.answer owner := by
    intro seen hs
    rw [hpast] at hs
    rcases List.mem_append.mp hs with hs | hs
    · exact h.answered seen hs
    · rw [List.mem_singleton] at hs
      rw [hs]
      exact ⟨owner, ha⟩
  by_cases hg : Granted (permit i) (w.past i)
  · obtain ⟨howner, honly⟩ := h.holding hg
    rw [hp] at honly
    have hg' : Granted (permit i) (w'.past i) := by
      rw [hpast, granted_append]
      exact Or.inl hg
    refine ⟨fun hn => absurd hg' hn, fun _ => ⟨?_, ?_⟩, ?_, hanswered⟩
    · rw [ho, hx.kept ha (by rw [howner]; rintro ⟨⟩), howner]
    · rw [hpending]
      exact honly.2 answer
    · intro seen hs hask e he
      rw [hpast] at hs
      rcases List.mem_append.mp hs with hs | hs
      · exact (h.not_refused hp hs hask he).elim
      · rw [List.mem_singleton] at hs
        rw [hs] at hask
        exact absurd hask honly.1
  · obtain ⟨hguard, hunused⟩ := h.waiting hg
    rw [hp] at hguard
    obtain ⟨huse, hfatal, hnext⟩ := hguard
    have hunused' : ¬ Used (permit i) (w'.past i) := by
      rw [hpast, used_append]
      rintro (hu | hu)
      · exact hunused hu
      · exact huse hu
    have hgranted : Granted (permit i) (w'.past i) ↔ (permit i).granted c answer := by
      rw [hpast, granted_append, or_iff_right hg]
    refine ⟨fun hn => ⟨?_, hunused'⟩, fun hg' => ⟨?_, ?_⟩, ?_, hanswered⟩
    · rw [hpending]
      exact (hnext answer).2 (fun hg' => hn (hgranted.mpr hg'))
    · rw [ho, (hx.granted ha (hgranted.mp hg')).2]
    · rw [hpending]
      exact (hnext answer).1 (hgranted.mp hg')
    · intro seen hs hask e he
      refine ⟨?_, hunused'⟩
      rw [hpast] at hs
      rcases List.mem_append.mp hs with hs | hs
      · exact (h.not_refused hp hs hask he).elim
      · rw [List.mem_singleton] at hs
        obtain rfl := hs
        rw [hpending, show answer = .error e from he]
        exact hfatal hask e

/-- A program that does nothing. -/
theorem Lawful.other {w w' : World C R ε α ι} {i : ι} (h : Lawful permit answers w i)
    (howner : ∀ j, w.owner = .program j → w'.owner = w.owner)
    (hpending : w'.pending i = w.pending i) (hpast : w'.past i = w.past i) :
    Lawful permit answers w' i := by
  refine ⟨?_, ?_, ?_, ?_⟩
  · rw [hpending, hpast]
    exact h.waiting
  · rw [hpending, hpast]
    intro hg
    obtain ⟨ho, honly⟩ := h.holding hg
    exact ⟨(howner i ho).trans ho, honly⟩
  · rw [hpending, hpast]
    exact h.refused
  · rw [hpast]
    exact h.answered

/-- Who used the resource owns it. -/
theorem Lawful.owner {w : World C R ε α ι} {i : ι} (h : Lawful permit answers w i)
    (hu : Used (permit i) (w.past i)) : w.owner = .program i := by
  by_cases hg : Granted (permit i) (w.past i)
  · exact (h.holding hg).1
  · exact absurd hu (h.waiting hg).2

end

section
variable {ι : Type} [DecidableEq ι]

/-- Somebody outside makes the resource, or one program does its next call. -/
inductive WorldStep (answers : ι → Owner ι → (c : C) → Except ε (R c) → Owner ι → Prop) :
    World C R ε α ι → World C R ε α ι → Prop
  | outside {w : World C R ε α ι} (h : w.owner = .nobody) : WorldStep answers w { w with owner := .outside }
  | program {w : World C R ε α ι} (i : ι) {c : C} {next : Except ε (R c) → Prog C R ε α}
      (answer : Except ε (R c)) {owner : Owner ι} (hp : w.pending i = .call c next)
      (ha : answers i w.owner c answer owner) :
      WorldStep answers w ⟨owner, Function.update w.pending i (next answer),
        Function.update w.past i (w.past i ++ [⟨w.owner, c, answer⟩])⟩

abbrev WorldSteps (answers : ι → Owner ι → (c : C) → Except ε (R c) → Owner ι → Prop) :
    World C R ε α ι → World C R ε α ι → Prop := Relation.ReflTransGen (WorldStep answers)

variable {permit : ι → Permit C R ε}
  {answers : ι → Owner ι → (c : C) → Except ε (R c) → Owner ι → Prop}

/-- **One step keeps every program lawful.** -/
theorem WorldStep.lawful (hx : Exclusive permit answers) {w w' : World C R ε α ι}
    (hm : WorldStep answers w w') (h : ∀ i, Lawful permit answers w i) (i : ι) :
    Lawful permit answers w' i := by
  cases hm with
  | outside hnobody =>
    refine (h i).other (fun j hj => ?_) rfl rfl
    rw [hnobody] at hj
    cases hj
  | program j answer hp ha =>
    by_cases hij : i = j
    · subst hij
      exact (h i).call hx hp ha rfl (Function.update_self _ _ _) (Function.update_self _ _ _)
    · refine (h i).other (fun k hk => hx.kept ha ?_) (Function.update_of_ne hij _ _)
        (Function.update_of_ne hij _ _)
      rw [hk]
      rintro ⟨⟩

/-- **In every interleaving every program is lawful.** -/
theorem reachable_lawful (hx : Exclusive permit answers) {w w' : World C R ε α ι}
    (hstart : ∀ i, Guarded (permit i) (w.pending i)) (hpast : ∀ i, w.past i = [])
    (hr : WorldSteps answers w w') (i : ι) : Lawful permit answers w' i := by
  induction hr generalizing i with
  | refl =>
    have hnone : ∀ seen, seen ∉ w.past i := fun seen => by
      rw [hpast i]
      exact List.not_mem_nil
    refine ⟨fun _ => ⟨hstart i, ?_⟩, ?_, fun seen hs => absurd hs (hnone seen),
      fun seen hs => absurd hs (hnone seen)⟩
    · rintro ⟨seen, hs, -⟩
      exact hnone seen hs
    · rintro ⟨seen, hs, -⟩
      exact absurd hs (hnone seen)
  | tail _ hm ih => exact hm.lawful hx ih i

end

end Effects
