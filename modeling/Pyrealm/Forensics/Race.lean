import Pyrealm.Forensics.Carve
import Pyrealm.Pool.Exclusive

/-!
# Calls of `carve_realm` that compete for one output directory

`output.mkdir(parents=True, exist_ok=False)` is run as `pathlib` runs it, one
system call after the other; `os.mkdir` is atomic and exclusive, and nobody
removes the directory.

* `guarded_carve`: a call writes only into a directory that its own `os.mkdir` made.
* `one_writer`: so in every interleaving the reports come from one call.
-/

namespace Pyrealm

open Py Effects

/-! ## `Path.mkdir` -/

/-- The system calls of `Path.mkdir`; every other command is a call of its own. -/
inductive SysCommand (ε : Type) where
  | call (c : Command ε)
  | osMkdir (path : String)
  | isDir (path : String)

/-- What `os.mkdir` tells: `notFound` is `FileNotFoundError`, the parent is missing. -/
inductive Made where
  | made
  | notFound

@[reducible] def SysAnswer {ε : Type} : SysCommand ε → Type
  | .call c => Answer c
  | .osMkdir _ => Made
  | .isDir _ => Bool

abbrev SysAction (ε α : Type) := Prog (SysCommand ε) SysAnswer Exc α

/-- `path.parent` -/
def parentOf (path : List Char) : List Char :=
  match (path.reverse.dropWhile (· ≠ '/')).reverse with
  | [] => ['.']
  | ['/'] => ['/']
  | front => front.dropLast

def parentsFrom : Nat → List Char → List (List Char)
  | 0, _ => []
  | fuel + 1, path =>
    if parentOf path = path then [] else parentOf path :: parentsFrom fuel (parentOf path)

/-- `path.parents`; a parent is shorter than its path, or `.`. -/
def parents (path : String) : List String :=
  (parentsFrom (path.toList.length + 1) path.toList).map String.ofList

section
variable {ε : Type}

/-- `except OSError: if not exist_ok or not self.is_dir(): raise` -/
def mkdirFailed (path : String) (existOk : Bool) (e : Exc) : SysAction ε Unit :=
  if e.isOSError = true ∧ existOk = true then do
    let found ← Prog.perform (.isDir path)
    if found then pure () else Prog.raise e
  else Prog.raise e

/-- `os.mkdir(self)` with the handlers of `Path.mkdir`; `missing` is what is done
on `FileNotFoundError`. -/
def tryMkdir (path : String) (existOk : Bool) (missing : SysAction ε Unit) : SysAction ε Unit :=
  .call (.osMkdir path) fun answer =>
    match answer with
    | .ok .made => pure ()
    | .ok .notFound => missing
    | .error e => mkdirFailed path existOk e

/-- `path.mkdir(parents=True, exist_ok=existOk)` -/
def pathMkdir (existOk : Bool) (path : String) : List String → SysAction ε Unit
  | [] => tryMkdir path existOk (Prog.raise .osError)
  | parent :: ancestors => tryMkdir path existOk do
    pathMkdir true parent ancestors
    tryMkdir path existOk (Prog.raise .osError)

/-- The system calls of a command. -/
def lower : (c : Command ε) → SysAction ε (Answer c)
  | .mkdir path => pathMkdir false path (parents path)
  | c => Prog.perform (SysCommand.call c)

end

/-! ## A path is none of its parents -/

theorem parentOf_length (path : List Char) (h : parentOf path ≠ path) :
    (parentOf path).length < path.length ∨ parentOf path = ['.'] := by
  have hsuffix : (path.reverse.dropWhile (· ≠ '/')).reverse <+: path := by
    rw [← List.reverse_suffix, List.reverse_reverse]
    exact List.dropWhile_suffix _
  have hle := hsuffix.length_le
  unfold parentOf at h ⊢
  split
  · exact Or.inr rfl
  · next heq =>
    rw [heq] at hle hsuffix h
    refine Or.inl (Nat.lt_of_le_of_ne hle fun hlen => h ?_)
    exact hsuffix.eq_of_length hlen
  · next hne _ =>
    have hpos := List.length_pos_iff.mpr hne
    rw [List.length_dropLast]
    omega

theorem length_parentsFrom : ∀ (fuel : Nat) (path : List Char), ∀ p ∈ parentsFrom fuel path,
    p.length < path.length ∨ p = ['.'] := by
  intro fuel
  induction fuel with
  | zero => exact fun path p hp => absurd hp List.not_mem_nil
  | succ fuel ih =>
    intro path p hp
    rw [parentsFrom] at hp
    split at hp
    · exact absurd hp List.not_mem_nil
    · next hne =>
      rcases List.mem_cons.mp hp with rfl | hp
      · exact parentOf_length path hne
      · rcases ih _ p hp with hlt | hdot
        · rcases parentOf_length path hne with hlt' | hdot
          · exact Or.inl (by omega)
          · rw [hdot] at hp
            cases fuel <;> exact absurd hp List.not_mem_nil
        · exact Or.inr hdot

theorem not_mem_parents (path : String) : path ∉ parents path := by
  intro hp
  obtain ⟨p, hp, he⟩ := List.mem_map.mp hp
  have hpath : path.toList = p := by rw [← he, String.toList_ofList]
  rw [hpath] at hp
  rcases length_parentsFrom _ p p hp with hlt | hdot
  · exact Nat.lt_irrefl _ hlt
  · rw [hdot] at hp
    exact absurd hp List.not_mem_nil

/-! ## A call is guarded by its own `os.mkdir` -/

section
variable {ε : Type}

/-- Making `output`. -/
def Makes (output : String) : SysCommand ε → Prop
  | .osMkdir path => path = output
  | _ => False

def MakesIt (output : String) : (c : SysCommand ε) → Except Exc (SysAnswer c) → Prop
  | .osMkdir path, .ok .made => path = output
  | _, _ => False

/-- Opening, writing or closing a report. -/
def WritesReport : SysCommand ε → Prop
  | .call c => OfReports c
  | _ => False

/-- A call may write reports once it has made the directory. -/
def permit (output : String) : Permit (SysCommand ε) SysAnswer Exc where
  asks := Makes output
  granted := MakesIt output
  uses := WritesReport

variable {output : String}

theorem idle_call {c : Command ε} (hc : ¬ OfReports c) : (permit output).Idle (.call c) :=
  ⟨id, hc, fun _ => id⟩

theorem idle_isDir (path : String) : (permit (ε := ε) output).Idle (.isDir path) :=
  ⟨id, id, fun _ => id⟩

theorem idle_osMkdir {path : String} (h : path ≠ output) :
    (permit (ε := ε) output).Idle (.osMkdir path) := by
  refine ⟨h, id, fun answer => ?_⟩
  cases answer with
  | error e => exact id
  | ok outcome =>
    cases outcome with
    | made => exact h
    | notFound => exact id

theorem tryMkdir_idle {path : String} (h : path ≠ output) (existOk : Bool) {missing : SysAction ε Unit}
    (hm : missing.Only (permit output).Idle) : (tryMkdir path existOk missing).Only (permit output).Idle := by
  refine ⟨idle_osMkdir h, fun answer => ?_⟩
  cases answer with
  | error e =>
    show (mkdirFailed path existOk e).Only _
    unfold mkdirFailed
    split
    · refine Only.bind (Only.perform (idle_isDir path)) fun found => ?_
      split
      · exact trivial
      · exact trivial
    · exact trivial
  | ok outcome =>
    cases outcome with
    | made => exact trivial
    | notFound => exact hm

theorem pathMkdir_idle (existOk : Bool) (path : String) (ancestors : List String) (h : path ≠ output)
    (ha : output ∉ ancestors) : (pathMkdir existOk path ancestors).Only (permit (ε := ε) output).Idle := by
  induction ancestors generalizing existOk path with
  | nil => exact tryMkdir_idle h existOk trivial
  | cons parent ancestors ih =>
    rw [List.mem_cons, not_or] at ha
    exact tryMkdir_idle h existOk (Only.bind (ih true parent (Ne.symm ha.1) ha.2) fun _ =>
      tryMkdir_idle h existOk trivial)

/-- With `exist_ok=False` every exception of `os.mkdir` is raised again. -/
theorem guarded_tryMkdir {missing : SysAction ε Unit} (hm : Guarded (permit output) missing) :
    Guarded (permit output) (tryMkdir output false missing) := by
  have hfailed : ∀ e, mkdirFailed output false e = (.done (.error e) : SysAction ε Unit) := by
    intro e
    exact if_neg (fun h => Bool.false_ne_true h.2)
  refine ⟨id, fun _ e => hfailed e, fun answer => ⟨?_, ?_⟩⟩
  · cases answer with
    | error e => exact False.elim
    | ok outcome =>
      cases outcome with
      | made => exact fun _ => trivial
      | notFound => exact False.elim
  · intro hnot
    cases answer with
    | error e =>
      show Guarded _ (mkdirFailed output false e)
      rw [hfailed]
      exact trivial
    | ok outcome =>
      cases outcome with
      | made => exact absurd rfl hnot
      | notFound => exact hm

theorem guarded_pathMkdir (ancestors : List String) (ha : output ∉ ancestors) :
    Guarded (permit (ε := ε) output) (pathMkdir false output ancestors) := by
  have hraise : Guarded (permit (ε := ε) output) (Prog.raise .osError : SysAction ε Unit) := trivial
  cases ancestors with
  | nil => exact guarded_tryMkdir hraise
  | cons parent ancestors =>
    rw [List.mem_cons, not_or] at ha
    exact guarded_tryMkdir (Guarded.after (pathMkdir_idle true parent ancestors (Ne.symm ha.1) ha.2)
      fun _ => guarded_tryMkdir hraise)

/-- Commands other than `mkdir` are one call. -/
theorem lower_call {calls : SysCommand ε → Prop} {c : Command ε} (hc : ∀ path, c ≠ .mkdir path)
    (h : calls (.call c)) : (lower c).Only calls := by
  cases c with
  | mkdir path => exact absurd rfl (hc path)
  | _ => exact Only.perform h

/-- **A call of `carve_realm` writes only into a directory that its own
`os.mkdir` made**, and raises what that call raises. -/
theorem guarded_carve (m : Measures ε) (isprintable : Char → Bool) (hexdigest : Bytes → String)
    (fuel : Nat) (path output : String) (minimumString : Nat) : Guarded (permit output)
      ((carveRealm m isprintable hexdigest fuel path output minimumString).interpret lower) := by
  unfold carveRealm
  split
  · exact trivial
  · rw [interpret_bind]
    have hcheck : (ask (.pathExists output) : Action ε Bool).Only fun c => c = .pathExists output :=
      Only.perform rfl
    refine Guarded.after (Only.interpret ?_ hcheck) fun found => ?_
    · rintro _ rfl
      exact lower_call (by rintro _ ⟨⟩) (idle_call id)
    · cases found with
      | true => exact trivial
      | false =>
        rw [if_neg Bool.false_ne_true, interpret_bind]
        refine Guarded.after (Only.interpret ?_ (analyze_only m isprintable hexdigest fuel path _))
          fun result => ?_
        · intro c hc
          refine lower_call (by rintro _ rfl; exact hc) (idle_call ?_)
          cases c <;> first | exact id | exact hc.elim
        · rw [interpret_bind, ask, interpret_perform]
          refine Guarded.before (guarded_pathMkdir _ (not_mem_parents output)) fun _ => ?_
          rw [interpret_bind]
          refine Only.bind (Only.interpret ?_ (writeReports_only output result.1 result.2)) fun _ => trivial
          intro c hc
          exact lower_call (by rintro _ rfl; exact hc) id

end

/-! ## The competition -/

/-- A call of `carve_realm`; `names` are the paths of the shared output directory. -/
structure Invocation (ε : Type) (names : String → Prop) where
  measures : Measures ε
  isprintable : Char → Bool
  hexdigest : Bytes → String
  fuel : Nat
  path : String
  output : String
  minimumString : Nat
  named : names output

section
variable {ε ι : Type} {names : String → Prop}

def Invocation.program (inv : Invocation ε names) : SysAction ε (Analysis ε) :=
  (carveRealm inv.measures inv.isprintable inv.hexdigest inv.fuel inv.path inv.output
    inv.minimumString).interpret lower

/-- The effect of a call on who owns the directory.  `os.mkdir` makes it for one
caller and raises `FileExistsError` for the others; it may fail in other ways
where there is no directory.  Nothing else is known of the answers. -/
def carveAnswers (names : String → Prop) (i : ι) (owner : Owner ι) :
    (c : SysCommand ε) → Except Exc (SysAnswer c) → Owner ι → Prop
  | .osMkdir path, .ok .made, owner' =>
    (names path → owner = .nobody ∧ owner' = .program i) ∧ (¬ names path → owner' = owner)
  | .osMkdir path, .ok .notFound, owner' => owner' = owner ∧ (names path → owner = .nobody)
  | .osMkdir path, .error e, owner' =>
    owner' = owner ∧ (names path → (e = .fileExistsError ↔ owner ≠ .nobody))
  | .call (.pathExists path), .ok found, owner' =>
    owner' = owner ∧ (names path → (found = true ↔ owner ≠ .nobody))
  | _, _, owner' => owner' = owner

/-- Before the calls, with or without a directory there. -/
def start (calls : ι → Invocation ε names) (existed : Bool) :
    World (SysCommand ε) SysAnswer Exc (Analysis ε) ι where
  owner := if existed then .outside else .nobody
  pending := fun i => (calls i).program
  past := fun _ => []

/-- What the directory and the calls have come to. -/
structure OneWriter (calls : ι → Invocation ε names)
    (w : World (SysCommand ε) SysAnswer Exc (Analysis ε) ι) : Prop where
  /-- A call writes only into the directory it made. -/
  own : ∀ i, (∃ seen ∈ w.past i, WritesReport seen.command) → w.owner = .program i
  /-- All reports come from one call. -/
  one : ∀ i j, (∃ seen ∈ w.past i, WritesReport seen.command) →
    (∃ seen ∈ w.past j, WritesReport seen.command) → i = j
  /-- Who tries to make a directory that exists raises `FileExistsError`, and writes nothing. -/
  refused : ∀ i owner answer, ⟨owner, .osMkdir (calls i).output, answer⟩ ∈ w.past i →
    owner ≠ .nobody → w.pending i = .done (.error .fileExistsError) ∧
      ¬ ∃ seen ∈ w.past i, WritesReport seen.command
  /-- Whose `os.mkdir` fails in another way raises that, and writes nothing. -/
  failed : ∀ i owner e, ⟨owner, .osMkdir (calls i).output, .error e⟩ ∈ w.past i →
    w.pending i = .done (.error e) ∧ ¬ ∃ seen ∈ w.past i, WritesReport seen.command

theorem exclusive_carve (calls : ι → Invocation ε names) :
    Exclusive (fun i => permit (calls i).output) (carveAnswers (ε := ε) names) where
  granted := by
    intro i owner c answer owner' ha hg
    cases c with
    | call c => exact False.elim hg
    | isDir path => exact False.elim hg
    | osMkdir path =>
      cases answer with
      | error e => exact False.elim hg
      | ok outcome =>
        cases outcome with
        | notFound => exact False.elim hg
        | made =>
          obtain rfl : path = (calls i).output := hg
          exact ha.1 (calls i).named
  kept := by
    intro i owner c answer owner' ha howner
    cases c with
    | isDir path => exact ha
    | call c =>
      cases answer with
      | error e => cases c <;> exact ha
      | ok a => cases c <;> first | exact ha | exact ha.1
    | osMkdir path =>
      cases answer with
      | error e => exact ha.1
      | ok outcome =>
        cases outcome with
        | notFound => exact ha.1
        | made =>
          by_cases hn : names path
          · exact absurd (ha.1 hn).1 howner
          · exact ha.2 hn

/-- **The reports in the directory come from one call, which made it**, however
any number of calls and anybody who makes the directory are interleaved. -/
theorem one_writer [DecidableEq ι] (calls : ι → Invocation ε names) (existed : Bool)
    {w : World (SysCommand ε) SysAnswer Exc (Analysis ε) ι}
    (hr : WorldSteps (carveAnswers names) (start calls existed) w) : OneWriter calls w := by
  have hlawful := reachable_lawful (exclusive_carve calls)
    (fun i => guarded_carve _ _ _ _ _ _ _) (fun _ => rfl) hr
  have hown : ∀ i, Used (permit (calls i).output) (w.past i) → w.owner = .program i :=
    fun i hu => (hlawful i).owner hu
  refine ⟨hown, fun i j hi hj => ?_, ?_, ?_⟩
  · have h := (hown i hi).symm.trans (hown j hj)
    rwa [Owner.program.injEq] at h
  · intro i owner answer hs howner
    -- on a directory that exists, `os.mkdir` has one answer
    obtain ⟨owner', ha⟩ := (hlawful i).answered _ hs
    have hanswer : answer = .error .fileExistsError := by
      cases answer with
      | error e => rw [(ha.2 (calls i).named).mpr howner]
      | ok outcome =>
        cases outcome with
        | made => exact absurd (ha.1 (calls i).named).1 howner
        | notFound => exact absurd (ha.2 (calls i).named) howner
    exact (hlawful i).refused _ hs rfl _ hanswer
  · intro i owner e hs
    exact (hlawful i).refused _ hs rfl e rfl

end

/-- A call on an empty file. -/
def emptyCall : Invocation Unit fun path => path = "out" where
  measures := ⟨(), fun _ => (), fun _ => false⟩
  isprintable := Char.isAlpha
  hexdigest := fun _ => ""
  fuel := 1
  path := "a.realm"
  output := "out"
  minimumString := 4
  named := rfl

section
variable {o o' : Owner Bool} {p q : SysAction Unit (Analysis Unit)}
  {a b : List (Seen (SysCommand Unit) SysAnswer Exc Bool)} {c : SysCommand Unit}
  {next : Except Exc (SysAnswer c) → SysAction Unit (Analysis Unit)}
  {w : World (SysCommand Unit) SysAnswer Exc (Analysis Unit) Bool}

/-- The world of two calls. -/
def pairWorld (o : Owner Bool) (p q : SysAction Unit (Analysis Unit))
    (a b : List (Seen (SysCommand Unit) SysAnswer Exc Bool)) :
    World (SysCommand Unit) SysAnswer Exc (Analysis Unit) Bool where
  owner := o
  pending := fun i => cond i p q
  past := fun i => cond i a b

theorem pairWorld_first (answer : Except Exc (SysAnswer c))
    (ha : carveAnswers (fun path => path = "out") true o c answer o')
    (hr : WorldSteps (carveAnswers fun path => path = "out")
      (pairWorld o' (next answer) q (a ++ [⟨o, c, answer⟩]) b) w) :
    WorldSteps (carveAnswers fun path => path = "out") (pairWorld o (.call c next) q a b) w := by
  refine .head ?_ hr
  have hw : pairWorld o' (next answer) q (a ++ [⟨o, c, answer⟩]) b =
      ⟨o', Function.update (pairWorld o (.call c next) q a b).pending true (next answer),
        Function.update (pairWorld o (.call c next) q a b).past true (a ++ [⟨o, c, answer⟩])⟩ := by
    unfold pairWorld
    congr 1 <;> funext i <;> cases i <;> rfl
  rw [hw]
  exact .program true answer rfl ha

theorem pairWorld_second (answer : Except Exc (SysAnswer c))
    (ha : carveAnswers (fun path => path = "out") false o c answer o')
    (hr : WorldSteps (carveAnswers fun path => path = "out")
      (pairWorld o' p (next answer) a (b ++ [⟨o, c, answer⟩])) w) :
    WorldSteps (carveAnswers fun path => path = "out") (pairWorld o p (.call c next) a b) w := by
  refine .head ?_ hr
  have hw : pairWorld o' p (next answer) a (b ++ [⟨o, c, answer⟩]) =
      ⟨o', Function.update (pairWorld o p (.call c next) a b).pending false (next answer),
        Function.update (pairWorld o p (.call c next) a b).past false (b ++ [⟨o, c, answer⟩])⟩ := by
    unfold pairWorld
    congr 1 <;> funext i <;> cases i <;> rfl
  rw [hw]
  exact .program false answer rfl ha

end

/-- Both calls find no directory; the first makes it and opens a report, the second is refused. -/
theorem two_calls_race : ∃ w, WorldSteps (carveAnswers fun path => path = "out")
      (start (fun _ : Bool => emptyCall) false) w ∧ w.owner = .program true ∧
    (∃ seen ∈ w.past true, WritesReport seen.command) ∧
    w.pending false = .done (.error .fileExistsError) := by
  have hstart : start (fun _ : Bool => emptyCall) false =
      pairWorld .nobody emptyCall.program emptyCall.program [] [] := by
    unfold pairWorld start
    congr 1 <;> funext i <;> cases i <;> rfl
  rw [hstart]
  apply Exists.intro
  constructor
  · apply pairWorld_first (.ok false) (by exact ⟨rfl, by simp⟩)
    apply pairWorld_second (.ok false) (by exact ⟨rfl, by simp⟩)
    apply pairWorld_first (.ok "a.realm") (by exact rfl)
    apply pairWorld_first (.ok "/a.realm") (by exact rfl)
    apply pairWorld_first (.ok ()) (by exact rfl)
    apply pairWorld_first (.ok []) (by exact rfl)
    apply pairWorld_first (.ok ()) (by exact rfl)
    apply pairWorld_first (.ok 0) (by exact rfl)
    apply pairWorld_first (.ok ()) (by exact rfl)
    apply pairWorld_second (.ok "a.realm") (by exact rfl)
    apply pairWorld_second (.ok "/a.realm") (by exact rfl)
    apply pairWorld_second (.ok ()) (by exact rfl)
    apply pairWorld_second (.ok []) (by exact rfl)
    apply pairWorld_second (.ok ()) (by exact rfl)
    apply pairWorld_second (.ok 0) (by exact rfl)
    apply pairWorld_second (.ok ()) (by exact rfl)
    apply pairWorld_first (.ok Made.made) (by exact ⟨fun _ => ⟨rfl, rfl⟩, fun h => absurd rfl h⟩)
    apply pairWorld_first (.ok ()) (by exact rfl)
    apply pairWorld_second (.error .fileExistsError) (by exact ⟨rfl, by simp⟩)
    exact .refl
  · exact ⟨rfl, ⟨_, List.mem_append_right _ (List.mem_singleton_self _), trivial⟩, rfl⟩

theorem one_writer_race : ∃ w, WorldSteps (carveAnswers fun path => path = "out")
      (start (fun _ : Bool => emptyCall) false) w ∧ w.owner = .program true ∧
    w.pending false = .done (.error .fileExistsError) ∧ OneWriter (fun _ => emptyCall) w := by
  obtain ⟨w, hr, howner, -, hrefused⟩ := two_calls_race
  exact ⟨w, hr, howner, hrefused, one_writer (fun _ => emptyCall) false hr⟩

end Pyrealm
