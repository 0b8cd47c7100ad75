import Pyrealm.Forensics.Carve

/-!
# `main`

The exit status of the command line, over every run: any file content, any
answer of the system its documentation allows.

    ExitLaw final out  ↔  ¬ Escapes args.minimum final        (main_exit_law_iff)

The status tells recognised, not recognised and failed runs apart, except that
two exceptions pass the handler of `main`: `RuntimeError` of path handling and
`OverflowError` of the pattern compiler.
-/

namespace Pyrealm

open Py Effects

/-! ## Algorithm -/

abbrev EXIT_RECOGNIZED : Nat := 0
abbrev EXIT_OPERATIONAL_ERROR : Nat := 1
abbrev EXIT_NO_HEADER : Nat := 3

/-- The arguments the parser accepts; `_positive_int` lets no count below 1 through. -/
inductive Arguments where
  | inspect (realm : String) (json : Bool)
  | carve (realm output : String) (minString : Nat) (positive : 1 ≤ minString)

/-- The count that reaches the carver. -/
def Arguments.minimum : Arguments → Option Nat
  | .inspect _ _ => none
  | .carve _ _ minString _ => some minString

section
variable {ε : Type} (m : Measures ε) (isprintable : Char → Bool) (hexdigest : Bytes → String)

/-- The body of `try` in `main`. -/
def mainBody (fuel : Nat) : Arguments → Action ε (Analysis ε)
  | .inspect realm json => do
    let analysis ← analyzeRealm m isprintable hexdigest fuel realm
    ask (.print (if json then .json analysis else .humanSummary analysis))
    pure analysis
  | .carve realm output minString _ => do
    let analysis ← carveRealm m isprintable hexdigest fuel realm output minString
    ask (.print (.humanSummary analysis))
    let resolved ← ask (.resolve output false)
    ask (.print (.results resolved))
    pure analysis

/-- The second line for a `ValueError`. -/
def printSuggestion (e : Exc) : Action ε Unit :=
  if e.isValueError then ask (.printError .suggestion) else pure ()

/-- `except (OSError, ValueError) as error` -/
def handleError (e : Exc) : Action ε Nat :=
  if e.isOSError || e.isValueError then do
    ask (.printError (.error e))
    printSuggestion e
    pure EXIT_OPERATIONAL_ERROR
  else Prog.raise e

def main (fuel : Nat) (args : Arguments) : Action ε Nat :=
  Prog.tryCatch handleError do
    let analysis ← mainBody m isprintable hexdigest fuel args
    pure (if analysis.header.isSome then EXIT_RECOGNIZED else EXIT_NO_HEADER)

end

/-! ## The exit law -/

section
variable {ε : Type}

/-- A call failed, or the output directory existed. -/
def OperationalError (final : List (Step ε)) : Prop := ∃ ev ∈ final, Fails ev

/-- What the exit status of a run tells. -/
structure ExitLaw (final : List (Step ε)) (out : Except Exc Nat) : Prop where
  returns : ∃ status, out = .ok status
  recognised : out = .ok EXIT_RECOGNIZED ↔ ¬ OperationalError final ∧ HeaderFound final
  noHeader : out = .ok EXIT_NO_HEADER ↔ ¬ OperationalError final ∧ ¬ HeaderFound final
  operational : out = .ok EXIT_OPERATIONAL_ERROR ↔ OperationalError final

section
variable {minimumString : Option Nat} {analysis : Analysis ε} {now : List (Step ε)}
  (h : Returned minimumString analysis now)
include h

theorem Returned.append_plain {events : List (Step ε)}
    (hev : ∀ ev ∈ events, Plain ev.command ∧ ¬ Fails ev) :
    Returned minimumString analysis (now ++ events) where
  quiet := List.forall_mem_append.mpr ⟨h.quiet, fun ev hm => (hev ev hm).2⟩
  header := (headerFound_append fun ev hm => (hev ev hm).1.ne_mapSource).trans h.header
  fits := by
    rw [overflowed_append minimumString (fun ev hm => (hev ev hm).1.ne_mapSource)
      fun ev hm => (hev ev hm).1.ne_closeSource]
    exact h.fits

theorem Returned.append_path {c : Command ε} (hc : PathStep c) (a : Answer c) :
    Returned minimumString analysis (now ++ [⟨c, .ok a⟩]) where
  quiet := by
    rw [List.forall_mem_append, List.forall_mem_singleton]
    refine ⟨h.quiet, ?_⟩
    cases c <;> first | exact id | exact hc.elim
  header := by
    rw [headerFound_append (List.forall_mem_singleton.mpr (by rintro rfl; exact hc)), h.header]
  fits := by
    rw [overflowed_append minimumString (List.forall_mem_singleton.mpr (by rintro rfl; exact hc))
      (List.forall_mem_singleton.mpr (by rintro rfl; exact hc))]
    exact h.fits

theorem Returned.not_escapes : ¬ Escapes minimumString now := by
  rintro (⟨ev, hev, hr⟩ | ho)
  · exact h.quiet ev hev hr.fails
  · exact h.fits ho

end

theorem escapes_append_plain (minimumString : Option Nat) {now events : List (Step ε)}
    (hn : ∀ ev ∈ events, Plain ev.command) :
    Escapes minimumString (now ++ events) ↔ Escapes minimumString now := by
  rw [Escapes, Escapes, overflowed_append minimumString (fun ev hm => (hn ev hm).ne_mapSource)
    fun ev hm => (hn ev hm).ne_closeSource]
  constructor
  · rintro (⟨ev, hev, hr⟩ | ho)
    · rcases List.mem_append.mp hev with hev | hev
      · exact Or.inl ⟨ev, hev, hr⟩
      · exact absurd hr (hn ev hev).not_pathRuntime
    · exact Or.inr ho
  · rintro (⟨ev, hev, hr⟩ | ho)
    · exact Or.inl ⟨ev, List.mem_append_left _ hev, hr⟩
    · exact Or.inr ho

/-- A steady continuation of an analysis that returned. -/
theorem Returned.wp_steady {minimumString : Option Nat} {analysis : Analysis ε} {α : Type}
    {now : List (Step ε)} (h : Returned minimumString analysis now) {content : Bytes}
    {p : Action ε α} (hp : Steady (Documented content) Plain Fails Caught p) :
    wp (recorded (Documented content)) p (fun _ => Returned minimumString analysis) (Raised minimumString)
      now := by
  refine (hp now).wp_of (fun _ events hev => h.append_plain hev) ?_
  rintro e events hn ⟨ev, hev, hfail⟩ hc
  refine Or.inl ⟨hc, ⟨ev, List.mem_append_right _ hev, hfail⟩, ?_⟩
  rw [escapes_append_plain minimumString hn]
  exact h.not_escapes

variable (m : Measures ε) (isprintable : Char → Bool) (hexdigest : Bytes → String)

theorem calm_nil : Calm ([] : List (Step ε)) none :=
  ⟨by simp, by simp, by simp [Mapped]⟩

theorem carveRealm_spec (content : Bytes) (fuel : Nat) (hf : content.length < fuel)
    (realm output : String) (minString : Nat) (hmin : 1 ≤ minString) :
    wp (recorded (Documented content)) (carveRealm m isprintable hexdigest fuel realm output minString)
      (fun analysis => Returned (some minString) analysis) (Raised (some minString)) [] := by
  rw [carveRealm, if_neg (by omega), wp_bind, ask, wp_recorded]
  constructor
  · intro found _
    cases found with
    | true =>
      rw [if_pos rfl, wp_raise]
      refine Or.inl ⟨by decide, ⟨_, List.mem_singleton_self _, rfl⟩, ?_⟩
      exact calm_nil.not_escapes_append _ (List.forall_mem_singleton.mpr id)
        (List.forall_mem_singleton.mpr (by rintro ⟨⟩))
    | false =>
      rw [if_neg Bool.false_ne_true]
      have hcalm : Calm ([] ++ [(⟨.pathExists output, .ok false⟩ : Step ε)]) none := by
        apply calm_nil.append
        all_goals
          rw [List.forall_mem_singleton]
          rintro ⟨⟩
      rw [wp_bind]
      refine wp_mono (analyze_spec m isprintable hexdigest content fuel realm (some minString) hcalm
        rfl hf) (fun r now hr => ?_) fun _ _ => id
      rw [wp_bind]
      refine wp_mono (hr.wp_steady (steady_ask content (.mkdir output) trivial)) (fun _ now hr => ?_)
        fun _ _ => id
      rw [wp_bind]
      exact hr.wp_steady (writeReports_steady content output r.1 r.2)
  · intro e he
    refine Or.inl ⟨he, ⟨_, List.mem_singleton_self _, trivial⟩, ?_⟩
    exact calm_nil.not_escapes_append _ (List.forall_mem_singleton.mpr id)
      (List.forall_mem_singleton.mpr (by rintro ⟨⟩))

theorem mainBody_spec (content : Bytes) (fuel : Nat) (hf : content.length < fuel)
    (args : Arguments) :
    wp (recorded (Documented content)) (mainBody m isprintable hexdigest fuel args)
      (fun analysis => Returned args.minimum analysis) (Raised args.minimum) [] := by
  cases args with
  | inspect realm json =>
    rw [mainBody, wp_bind, analyzeRealm, wp_bind]
    refine wp_mono (analyze_spec m isprintable hexdigest content fuel realm none calm_nil rfl hf)
      (fun r now hr => ?_) fun _ _ => id
    rw [wp_pure, wp_bind]
    exact hr.wp_steady (steady_ask content (.print _) trivial)
  | carve realm output minString positive =>
    rw [mainBody, wp_bind]
    refine wp_mono (carveRealm_spec m isprintable hexdigest content fuel hf realm output minString
      positive) (fun analysis now hr => ?_) fun _ _ => id
    rw [wp_bind]
    refine wp_mono (hr.wp_steady (steady_ask content (.print _) trivial)) (fun _ now hr => ?_)
      fun _ _ => id
    rw [wp_bind]
    refine wp_mono (ask_path_spec content (some minString) (c := .resolve output false) trivial
      hr.quiet hr.fits) ?_ fun _ _ => id
    rintro resolved _ rfl
    rw [wp_bind]
    exact (hr.append_path (c := .resolve output false) trivial resolved).wp_steady
      (steady_ask content (.print _) trivial)

/-- Status 1, after the lines on standard error. -/
theorem handleError_spec (content : Bytes) (minimumString : Option Nat) {e : Exc}
    {now : List (Step ε)} (h : Raised minimumString e now) :
    wp (recorded (Documented content)) (handleError e)
      (fun status final => status = EXIT_OPERATIONAL_ERROR ∧ OperationalError final ∧
        ¬ Escapes minimumString final)
      (fun _ final => Escapes minimumString final) now := by
  unfold handleError
  rcases h with ⟨hc, ⟨ev, hev, hfail⟩, hno⟩ | ⟨hc, hesc⟩
  · have hkeep : ∀ events : List (Step ε), (∀ ev ∈ events, Plain ev.command) →
        OperationalError (now ++ events) ∧ ¬ Escapes minimumString (now ++ events) := fun events hn =>
      ⟨⟨ev, List.mem_append_left _ hev, hfail⟩, by rwa [escapes_append_plain minimumString hn]⟩
    rw [if_pos (by simpa [Caught] using hc), wp_bind, ask, wp_recorded]
    refine ⟨fun _ _ => ?_, fun _ he => he.elim⟩
    rw [wp_bind, printSuggestion]
    split
    · rw [ask, wp_recorded]
      refine ⟨fun _ _ => ?_, fun _ he => he.elim⟩
      rw [wp_pure, List.append_assoc]
      refine ⟨rfl, hkeep _ ?_⟩
      rw [List.forall_mem_append, List.forall_mem_singleton, List.forall_mem_singleton]
      exact ⟨trivial, trivial⟩
    · rw [wp_pure, wp_pure]
      exact ⟨rfl, hkeep _ (List.forall_mem_singleton.mpr trivial)⟩
  · rw [if_neg (by simpa [Caught] using hc), wp_raise]
    exact hesc

/-- Every command can be answered. -/
theorem documented_serial (content : Bytes) (past : List (Step ε)) (c : Command ε) :
    ∃ answer, Documented content past ⟨c, answer⟩ := by
  cases c with
  | printError line => exact ⟨.ok (), trivial⟩
  | expanduser path => exact ⟨.error .osError, Or.inl (by decide)⟩
  | resolve path strict => exact ⟨.error .osError, Or.inl (by decide)⟩
  | _ => exact ⟨.error .osError, (by decide : Caught .osError)⟩

theorem exitLaw_of_returned {minimumString : Option Nat} {analysis : Analysis ε}
    {final : List (Step ε)} (h : Returned minimumString analysis final) :
    ExitLaw final
      (.ok (if analysis.header.isSome then EXIT_RECOGNIZED else EXIT_NO_HEADER)) := by
  have hno : ¬ OperationalError final := fun ⟨ev, hev, hfail⟩ => h.quiet ev hev hfail
  cases hh : analysis.header with
  | none =>
    have hnone : ¬ HeaderFound final := by rw [h.header, hh]; exact fun hn => hn rfl
    refine ⟨⟨_, rfl⟩, ?_, ?_, ?_⟩ <;> simp [hno, hnone]
  | some header =>
    have hsome : HeaderFound final := by rw [h.header, hh]; simp
    refine ⟨⟨_, rfl⟩, ?_, ?_, ?_⟩ <;> simp [hno, hsome]

theorem main_spec (content : Bytes) (fuel : Nat) (hf : content.length < fuel) (args : Arguments) :
    wp (recorded (Documented content)) (main m isprintable hexdigest fuel args)
      (fun status final => ExitLaw final (.ok status) ∧ ¬ Escapes args.minimum final)
      (fun _ final => Escapes args.minimum final) [] := by
  rw [main, wp_tryCatch, wp_bind]
  refine wp_mono (mainBody_spec m isprintable hexdigest content fuel hf args) ?_ ?_
  · exact fun analysis final h => ⟨exitLaw_of_returned h, h.not_escapes⟩
  · intro e now h
    refine wp_mono (handleError_spec content args.minimum h) ?_ fun _ _ => id
    rintro _ final ⟨rfl, hop, hno⟩
    exact ⟨⟨⟨_, rfl⟩, by simp [hop], by simp [hop], by simp [hop]⟩, hno⟩

/-- **The exit status is right in exactly the runs that no exception escapes**:
no step of path handling raised `RuntimeError`, and no count reached the pattern
compiler that it rejects. -/
theorem main_exit_law_iff (content : Bytes) (fuel : Nat) (hf : content.length < fuel)
    (args : Arguments) :
    (∃ final out, Runs (recorded (Documented content)) [] (main m isprintable hexdigest fuel args) final out) ∧
    ∀ final out, Runs (recorded (Documented content)) [] (main m isprintable hexdigest fuel args) final out →
      (ExitLaw final out ↔ ¬ Escapes args.minimum final) := by
  refine ⟨exists_runs _ (recorded_serial (documented_serial content)) _ _, ?_⟩
  intro final out hr
  have hends := (wp_iff_runs _ _ _ _ _).mp (main_spec m isprintable hexdigest content fuel hf args)
    final out hr
  cases out with
  | ok status => exact ⟨fun _ => hends.2, fun _ => hends.1⟩
  | error e =>
    refine ⟨fun h => ?_, fun h => absurd hends h⟩
    obtain ⟨status, hs⟩ := h.returns
    cases hs

end

/-! ## Two runs -/

theorem main_tinyRealm : ∃ final, Runs (recorded (Documented tinyRealm)) []
    (main ⟨(), fun _ => (), fun _ => false⟩ Char.isAlpha (fun _ => "") 65 (.inspect "a.realm" false))
    final (.ok EXIT_RECOGNIZED) := by
  apply Exists.intro
  apply Runs.call (.ok "a.realm") ⟨trivial, rfl⟩
  apply Runs.call (.ok "/a.realm") ⟨trivial, rfl⟩
  apply Runs.call (.ok ()) ⟨trivial, rfl⟩
  apply Runs.call (.ok tinyRealm) ⟨by show tinyRealm = _; decide +kernel, rfl⟩
  apply Runs.call (.ok []) ⟨by show ([] : Bytes) = _; decide +kernel, rfl⟩
  apply Runs.call (.ok ()) ⟨trivial, rfl⟩
  apply Runs.call (.ok 64) ⟨trivial, rfl⟩
  apply Runs.call (.ok tinyRealm) ⟨trivial, rfl⟩
  apply Runs.call (.ok ()) ⟨trivial, rfl⟩
  apply Runs.call (.ok ()) ⟨trivial, rfl⟩
  apply Runs.done

theorem main_exit_law_tiny : ∃ final, Runs (recorded (Documented tinyRealm)) []
      (main ⟨(), fun _ => (), fun _ => false⟩ Char.isAlpha (fun _ => "") 65
        (.inspect "a.realm" false)) final (.ok EXIT_RECOGNIZED) ∧
    ExitLaw final (.ok EXIT_RECOGNIZED) := by
  obtain ⟨final, hr⟩ := main_tinyRealm
  have hlen : tinyRealm.length < 65 := by decide +kernel
  have hends := (wp_iff_runs _ _ _ _ _).mp (main_spec _ _ _ tinyRealm 65 hlen _) final _ hr
  exact ⟨final, hr, ((main_exit_law_iff _ _ _ tinyRealm 65 hlen _).2 final _ hr).mpr hends.2⟩

/-- An unknown user in the path: `expanduser` raises `RuntimeError`. -/
theorem main_unknown_user : ∃ final, Runs (recorded (Documented tinyRealm)) []
      (main ⟨(), fun _ => (), fun _ => false⟩ Char.isAlpha (fun _ => "") 65
        (.inspect "~nosuchuser/a.realm" false)) final (.error .runtimeError) ∧
    ¬ ExitLaw final (.error .runtimeError) := by
  apply Exists.intro
  constructor
  · apply Runs.call (.error .runtimeError) ⟨Or.inr rfl, rfl⟩
    apply Runs.done
  · intro h
    obtain ⟨status, hs⟩ := h.returns
    cases hs

end Pyrealm
