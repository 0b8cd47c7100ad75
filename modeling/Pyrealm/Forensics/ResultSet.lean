import Pyrealm.Forensics.Carve

/-!
# What `carve_realm` leaves at the output path

The output path as the file system has it, for one call with the path to
itself.  Any call may raise; of a report on which a call raised, nothing is known.

* `withReport_spec`: a report is complete, absent or broken.
* `carve_result_set`: a call that returns leaves the three complete reports; one
  that raises leaves the path as it was, or a directory with the reports before
  the one that failed.  Nothing removes that directory.
-/

namespace Pyrealm

open Py Effects

/-! ## The output path -/

/-- A report that exists. -/
inductive ReportFile (ε : Type) where
  /-- open, and no call on it raised so far -/
  | writing (pieces : List (Piece ε))
  /-- closed, with these pieces in it -/
  | complete (pieces : List (Piece ε))
  /-- a call on it raised -/
  | broken

/-- The reports of a directory. -/
abbrev Reports (ε : Type) := Report → Option (ReportFile ε)

/-- What is at the output path; `δ` is whatever it held before the call. -/
inductive OutputState (δ ε : Type) where
  | absent
  | prior (contents : δ)
  | directory (reports : Reports ε)

section
variable {δ ε : Type}

def Reports.put (reports : Reports ε) (report : Report) (file : ReportFile ε) : Reports ε :=
  fun r => if r = report then some file else reports r

/-- The effect of the calls on the output path.  `mkdir` is exclusive, and a
raised exception may leave the report of the call in any state. -/
def outputSem (δ : Type) {ε : Type} (output : String) (s : OutputState δ ε) :
    (c : Command ε) → Except Exc (Answer c) → OutputState δ ε → Prop
  | .pathExists path, .ok found, t => t = s ∧ (path = output → (found = true ↔ s ≠ .absent))
  | .mkdir path, .ok _, t =>
    if path = output then s = .absent ∧ t = .directory fun _ => none else t = s
  | .openReport path report, .ok _, t =>
    if path = output then ∃ reports, s = .directory reports ∧
      t = .directory (reports.put report (.writing []))
    else t = s
  | .openReport path report, .error _, t =>
    t = s ∨ (path = output ∧ ∃ reports, s = .directory reports ∧
      t = .directory (reports.put report .broken))
  | .writeReport report piece, .ok _, t => ∃ reports pieces, s = .directory reports ∧
    reports report = some (.writing pieces) ∧
    t = .directory (reports.put report (.writing (pieces ++ [piece])))
  | .closeReport report, .ok _, t => ∃ reports, s = .directory reports ∧
    ((∃ pieces, reports report = some (.writing pieces) ∧
      t = .directory (reports.put report (.complete pieces))) ∨
    (reports report = some .broken ∧ t = s))
  | .writeReport report _, .error _, t | .closeReport report, .error _, t =>
    ∃ reports, s = .directory reports ∧ t = .directory (reports.put report .broken)
  | _, _, t => t = s

/-! ## Complete and interrupted result sets -/

/-- What each report of an analysis consists of. -/
def reportPieces (analysis : Analysis ε) (strings : List CarvedString) : Report → List (Piece ε)
  | .summary => [.summaryJson analysis, .newline]
  | .arrays => analysis.arrays.flatMap fun node => [.arrayJson node, .newline]
  | .strings => .csvHeader CSV_FIELDNAMES :: strings.map .csvRow

/-- The order in which the reports are written. -/
def Report.rank : Report → Nat
  | .summary => 0
  | .arrays => 1
  | .strings => 2

def CompleteSet (analysis : Analysis ε) (strings : List CarvedString) (reports : Reports ε) : Prop :=
  ∀ report, reports report = some (.complete (reportPieces analysis strings report))

/-- The reports before `failed` are complete, those behind it absent. -/
structure InterruptedAt (analysis : Analysis ε) (strings : List CarvedString) (failed : Report)
    (reports : Reports ε) : Prop where
  before : ∀ report, report.rank < failed.rank →
    reports report = some (.complete (reportPieces analysis strings report))
  current : reports failed = none ∨ reports failed = some .broken
  behind : ∀ report, failed.rank < report.rank → reports report = none

/-! ## Writing reports -/

@[simp] theorem put_self (reports : Reports ε) (report : Report) (file : ReportFile ε) :
    (reports.put report file) report = some file := if_pos rfl

@[simp] theorem put_of_ne (reports : Reports ε) {report r : Report} (file : ReportFile ε)
    (h : r ≠ report) : (reports.put report file) r = reports r := if_neg h

@[simp] theorem put_put (reports : Reports ε) (report : Report) (file file' : ReportFile ε) :
    (reports.put report file).put report file' = reports.put report file' := by
  funext r
  unfold Reports.put
  split <;> rfl

variable (δ) (output : String)

/-- `body` appends `pieces` to the open `report`; if it raises, the report is broken. -/
def Writes (report : Report) (pieces : List (Piece ε)) (body : Action ε Unit) : Prop :=
  ∀ (reports : Reports ε) (written : List (Piece ε)), wp (outputSem δ output) body
    (fun _ t => t = .directory (reports.put report (.writing (written ++ pieces))))
    (fun _ t => t = .directory (reports.put report .broken))
    (.directory (reports.put report (.writing written)))

variable {δ} {output}

theorem writes_write (report : Report) (piece : Piece ε) :
    Writes δ output report [piece] (write report piece) := by
  intro reports written
  rw [write, ask, wp_perform]
  constructor
  · rintro _ t ⟨reports', pieces, hs, hfile, rfl⟩
    rw [OutputState.directory.injEq] at hs
    rw [← hs, put_self, Option.some.injEq, ReportFile.writing.injEq] at hfile
    rw [← hs, put_put, hfile]
  · rintro e t ⟨reports', hs, rfl⟩
    rw [OutputState.directory.injEq] at hs
    rw [← hs, put_put]

theorem Writes.bind {report : Report} {pieces pieces' : List (Piece ε)} {p q : Action ε Unit}
    (hp : Writes δ output report pieces p) (hq : Writes δ output report pieces' q) :
    Writes δ output report (pieces ++ pieces') (p >>= fun _ => q) := by
  intro reports written
  rw [wp_bind]
  refine wp_mono (hp reports written) ?_ (fun _ _ h => h)
  rintro _ _ rfl
  rw [← List.append_assoc]
  exact hq reports (written ++ pieces)

theorem Writes.forEach {α : Type} {report : Report} {f : α → List (Piece ε)} {body : α → Action ε Unit}
    (h : ∀ a, Writes δ output report (f a) (body a)) (xs : List α) :
    Writes δ output report (xs.flatMap f) (Prog.forEach body xs) := by
  induction xs with
  | nil =>
    intro reports written
    rw [List.flatMap_nil, List.append_nil]
    exact rfl
  | cons x xs ih =>
    rw [List.flatMap_cons]
    exact (h x).bind ih

/-- **A report ends complete**, or its writer raises and it is absent or broken. -/
theorem withReport_spec {report : Report} {pieces : List (Piece ε)} {body : Action ε Unit}
    (h : Writes δ output report pieces body) (reports : Reports ε) :
    wp (outputSem δ output) (withReport output report body)
      (fun _ t => t = .directory (reports.put report (.complete pieces)))
      (fun _ t => t = .directory reports ∨ t = .directory (reports.put report .broken))
      (.directory reports) := by
  rw [withReport, wp_bind, ask, wp_perform]
  constructor
  · intro _ t ht
    simp only [outputSem, if_true] at ht
    obtain ⟨reports', hs, rfl⟩ := ht
    rw [OutputState.directory.injEq] at hs
    rw [← hs, wp_ensuring]
    -- the body is run on the empty report, the file closed behind it
    refine wp_mono (h reports []) ?_ ?_
    · rintro _ _ rfl
      rw [List.nil_append, wp_perform]
      constructor
      · rintro _ t ⟨reports₁, hs₁, ht⟩
        rw [OutputState.directory.injEq] at hs₁
        rw [← hs₁, put_self] at ht
        rcases ht with ⟨written, hfile, rfl⟩ | ⟨hbroken, -⟩
        · rw [Option.some.injEq, ReportFile.writing.injEq] at hfile
          rw [put_put, hfile]
        · cases hbroken
      · rintro e t ⟨reports₁, hs₁, rfl⟩
        rw [OutputState.directory.injEq] at hs₁
        rw [← hs₁, put_put]
        exact Or.inr rfl
    · rintro e _ rfl
      rw [wp_perform]
      constructor
      · rintro _ t ⟨reports₁, hs₁, ht⟩
        rw [OutputState.directory.injEq] at hs₁
        rw [← hs₁, put_self] at ht
        rcases ht with ⟨written, hfile, -⟩ | ⟨-, rfl⟩
        · cases hfile
        · exact Or.inr rfl
      · rintro e' t ⟨reports₁, hs₁, rfl⟩
        rw [OutputState.directory.injEq] at hs₁
        rw [← hs₁, put_put]
        exact Or.inr rfl
  · rintro e t (rfl | ⟨-, reports', hs, rfl⟩)
    · exact Or.inl rfl
    · rw [OutputState.directory.injEq] at hs
      rw [← hs]
      exact Or.inr rfl

variable (δ) (output) in
/-- The bodies of the three `with` statements. -/
theorem writes_reports (analysis : Analysis ε) (strings : List CarvedString) :
    (Writes δ output .summary (reportPieces analysis strings .summary) do
      write .summary (.summaryJson analysis)
      write .summary .newline) ∧
    Writes δ output .arrays (reportPieces analysis strings .arrays) (Prog.forEach (fun node => do
      write .arrays (.arrayJson node)
      write .arrays .newline) analysis.arrays) ∧
    (Writes δ output .strings (reportPieces analysis strings .strings) do
      write .strings (.csvHeader CSV_FIELDNAMES)
      Prog.forEach (fun item => write .strings (.csvRow item)) strings) := by
  refine ⟨(writes_write _ _).bind (writes_write _ _),
    Writes.forEach (fun node => (writes_write _ _).bind (writes_write _ _)) _, ?_⟩
  have hrows : Writes δ output .strings (strings.flatMap fun item => [(Piece.csvRow item : Piece ε)])
      (Prog.forEach (fun item => write .strings (.csvRow item)) strings) :=
    Writes.forEach (fun item => writes_write .strings (.csvRow item)) strings
  rw [← List.map_eq_flatMap] at hrows
  exact (writes_write _ _).bind hrows

/-- The first `n` reports are complete, the others absent. -/
def written (analysis : Analysis ε) (strings : List CarvedString) (n : Nat) : Reports ε := fun report =>
  if report.rank < n then some (.complete (reportPieces analysis strings report)) else none

theorem written_put (analysis : Analysis ε) (strings : List CarvedString) (report : Report) :
    (written analysis strings report.rank).put report (.complete (reportPieces analysis strings report)) =
      written analysis strings (report.rank + 1) := by
  funext r
  cases report <;> cases r <;> rfl

theorem interruptedAt_written (analysis : Analysis ε) (strings : List CarvedString) (failed : Report) :
    InterruptedAt analysis strings failed (written analysis strings failed.rank) ∧
    InterruptedAt analysis strings failed ((written analysis strings failed.rank).put failed .broken) := by
  have hbefore : ∀ report : Report, report.rank < failed.rank → report ≠ failed := by
    rintro report hlt rfl
    exact Nat.lt_irrefl _ hlt
  have hbehind : ∀ report : Report, failed.rank < report.rank → report ≠ failed := by
    rintro report hlt rfl
    exact Nat.lt_irrefl _ hlt
  refine ⟨⟨fun r h => if_pos h, Or.inl (if_neg (Nat.lt_irrefl _)), fun r h => if_neg (by omega)⟩, ?_⟩
  refine ⟨fun r h => ?_, Or.inr (put_self _ _ _), fun r h => ?_⟩
  · rw [put_of_ne _ _ (hbefore r h)]
    exact if_pos h
  · rw [put_of_ne _ _ (hbehind r h)]
    exact if_neg (by omega)

/-- One `with` statement of `carve_realm`. -/
theorem withReport_stage {analysis : Analysis ε} {strings : List CarvedString} {report : Report}
    {body : Action ε Unit} (h : Writes δ output report (reportPieces analysis strings report) body) :
    wp (outputSem δ output) (withReport output report body)
      (fun _ t => t = .directory (written analysis strings (report.rank + 1)))
      (fun _ t => ∃ reports failed, t = .directory reports ∧
        InterruptedAt analysis strings failed reports)
      (.directory (written analysis strings report.rank)) := by
  obtain ⟨habsent, hbroken⟩ := interruptedAt_written analysis strings report
  refine wp_mono (withReport_spec h _) ?_ ?_
  · rintro _ _ rfl
    rw [written_put]
  · rintro _ _ (rfl | rfl)
    · exact ⟨_, report, rfl, habsent⟩
    · exact ⟨_, report, rfl, hbroken⟩

/-- **The reports are written in order**, up to the first one that fails. -/
theorem writeReports_spec (analysis : Analysis ε) (strings : List CarvedString) :
    wp (outputSem δ output) (writeReports output analysis strings)
      (fun _ t => ∃ reports, t = .directory reports ∧ CompleteSet analysis strings reports)
      (fun _ t => ∃ reports failed, t = .directory reports ∧
        InterruptedAt analysis strings failed reports)
      (.directory fun _ => none) := by
  obtain ⟨h1, h2, h3⟩ := writes_reports δ output analysis strings
  have hnone : (fun _ => none : Reports ε) = written analysis strings Report.summary.rank := by
    funext r
    exact (if_neg (Nat.not_lt_zero _)).symm
  rw [writeReports, wp_bind, hnone]
  refine wp_mono (withReport_stage h1) ?_ (fun _ _ h => h)
  rintro _ _ rfl
  rw [wp_bind]
  refine wp_mono (withReport_stage h2) ?_ (fun _ _ h => h)
  rintro _ _ rfl
  refine wp_mono (withReport_stage h3) ?_ (fun _ _ h => h)
  rintro _ _ rfl
  refine ⟨_, rfl, fun report => ?_⟩
  cases report <;> rfl

/-! ## `carve_realm` -/

/-- The analysis leaves the output path alone. -/
theorem analyze_keeps (m : Measures ε) (isprintable : Char → Bool) (hexdigest : Bytes → String)
    (fuel : Nat) (path : String) (minimumString : Option Nat) (s : OutputState δ ε) :
    wp (outputSem δ output) (analyze m isprintable hexdigest fuel path minimumString)
      (fun _ t => t = s) (fun _ t => t = s) s := by
  refine wp_of_only ?_ (analyze_only m isprintable hexdigest fuel path minimumString) rfl
  rintro s₁ c answer t hc ht rfl
  cases answer <;> cases c <;> first | exact hc.elim | exact ht

end

section
variable {δ ε : Type} (m : Measures ε) (isprintable : Char → Bool) (hexdigest : Bytes → String)
  (fuel : Nat) (path output : String) (minimumString : Nat)

/-- What is at the output path when a call of `carve_realm` that found `s` there has ended. -/
def CarveLeaves (s final : OutputState δ ε) : Except Exc (Analysis ε) → Prop
  | .ok analysis => s = .absent ∧ ∃ strings reports,
    Runs (outputSem δ output) s (analyze m isprintable hexdigest fuel path (some minimumString)) s
      (.ok (analysis, strings)) ∧
    final = .directory reports ∧ CompleteSet analysis strings reports
  | .error _ => final = s ∨ (s = .absent ∧ ∃ analysis strings reports failed,
    Runs (outputSem δ output) s (analyze m isprintable hexdigest fuel path (some minimumString)) s
      (.ok (analysis, strings)) ∧
    final = .directory reports ∧ InterruptedAt analysis strings failed reports)

/-- **A call that returns leaves a complete result set, one that raises none**:
the path is as it was, or holds the reports up to the one that failed. -/
theorem carve_result_set (s final : OutputState δ ε) (result : Except Exc (Analysis ε))
    (hrun : Runs (outputSem δ output) s
      (carveRealm m isprintable hexdigest fuel path output minimumString) final result) :
    CarveLeaves m isprintable hexdigest fuel path output minimumString s final result := by
  have hwp : wp (outputSem δ output)
      (carveRealm m isprintable hexdigest fuel path output minimumString)
      (fun a t => CarveLeaves m isprintable hexdigest fuel path output minimumString s t (.ok a))
      (fun e t => CarveLeaves m isprintable hexdigest fuel path output minimumString s t (.error e))
      s := by
    unfold carveRealm
    split
    · exact Or.inl rfl
    · rw [wp_bind, ask, wp_perform]
      constructor
      · rintro found t ⟨rfl, hfound⟩
        cases found with
        | true => exact Or.inl rfl
        | false =>
          rw [if_neg Bool.false_ne_true, wp_bind]
          refine wp_mono (wp_runs (analyze_keeps m isprintable hexdigest fuel path _ t)) ?_ ?_
          · rintro ⟨analysis, strings⟩ _ ⟨hran, rfl⟩
            rw [wp_bind, ask, wp_perform]
            constructor
            · intro _ t' ht
              simp only [outputSem, if_true] at ht
              obtain ⟨hs, rfl⟩ := ht
              rw [wp_bind]
              refine wp_mono (writeReports_spec analysis strings) ?_ ?_
              · rintro _ _ ⟨reports, rfl, hc⟩
                exact ⟨hs, strings, reports, hran, rfl, hc⟩
              · rintro e _ ⟨reports, failed, rfl, hi⟩
                exact Or.inr ⟨hs, analysis, strings, reports, failed, hran, rfl, hi⟩
            · exact fun e t' ht => Or.inl ht
          · exact fun e t' ht => Or.inl ht.2
      · exact fun e t ht => Or.inl ht
  exact hrun.of_wp hwp

end

/-- The source is empty, and `arrays.jsonl` cannot be opened. -/
theorem interrupted_run : ∃ reports, Runs (outputSem Unit "out") .absent
      (carveRealm ⟨(), fun _ => (), fun _ => false⟩ Char.isAlpha (fun _ => "") 1 "a.realm" "out" 4)
      (.directory reports) (.error .osError) ∧
    reports .summary = some (.complete
      [.summaryJson (emptyAnalysis ⟨(), fun _ => (), fun _ => false⟩ "/a.realm" ""), .newline]) ∧
    reports .arrays = none ∧ reports .strings = none := by
  apply Exists.intro
  constructor
  · apply Runs.call (.ok false) ⟨rfl, by simp⟩
    apply Runs.call (.ok "a.realm") rfl
    apply Runs.call (.ok "/a.realm") rfl
    apply Runs.call (.ok ()) rfl
    apply Runs.call (.ok []) rfl
    apply Runs.call (.ok ()) rfl
    apply Runs.call (.ok 0) rfl
    apply Runs.call (.ok ()) rfl
    apply Runs.call (.ok ()) ⟨rfl, rfl⟩
    apply Runs.call (.ok ()) ⟨_, rfl, rfl⟩
    apply Runs.call (.ok ()) ⟨_, _, rfl, rfl, rfl⟩
    apply Runs.call (.ok ()) ⟨_, _, rfl, rfl, rfl⟩
    apply Runs.call (.ok ()) ⟨_, rfl, Or.inl ⟨_, rfl, rfl⟩⟩
    apply Runs.call (.error .osError) (Or.inl rfl)
    apply Runs.done
  · exact ⟨rfl, rfl, rfl⟩

/-- `carve_realm` raises, and the directory it made stays: with a summary that
looks complete, and nothing else in it. -/
theorem carve_leaves_partial_set : ∃ final : OutputState Unit Unit,
    Runs (outputSem Unit "out") .absent
      (carveRealm ⟨(), fun _ => (), fun _ => false⟩ Char.isAlpha (fun _ => "") 1 "a.realm" "out" 4)
      final (.error .osError) ∧
    final ≠ .absent ∧ ∃ reports pieces, final = .directory reports ∧
      reports .summary = some (.complete pieces) ∧ reports .arrays = none ∧ reports .strings = none := by
  obtain ⟨reports, hrun, hfiles⟩ := interrupted_run
  exact ⟨_, hrun, by rintro ⟨⟩, reports, _, rfl, hfiles⟩

theorem carve_result_set_interrupted : ∃ reports, Runs (outputSem Unit "out") .absent
      (carveRealm ⟨(), fun _ => (), fun _ => false⟩ Char.isAlpha (fun _ => "") 1 "a.realm" "out" 4)
      (.directory reports) (.error .osError) ∧
    CarveLeaves ⟨(), fun _ => (), fun _ => false⟩ Char.isAlpha (fun _ => "") 1 "a.realm" "out" 4
      (.absent : OutputState Unit Unit) (.directory reports) (.error .osError) := by
  obtain ⟨reports, hrun, -⟩ := interrupted_run
  exact ⟨reports, hrun, carve_result_set _ _ _ _ _ _ _ _ _ _ hrun⟩

end Pyrealm
