import Pyrealm.Forensics.Evidence
import Pyrealm.Forensics.Reports
import Pyrealm.Forensics.Cli

/-!
# From the bytes of the source to the bytes of the reports

`main` on a source file that nobody changes meanwhile: what a run that does not
fail leaves in the output directory and on standard output.

* `carve_files_read_back`: after `carve`, the three files read back to the
  analysis of the bytes of the source, and its digest is theirs.
* `inspect_agrees_with_carve`: `inspect` has the status of `carve`, and
  `inspect --json` prints what `carve` writes into `summary.json`.
-/

namespace Pyrealm

open Py Effects

/-! ## The system -/

section
variable {δ ε : Type}

/-- The effect of a call on standard output; a line that fails may be lost. -/
def printCall (s : List (Line ε)) : (c : Command ε) → Except Exc (Answer c) → List (Line ε) → Prop
  | .print line, .ok _, t => t = s ++ [line]
  | .print line, .error _, t => t = s ∨ t = s ++ [line]
  | _, _, t => t = s

/-- The source, the output path and standard output. -/
abbrev System (δ ε : Type) := SourceFile × OutputState δ ε × List (Line ε)

def systemSem (δ : Type) {ε : Type} (output : String) :
    System δ ε → (c : Command ε) → Except Exc (Answer c) → System δ ε → Prop :=
  both sourceCall (both (outputSem δ output) printCall)

/-! ## The source -/

/-- The loop stands at the end of what it has hashed of a file with these bytes. -/
structure HashingOf (content : Bytes) (s : SourceFile) (hashed : Bytes) : Prop where
  unchanged : s.content = content
  position : s.position = hashed.length
  bytes : hashed <+: content

theorem HashingOf.read {content : Bytes} {s t : SourceFile} {hashed chunk : Bytes}
    (h : HashingOf content s hashed)
    (ht : sourceCall (ε := ε) s (.readSource CHUNK_SIZE) (.ok chunk) t) :
    HashingOf content t (hashed ++ chunk) ∧ (chunk = [] → hashed = content) := by
  obtain ⟨hchunk, rfl⟩ := ht
  obtain ⟨rest, hrest⟩ := h.bytes
  rw [h.unchanged, h.position, ← hrest, List.drop_left] at hchunk
  refine ⟨⟨h.unchanged, by rw [List.length_append, ← h.position], ?_⟩, fun hnil => ?_⟩
  · rw [hchunk, ← hrest, List.prefix_append_right_inj]
    exact List.take_prefix _ _
  · rw [hnil, eq_comm, List.take_eq_nil_iff] at hchunk
    rw [← hrest, hchunk.resolve_left (by decide), List.append_nil]

/-- The loop ends with all bytes of the file. -/
theorem hashLoop_whole (content : Bytes) : ∀ (fuel : Nat) (s : SourceFile) (hashed : Bytes),
    HashingOf content s hashed →
    wp (sourceCall (ε := ε)) (hashLoop fuel hashed) (fun bytes t => bytes = content ∧ t.content = content)
      (fun _ _ => True) s := by
  intro fuel
  induction fuel with
  | zero => exact fun s hashed _ => trivial
  | succ fuel ih =>
    intro s hashed h
    rw [hashLoop]
    refine wp_perform_bind fun chunk t ht => ?_
    obtain ⟨hnext, hend⟩ := h.read ht
    split
    · next hnil => exact ⟨hend hnil, hnext.unchanged⟩
    · exact ih t _ hnext

variable (m : Measures ε) (isprintable : Char → Bool) (hexdigest : Bytes → String)

/-- What `_analyze` makes of a file with these bytes. -/
def AnalysisOf (content : Bytes) (minimumString : Option Nat) (resolved : String) (analysis : Analysis ε)
    (strings : List CarvedString) : Prop :=
  if content = [] then analysis = emptyAnalysis m resolved (hexdigest content) ∧ strings = []
  else analyzeMapping m isprintable resolved (hexdigest content) content minimumString =
    .ok (analysis, strings)

theorem analyzeOpen_whole (fuel : Nat) (resolved : String) (minimumString : Option Nat) {content : Bytes}
    {s : SourceFile} (hs : HashingOf content s []) :
    wp (sourceCall (ε := ε)) (analyzeOpen m isprintable hexdigest fuel resolved minimumString)
      (fun r _ => AnalysisOf m isprintable hexdigest content minimumString resolved r.1 r.2)
      (fun _ _ => True) s := by
  rw [analyzeOpen, wp_bind, sha256, wp_bind]
  refine wp_mono (hashLoop_whole content fuel s [] hs) ?_ (fun _ _ h => h)
  rintro _ t ⟨rfl, hcontent⟩
  refine wp_perform_bind ?_
  rintro _ _ rfl
  show wp _ (ask (.statSize resolved) >>= _) _ _ _
  refine wp_perform_bind ?_
  rintro size _ ⟨hsize, rfl⟩
  have hlen : size = t.content.length := hsize
  rw [hcontent] at hlen
  split
  · next hzero =>
    have hnil := List.length_eq_zero_iff.mp (hlen.symm.trans hzero)
    simp only [wp_pure, AnalysisOf, hnil, if_true]
    exact ⟨trivial, trivial⟩
  · next hsome =>
    refine wp_perform_bind ?_
    rintro data _ ⟨hdata, hne, rfl⟩
    have hdata' : data = t.content := hdata
    rw [hcontent] at hdata'
    subst hdata'
    cases hrun : analyzeMapping m isprintable resolved (hexdigest data) data minimumString with
    | error e => exact trivial
    | ok r =>
      show AnalysisOf m isprintable hexdigest data minimumString resolved r.1 r.2
      rw [AnalysisOf, if_neg hne, hrun]

theorem analyze_whole (fuel : Nat) (path : String) (minimumString : Option Nat) (content : Bytes) :
    wp (sourceCall (ε := ε)) (analyze m isprintable hexdigest fuel path minimumString)
      (fun r _ => ∃ resolved, AnalysisOf m isprintable hexdigest content minimumString resolved r.1 r.2)
      (fun _ _ => True) (startFile content) := by
  rw [analyze]
  refine wp_perform_bind ?_
  rintro expanded _ rfl
  refine wp_perform_bind ?_
  rintro resolved _ rfl
  refine wp_perform_bind ?_
  rintro _ _ rfl
  rw [wp_ensuring]
  refine wp_mono (analyzeOpen_whole m isprintable hexdigest fuel resolved minimumString
    ⟨rfl, rfl, List.nil_prefix⟩) ?_ ?_
  · intro r t h
    rw [wp_perform]
    exact ⟨fun _ _ _ => ⟨resolved, h⟩, fun _ _ _ => trivial⟩
  · intro e t _
    rw [wp_perform]
    exact ⟨fun _ _ _ => trivial, fun _ _ _ => trivial⟩

/-- The analysis prints nothing. -/
theorem analyze_silent (fuel : Nat) (path : String) (minimumString : Option Nat) (printed : List (Line ε)) :
    wp printCall (analyze m isprintable hexdigest fuel path minimumString)
      (fun _ t => t = printed) (fun _ t => t = printed) printed := by
  refine wp_of_only ?_ (analyze_only m isprintable hexdigest fuel path minimumString) rfl
  rintro s₁ c answer t hc ht rfl
  cases answer <;> cases c <;> first | exact hc.elim | exact ht

theorem writeReports_silent (output : String) (analysis : Analysis ε) (strings : List CarvedString)
    (printed : List (Line ε)) : wp printCall (writeReports output analysis strings)
      (fun _ t => t = printed) (fun _ t => t = printed) printed := by
  refine wp_of_only ?_ (writeReports_only output analysis strings) rfl
  rintro s₁ c answer t hc ht rfl
  cases answer <;> cases c <;> first | exact hc.elim | exact ht

/-! ## `carve` -/

/-- A complete result set for what the analysis makes of these bytes. -/
def Delivered (content : Bytes) (minimumString : Nat) (analysis : Analysis ε) (s : OutputState δ ε) : Prop :=
  ∃ resolved strings reports,
    AnalysisOf m isprintable hexdigest content (some minimumString) resolved analysis strings ∧
    s = .directory reports ∧ CompleteSet analysis strings reports

theorem analyze_system (output : String) (fuel : Nat) (path : String) (minimumString : Option Nat)
    (content : Bytes) (s : OutputState δ ε) (printed : List (Line ε)) :
    wp (systemSem δ output) (analyze m isprintable hexdigest fuel path minimumString)
      (fun r t => (∃ resolved,
        AnalysisOf m isprintable hexdigest content minimumString resolved r.1 r.2) ∧
        t.2.1 = s ∧ t.2.2 = printed)
      (fun _ _ => True) (startFile content, s, printed) :=
  wp_mono (wp_both (analyze_whole m isprintable hexdigest fuel path minimumString content)
    (wp_both (analyze_keeps m isprintable hexdigest fuel path minimumString s)
      (analyze_silent m isprintable hexdigest fuel path minimumString printed)))
    (fun _ _ h => h) (fun _ _ _ => trivial)

theorem carveRealm_delivers (output : String) (fuel : Nat) (path : String) (minimumString : Nat)
    (content : Bytes) (s : OutputState δ ε) (printed : List (Line ε)) :
    wp (systemSem δ output) (carveRealm m isprintable hexdigest fuel path output minimumString)
      (fun analysis t => Delivered m isprintable hexdigest content minimumString analysis t.2.1 ∧
        t.2.2 = printed)
      (fun _ _ => True) (startFile content, s, printed) := by
  unfold carveRealm
  split
  · exact trivial
  · refine wp_perform_bind ?_
    rintro found ⟨source, there, lines⟩ ⟨hsource, ⟨hthere, -⟩, hlines⟩
    obtain rfl : source = startFile content := hsource
    obtain rfl : there = s := hthere
    obtain rfl : lines = printed := hlines
    cases found with
    | true => exact trivial
    | false =>
      rw [if_neg Bool.false_ne_true, wp_bind]
      refine wp_mono (analyze_system m isprintable hexdigest output fuel path (some minimumString) content
        _ _) ?_ (fun _ _ h => h)
      rintro ⟨analysis, strings⟩ ⟨_, _, _⟩ ⟨⟨resolved, hof⟩, rfl, rfl⟩
      refine wp_perform_bind ?_
      rintro _ ⟨_, made, lines⟩ ⟨-, hmade, hlines⟩
      simp only [outputSem, if_true] at hmade
      obtain ⟨-, rfl⟩ := hmade
      obtain rfl : lines = _ := hlines
      rw [wp_bind]
      refine wp_mono (wp_right (wp_both (writeReports_spec analysis strings)
        (writeReports_silent output analysis strings _))) ?_ (fun _ _ _ => trivial)
      rintro _ t ⟨⟨reports, hdir, hset⟩, hprinted⟩
      exact ⟨⟨resolved, strings, reports, hof, hdir, hset⟩, hprinted⟩

/-! ## `main` -/

/-- A run with another status has not met the handler. -/
theorem handleError_status {σ : Type} {sem : σ → (c : Command ε) → Except Exc (Answer c) → σ → Prop}
    (e : Exc) (s : σ) :
    wp sem (handleError e) (fun status _ => status = EXIT_OPERATIONAL_ERROR) (fun _ _ => True) s := by
  unfold handleError
  split
  · refine wp_perform_bind fun _ _ _ => ?_
    rw [wp_bind]
    unfold printSuggestion
    split
    · exact wp_mono (wp_true _ _) (fun _ _ _ => rfl) (fun _ _ _ => trivial)
    · exact rfl
  · exact trivial

/-- The status of a run that has not failed, by the header of its analysis. -/
theorem main_status {σ : Type} {sem : σ → (c : Command ε) → Except Exc (Answer c) → σ → Prop}
    {fuel : Nat} {args : Arguments} {post : Analysis ε → σ → Prop} {s : σ}
    (h : wp sem (mainBody m isprintable hexdigest fuel args) post (fun _ _ => True) s) :
    wp sem (main m isprintable hexdigest fuel args)
      (fun status t => status ≠ EXIT_OPERATIONAL_ERROR → ∃ analysis, post analysis t ∧
        status = if analysis.header.isSome then EXIT_RECOGNIZED else EXIT_NO_HEADER)
      (fun _ _ => True) s := by
  rw [main, wp_tryCatch, wp_bind]
  refine wp_mono h ?_ ?_
  · exact fun analysis t ht _ => ⟨analysis, ht, rfl⟩
  · intro e t _
    refine wp_mono (handleError_status e t) ?_ (fun _ _ h => h)
    exact fun status t ht hne => absurd ht hne

/-- What the three files read back to. -/
structure ReadBack (format : FloatFormat ε) (linesep : Linesep) (reports : Reports ε)
    (analysis : Analysis ε) (strings : List CarvedString) : Prop where
  summary : ∃ pieces, reports .summary = some (.complete pieces) ∧
    readSummary format (reportBytes format linesep .summary pieces) = some analysis
  arrays : ∃ pieces, reports .arrays = some (.complete pieces) ∧
    readArrays format (reportBytes format linesep .arrays pieces) = some analysis.arrays
  strings : ∃ pieces, reports .strings = some (.complete pieces) ∧
    ∀ limit, readStrings limit (reportBytes format linesep .strings pieces) = some strings ↔
      ReadableWith strings limit

theorem CompleteSet.readBack {analysis : Analysis ε} {strings : List CarvedString} {reports : Reports ε}
    (h : CompleteSet analysis strings reports) (format : FloatFormat ε) (linesep : Linesep) :
    ReadBack format linesep reports analysis strings where
  summary := ⟨_, h .summary, readSummary_reportBytes format linesep analysis strings⟩
  arrays := ⟨_, h .arrays, readArrays_reportBytes format linesep analysis strings⟩
  strings := ⟨_, h .strings, readStrings_reportBytes format linesep analysis strings⟩

/-- Behind the reports, `main` only prints and resolves the output path. -/
theorem mainBody_carve (output : String) (fuel : Nat) (realm : String) (minString : Nat)
    (positive : 1 ≤ minString) (content : Bytes) (s : OutputState δ ε) :
    wp (systemSem δ output) (mainBody m isprintable hexdigest fuel (.carve realm output minString positive))
      (fun analysis t => Delivered m isprintable hexdigest content minString analysis t.2.1 ∧
        ∃ resolved, t.2.2 = [.humanSummary analysis, .results resolved])
      (fun _ _ => True) (startFile content, s, []) := by
  rw [mainBody, wp_bind]
  refine wp_mono (carveRealm_delivers m isprintable hexdigest output fuel realm minString content s [])
    ?_ (fun _ _ h => h)
  rintro analysis t ⟨hdelivered, hprinted⟩
  refine wp_perform_bind ?_
  rintro _ t₁ ⟨-, h₁, h₁'⟩
  refine wp_perform_bind ?_
  rintro resolved t₂ ⟨-, h₂, h₂'⟩
  refine wp_perform_bind ?_
  rintro _ t₃ ⟨-, h₃, h₃'⟩
  have hsame : t₃.2.1 = t.2.1 := h₃.trans (h₂.trans h₁)
  have hlines : t₃.2.2 = t₂.2.2 ++ [.results resolved] := h₃'
  have hlines₂ : t₂.2.2 = t₁.2.2 := h₂'
  have hlines₁ : t₁.2.2 = t.2.2 ++ [.humanSummary analysis] := h₁'
  rw [wp_pure, hsame]
  exact ⟨hdelivered, resolved, by rw [hlines, hlines₂, hlines₁, hprinted]; rfl⟩

/-- **After a `carve` that does not fail the three files read back** to the
analysis of the bytes of the source; the status tells whether there is a header. -/
theorem carve_files_read_back (format : FloatFormat ε) (linesep : Linesep) (output : String) (fuel : Nat)
    (realm : String) (minString : Nat) (positive : 1 ≤ minString) (content : Bytes) (s : OutputState δ ε)
    {final : System δ ε} {status : Nat}
    (hrun : Runs (systemSem δ output) (startFile content, s, [])
      (main m isprintable hexdigest fuel (.carve realm output minString positive)) final (.ok status))
    (hstatus : status ≠ EXIT_OPERATIONAL_ERROR) :
    ∃ resolved analysis strings reports,
      AnalysisOf m isprintable hexdigest content (some minString) resolved analysis strings ∧
      final.2.1 = .directory reports ∧ ReadBack format linesep reports analysis strings ∧
      status = if analysis.header.isSome then EXIT_RECOGNIZED else EXIT_NO_HEADER := by
  have hmain := main_status m isprintable hexdigest
    (mainBody_carve m isprintable hexdigest output fuel realm minString positive content s)
  obtain ⟨analysis, ⟨⟨resolved, strings, reports, hof, hdir, hset⟩, -⟩, hheader⟩ :=
    (wp_iff_runs _ _ _ _ _).mp hmain final _ hrun hstatus
  exact ⟨resolved, analysis, strings, reports, hof, hdir, hset.readBack format linesep, hheader⟩

/-! ## Runs without failures -/

/-- A write of a report can be answered. -/
def CanWrite (δ : Type) (output : String) (report : Report) (pieces : List (Piece ε))
    (body : Action ε Unit) : Prop :=
  ∀ (reports : Reports ε) (written : List (Piece ε)), Runs (outputSem δ output)
    (.directory (reports.put report (.writing written))) body
    (.directory (reports.put report (.writing (written ++ pieces)))) (.ok ())

theorem canWrite_write (output : String) (report : Report) (piece : Piece ε) :
    CanWrite δ output report [piece] (write report piece) := by
  intro reports written
  refine .call (.ok ()) ⟨_, written, rfl, put_self _ _ _, ?_⟩ (.done _ _)
  rw [put_put]

theorem CanWrite.bind {output : String} {report : Report} {pieces pieces' : List (Piece ε)}
    {p q : Action ε Unit} (hp : CanWrite δ output report pieces p) (hq : CanWrite δ output report pieces' q) :
    CanWrite δ output report (pieces ++ pieces') (p >>= fun _ => q) := by
  intro reports written
  rw [← List.append_assoc]
  exact (hp reports written).bind (hq reports (written ++ pieces))

theorem CanWrite.forEach {α : Type} {output : String} {report : Report} {f : α → List (Piece ε)}
    {body : α → Action ε Unit} (h : ∀ a, CanWrite δ output report (f a) (body a)) (xs : List α) :
    CanWrite δ output report (xs.flatMap f) (Prog.forEach body xs) := by
  induction xs with
  | nil =>
    intro reports written
    rw [List.flatMap_nil, List.append_nil]
    exact .done _ _
  | cons x xs ih =>
    rw [List.flatMap_cons]
    exact (h x).bind ih

theorem CanWrite.withReport {output : String} {report : Report} {pieces : List (Piece ε)}
    {body : Action ε Unit} (h : CanWrite δ output report pieces body) (reports : Reports ε) :
    Runs (outputSem δ output) (.directory reports) (withReport output report body)
      (.directory (reports.put report (.complete pieces))) (.ok ()) := by
  have hopen : outputSem δ output (.directory reports) (.openReport output report) (.ok ())
      (.directory (reports.put report (.writing []))) := by
    simp only [outputSem, if_true]
    exact ⟨reports, rfl, rfl⟩
  have hclose : outputSem δ output (.directory (reports.put report (.writing ([] ++ pieces))))
      (.closeReport report) (.ok ()) (.directory (reports.put report (.complete pieces))) :=
    ⟨_, rfl, Or.inl ⟨pieces, put_self _ _ _, by rw [put_put]⟩⟩
  exact .call (.ok ()) hopen ((h reports []).ensuring hclose)

/-- The reports of an analysis can be written. -/
theorem writeReports_runs (output : String) (analysis : Analysis ε) (strings : List CarvedString) :
    ∃ reports, Runs (outputSem δ output) (.directory fun _ => none)
      (writeReports output analysis strings) (.directory reports) (.ok ()) := by
  have hrows : CanWrite δ output .strings (strings.flatMap fun item => [(Piece.csvRow item : Piece ε)])
      (Prog.forEach (fun item => write .strings (.csvRow item)) strings) :=
    CanWrite.forEach (fun item => canWrite_write output .strings (.csvRow item)) strings
  have hsummary : CanWrite δ output .summary [.summaryJson analysis, .newline] (do
      write .summary (.summaryJson analysis)
      write .summary .newline) := (canWrite_write output _ _).bind (canWrite_write output _ _)
  have harrays : CanWrite (ε := ε) δ output .arrays
      (analysis.arrays.flatMap fun node => [.arrayJson node, .newline])
      (Prog.forEach (fun node => do
        write .arrays (.arrayJson node)
        write .arrays .newline) analysis.arrays) :=
    CanWrite.forEach (fun _ => (canWrite_write output _ _).bind (canWrite_write output _ _)) _
  have hstrings := (canWrite_write output .strings (.csvHeader CSV_FIELDNAMES)).bind hrows
  exact ⟨_, (hsummary.withReport _).bind ((harrays.withReport _).bind (hstrings.withReport _))⟩

/-- The hashing loop reads the file to its end. -/
theorem hashLoop_runs (content : Bytes) : ∀ (fuel : Nat) (s : SourceFile) (hashed : Bytes),
    HashingOf content s hashed → content.length - hashed.length < fuel → s.mapped = none →
    ∃ t, Runs (sourceCall (ε := ε)) s (hashLoop fuel hashed) t (.ok content) ∧ t.content = content := by
  intro fuel
  induction fuel with
  | zero => exact fun s hashed _ hf => absurd hf (Nat.not_lt_zero _)
  | succ fuel ih =>
    intro s hashed h hf hm
    obtain ⟨chunk, hchunk⟩ : ∃ chunk, chunk = (s.content.drop s.position).take CHUNK_SIZE := ⟨_, rfl⟩
    obtain ⟨t, ht⟩ : ∃ t, sourceCall (ε := ε) s (.readSource CHUNK_SIZE) (.ok chunk) t := ⟨_, hchunk, rfl⟩
    obtain ⟨hnext, hend⟩ := h.read ht
    by_cases hnil : chunk = []
    · refine ⟨t, .call (.ok chunk) ht ?_, hnext.unchanged⟩
      show Runs _ _ (if chunk = [] then pure hashed else hashLoop fuel (hashed ++ chunk)) _ _
      rw [if_pos hnil, hend hnil]
      exact .done _ _
    · have hlen : 0 < chunk.length := List.length_pos_iff.mpr hnil
      have hle := hnext.bytes.length_le
      rw [List.length_append] at hle
      obtain ⟨u, hu, hcontent⟩ := ih t (hashed ++ chunk) hnext
        (by rw [List.length_append]; omega) (by rw [ht.2]; exact hm)
      refine ⟨u, .call (.ok chunk) ht ?_, hcontent⟩
      show Runs _ _ (if chunk = [] then pure hashed else hashLoop fuel (hashed ++ chunk)) _ _
      rw [if_neg hnil]
      exact hu

/-- A file can be analysed, where the analysis returns. -/
theorem analyze_runs {content : Bytes} {fuel : Nat} (hf : content.length < fuel) (path : String)
    {minimumString : Option Nat} {resolved : String} {analysis : Analysis ε} {strings : List CarvedString}
    (h : AnalysisOf m isprintable hexdigest content minimumString resolved analysis strings) :
    ∃ t, Runs (sourceCall (ε := ε)) (startFile content)
      (analyze m isprintable hexdigest fuel path minimumString) t (.ok (analysis, strings)) := by
  obtain ⟨t, hloop, hcontent⟩ := hashLoop_runs (ε := ε) content fuel (startFile content) []
    ⟨rfl, rfl, List.nil_prefix⟩ (by simpa using hf) rfl
  have hsha : Runs (sourceCall (ε := ε)) (startFile content) (sha256 hexdigest fuel) { t with position := 0 }
      (.ok (hexdigest content)) := hloop.bind (.call (.ok ()) rfl (.done _ _))
  have hopen : ∃ u, Runs (sourceCall (ε := ε)) (startFile content)
      (analyzeOpen m isprintable hexdigest fuel resolved minimumString) u (.ok (analysis, strings)) := by
    unfold AnalysisOf at h
    by_cases hnil : content = []
    · rw [if_pos hnil] at h
      refine ⟨{ t with position := 0 }, hsha.bind (.call (.ok content.length) ⟨by rw [← hcontent], rfl⟩ ?_)⟩
      show Runs _ _ (if content.length = 0 then pure (emptyAnalysis m resolved (hexdigest content), []) else _)
        _ _
      rw [if_pos (by rw [hnil]; rfl), h.1, h.2]
      exact .done _ _
    · rw [if_neg hnil] at h
      refine ⟨{ t with position := 0, mapped := some content },
        hsha.bind (.call (.ok content.length) ⟨by rw [← hcontent], rfl⟩ ?_)⟩
      show Runs _ _ (if content.length = 0 then _ else ask .mapSource >>= fun data =>
        .done (analyzeMapping m isprintable resolved (hexdigest content) data minimumString)) _ _
      rw [if_neg fun h0 => hnil (List.length_eq_zero_iff.mp h0)]
      refine .call (.ok content) ⟨hcontent.symm, hnil, rfl⟩ ?_
      rw [← h]
      exact .done _ _
  obtain ⟨u, hu⟩ := hopen
  refine ⟨u, .call (.ok path) rfl (.call (.ok resolved) rfl (.call (.ok ()) rfl ?_))⟩
  exact hu.ensuring (a := ()) rfl

theorem source_keeps (output : String) (s : OutputState δ ε) (printed : List (Line ε)) (c : Command ε)
    (answer : Except Exc (Answer c)) (hc : OfSource c) :
    both (outputSem δ output) printCall (s, printed) c answer (s, printed) := by
  cases answer <;> cases c <;> first | exact hc.elim | exact ⟨rfl, rfl⟩

/-- `carve` can return, where the analysis does. -/
theorem carveRealm_runs {content : Bytes} {fuel : Nat} (hf : content.length < fuel) (path output : String)
    {minimumString : Nat} (hmin : 1 ≤ minimumString) {resolved : String} {analysis : Analysis ε}
    {strings : List CarvedString}
    (h : AnalysisOf m isprintable hexdigest content (some minimumString) resolved analysis strings) :
    ∃ source reports, Runs (systemSem δ output) (startFile content, .absent, [])
      (carveRealm m isprintable hexdigest fuel path output minimumString)
      (source, .directory reports, []) (.ok analysis) := by
  obtain ⟨source, hrun⟩ := analyze_runs m isprintable hexdigest hf path h
  obtain ⟨reports, hreports⟩ := writeReports_runs (δ := δ) output analysis strings
  refine ⟨source, reports, ?_⟩
  rw [carveRealm, if_neg (by omega)]
  have hanalyze : Runs (systemSem δ output) (startFile content, .absent, [])
      (analyze m isprintable hexdigest fuel path (some minimumString)) (source, .absent, [])
      (.ok (analysis, strings)) :=
    hrun.left (analyze_only m isprintable hexdigest fuel path _) (source_keeps output .absent [])
  have hmkdir : systemSem (ε := ε) δ output (source, .absent, []) (.mkdir output) (.ok ())
      (source, .directory fun _ => none, []) := by
    refine ⟨rfl, ?_, rfl⟩
    simp only [outputSem, if_true]
    exact ⟨trivial, trivial⟩
  have hwrite : Runs (systemSem δ output) (source, .directory fun _ => none, [])
      (writeReports output analysis strings) (source, .directory reports, []) (.ok ()) := by
    have honly := writeReports_only output analysis strings
    refine (hreports.left honly (u := ([] : List (Line ε))) ?_).right honly ?_
    · intro c answer hc
      cases answer <;> cases c <;> first | exact hc.elim | exact rfl
    · intro c answer hc
      cases answer <;> cases c <;> first | exact hc.elim | exact rfl
  refine .call (.ok false) (t := (startFile content, .absent, [])) ⟨rfl, ⟨rfl, by simp⟩, rfl⟩ ?_
  refine hanalyze.bind (.call (.ok ()) hmkdir ?_)
  exact hwrite.bind (.done _ _)

theorem main_carve_runs {content : Bytes} {fuel : Nat} (hf : content.length < fuel) (realm output : String)
    {minString : Nat} (positive : 1 ≤ minString) {resolved : String} {analysis : Analysis ε}
    {strings : List CarvedString}
    (h : AnalysisOf m isprintable hexdigest content (some minString) resolved analysis strings) :
    ∃ final, Runs (systemSem δ output) (startFile content, .absent, [])
      (main m isprintable hexdigest fuel (.carve realm output minString positive)) final
      (.ok (if analysis.header.isSome then EXIT_RECOGNIZED else EXIT_NO_HEADER)) := by
  obtain ⟨source, reports, hrun⟩ := carveRealm_runs (δ := δ) m isprintable hexdigest hf realm output positive h
  have hbody : Runs (systemSem δ output) (startFile content, .absent, [])
      (mainBody m isprintable hexdigest fuel (.carve realm output minString positive))
      (source, .directory reports, [.humanSummary analysis, .results output]) (.ok analysis) := by
    have hsummary : systemSem δ output (source, .directory reports, []) (.print (.humanSummary analysis))
        (.ok ()) (source, .directory reports, [.humanSummary analysis]) := ⟨rfl, rfl, rfl⟩
    have hresolve : systemSem δ output (source, .directory reports, [.humanSummary analysis])
        (.resolve output false) (.ok output) (source, .directory reports, [.humanSummary analysis]) :=
      ⟨rfl, rfl, rfl⟩
    have hresults : systemSem δ output (source, .directory reports, [.humanSummary analysis])
        (.print (.results output)) (.ok ())
        (source, .directory reports, [.humanSummary analysis, .results output]) := ⟨rfl, rfl, rfl⟩
    exact hrun.bind (.call _ hsummary (.call _ hresolve (.call _ hresults (.done _ _))))
  exact ⟨_, (hbody.bind (.done _ _)).tryCatch handleError⟩

theorem main_inspect_runs {content : Bytes} {fuel : Nat} (hf : content.length < fuel) (realm output : String)
    (json : Bool) (s : OutputState δ ε) {resolved : String} {analysis : Analysis ε}
    {strings : List CarvedString}
    (h : AnalysisOf m isprintable hexdigest content none resolved analysis strings) :
    ∃ final, Runs (systemSem δ output) (startFile content, s, [])
      (main m isprintable hexdigest fuel (.inspect realm json)) final
      (.ok (if analysis.header.isSome then EXIT_RECOGNIZED else EXIT_NO_HEADER)) := by
  obtain ⟨source, hrun⟩ := analyze_runs m isprintable hexdigest hf realm h
  have hanalyze : Runs (systemSem δ output) (startFile content, s, [])
      (analyze m isprintable hexdigest fuel realm none) (source, s, []) (.ok (analysis, strings)) :=
    hrun.left (analyze_only m isprintable hexdigest fuel realm _) (source_keeps output s [])
  have hrealm : Runs (systemSem δ output) (startFile content, s, [])
      (analyzeRealm m isprintable hexdigest fuel realm) (source, s, []) (.ok analysis) :=
    hanalyze.bind (.done _ _)
  have hbody : Runs (systemSem δ output) (startFile content, s, [])
      (mainBody m isprintable hexdigest fuel (.inspect realm json))
      (source, s, [if json then .json analysis else .humanSummary analysis]) (.ok analysis) := by
    have hprint : systemSem δ output (source, s, [])
        (.print (if json then .json analysis else .humanSummary analysis)) (.ok ())
        (source, s, [if json then .json analysis else .humanSummary analysis]) := ⟨rfl, rfl, rfl⟩
    exact hrealm.bind (.call _ hprint (.done _ _))
  exact ⟨_, (hbody.bind (.done _ _)).tryCatch handleError⟩

/-! ## `inspect` -/

/-- The analysis of a file does not depend on what is carved. -/
theorem AnalysisOf.unique {content : Bytes} {minimumString minimumString' : Option Nat} {resolved : String}
    {analysis analysis' : Analysis ε} {strings strings' : List CarvedString}
    (h : AnalysisOf m isprintable hexdigest content minimumString resolved analysis strings)
    (h' : AnalysisOf m isprintable hexdigest content minimumString' resolved analysis' strings') :
    analysis = analysis' := by
  unfold AnalysisOf at h h'
  split at h
  · next hnil =>
    rw [if_pos hnil] at h'
    exact h.1.trans h'.1.symm
  · next hne =>
    rw [if_neg hne] at h'
    obtain ⟨header?, hh⟩ := parseHeader_ok content
    cases header? with
    | none =>
      rw [analyzeMapping, hh, ok_bind, Except.ok.injEq, Prod.mk.injEq] at h h'
      exact h.1.symm.trans h'.1
    | some header =>
      exact (analyzeMapping_ok m isprintable resolved _ hh h).1.trans
        (analyzeMapping_ok m isprintable resolved _ hh h').1.symm

theorem AnalysisOf.facts {content : Bytes} {minimumString : Option Nat} {resolved : String}
    {analysis : Analysis ε} {strings : List CarvedString}
    (h : AnalysisOf m isprintable hexdigest content minimumString resolved analysis strings) :
    analysis.path = resolved ∧ parseHeader content = .ok analysis.header := by
  unfold AnalysisOf at h
  split at h
  · next hnil =>
    rw [h.1, hnil]
    exact ⟨rfl, rfl⟩
  · obtain ⟨header?, hh⟩ := parseHeader_ok content
    cases header? with
    | none =>
      rw [analyzeMapping, hh, ok_bind, Except.ok.injEq, Prod.mk.injEq] at h
      rw [← h.1, hh]
      exact ⟨rfl, rfl⟩
    | some header =>
      rw [(analyzeMapping_ok m isprintable resolved _ hh h).1, hh]
      exact ⟨rfl, rfl⟩

theorem mainBody_inspect (output : String) (fuel : Nat) (realm : String) (json : Bool)
    (content : Bytes) (s : OutputState δ ε) :
    wp (systemSem δ output) (mainBody m isprintable hexdigest fuel (.inspect realm json))
      (fun analysis t => (∃ resolved strings,
        AnalysisOf m isprintable hexdigest content none resolved analysis strings) ∧
        t.2.2 = [if json then .json analysis else .humanSummary analysis])
      (fun _ _ => True) (startFile content, s, []) := by
  rw [mainBody, wp_bind, analyzeRealm, wp_bind]
  refine wp_mono (analyze_system m isprintable hexdigest output fuel realm none content s []) ?_
    (fun _ _ h => h)
  rintro ⟨analysis, strings⟩ t ⟨⟨resolved, hof⟩, -, hprinted⟩
  rw [wp_pure]
  refine wp_perform_bind ?_
  rintro _ t₁ ⟨-, -, h₁⟩
  have hlines : t₁.2.2 = t.2.2 ++ [if json then .json analysis else .humanSummary analysis] := h₁
  exact ⟨⟨resolved, strings, hof⟩, by rw [hlines, hprinted]; rfl⟩

/-- The text of `print(json.dumps(analysis_dict(analysis), indent=2))`. -/
def jsonOutput (format : FloatFormat ε) (analysis : Analysis ε) : PyStr :=
  dumps format ⟨some 2⟩ 0 (analysisDict analysis) ++ ['\n']

/-- What an `inspect` and a `carve` of one source agree on. -/
structure Agreed (format : FloatFormat ε) (json : Bool) (inspected carved : System δ ε)
    (status status' : Nat) : Prop where
  status : status = status'
  shown : ∃ shown analysis resolved strings reports,
    inspected.2.2 = [if json then .json shown else .humanSummary shown] ∧
    carved.2.2 = [.humanSummary analysis, .results resolved] ∧
    carved.2.1 = .directory reports ∧ CompleteSet analysis strings reports ∧
    (shown.path = analysis.path → shown = analysis ∧
      jsonOutput format shown = (reportPieces analysis strings .summary).flatMap (Piece.text format))

/-- **`inspect` shows what `carve` reports**: the same status, the same summary,
and with `--json` the text of `summary.json`. -/
theorem inspect_agrees_with_carve (format : FloatFormat ε) (output output' : String) (fuel fuel' : Nat)
    (realm realm' : String) (json : Bool) (minString : Nat) (positive : 1 ≤ minString) (content : Bytes)
    (s s' : OutputState δ ε) {inspected carved : System δ ε} {status status' : Nat}
    (hinspect : Runs (systemSem δ output) (startFile content, s, [])
      (main m isprintable hexdigest fuel (.inspect realm json)) inspected (.ok status))
    (hcarve : Runs (systemSem δ output') (startFile content, s', [])
      (main m isprintable hexdigest fuel' (.carve realm' output' minString positive)) carved (.ok status'))
    (hstatus : status ≠ EXIT_OPERATIONAL_ERROR) (hstatus' : status' ≠ EXIT_OPERATIONAL_ERROR) :
    Agreed format json inspected carved status status' := by
  have hmain := main_status m isprintable hexdigest
    (mainBody_inspect m isprintable hexdigest output fuel realm json content s)
  have hmain' := main_status m isprintable hexdigest
    (mainBody_carve m isprintable hexdigest output' fuel' realm' minString positive content s')
  obtain ⟨shown, ⟨⟨resolved, strings, hof⟩, hlines⟩, hheader⟩ :=
    (wp_iff_runs _ _ _ _ _).mp hmain inspected _ hinspect hstatus
  obtain ⟨analysis, ⟨⟨resolved', strings', reports, hof', hdir, hset⟩, there, hlines'⟩, hheader'⟩ :=
    (wp_iff_runs _ _ _ _ _).mp hmain' carved _ hcarve hstatus'
  obtain ⟨hpath, hparsed⟩ := hof.facts
  obtain ⟨hpath', hparsed'⟩ := hof'.facts
  have hsame : shown.header = analysis.header := by
    rw [hparsed, Except.ok.injEq] at hparsed'
    exact hparsed'
  refine ⟨by rw [hheader, hheader', hsame], shown, analysis, there, strings', reports, hlines, hlines',
    hdir, hset, fun hp => ?_⟩
  have hresolved : resolved = resolved' := hpath.symm.trans (hp.trans hpath')
  subst hresolved
  have hanalysis := hof.unique m isprintable hexdigest hof'
  refine ⟨hanalysis, ?_⟩
  simp [jsonOutput, reportPieces, Piece.text, hanalysis]

end

/-! ## Two runs -/

/-- The number of different bytes, for an estimate that the reports print. -/
def distinctBytes : Measures Nat := ⟨0, fun data => data.dedup.length, fun n => decide (128 ≤ n)⟩

theorem analysisOf_tinyRealm (minimumString : Option Nat)
    (hmin : minimumString = none ∨ minimumString = some 4) :
    ∃ analysis strings, AnalysisOf distinctBytes Char.isAlpha plainDigest tinyRealm
      minimumString "/a.realm" analysis strings ∧ analysis.header = some tinyHeader := by
  have hfits : ¬ CarveOverflows tinyRealm minimumString := by
    rcases hmin with rfl | rfl
    · rintro ⟨_, hnone, -⟩
      cases hnone
    · exact not_carveOverflows tinyRealm (by decide)
  have hrun := (analyzeMapping_eq distinctBytes Char.isAlpha "/a.realm"
    (plainDigest tinyRealm) parseHeader_tinyRealm minimumString).2 hfits
  exact ⟨_, _, (if_neg (by decide +kernel)).mpr hrun, rfl⟩

theorem carve_files_read_back_tiny : ∃ (final : System Unit Nat) (resolved : String)
    (analysis : Analysis Nat) (strings : List CarvedString) (reports : Reports Nat),
      AnalysisOf distinctBytes Char.isAlpha plainDigest tinyRealm (some 4) resolved
        analysis strings ∧
      final.2.1 = .directory reports ∧ ReadBack wholeFormat .lf reports analysis strings ∧
      EXIT_RECOGNIZED = if analysis.header.isSome then EXIT_RECOGNIZED else EXIT_NO_HEADER := by
  have hlen : tinyRealm.length < 65 := by decide +kernel
  obtain ⟨analysis, strings, hof, hheader⟩ := analysisOf_tinyRealm (some 4) (Or.inr rfl)
  obtain ⟨final, hrun⟩ := main_carve_runs (δ := Unit) _ _ _ hlen "a.realm" "out" (by decide) hof
  rw [hheader] at hrun
  exact ⟨final, carve_files_read_back _ _ _ wholeFormat .lf "out" 65 "a.realm" 4 (by decide) tinyRealm
    .absent hrun (by decide)⟩

theorem inspect_agrees_with_carve_tiny : ∃ inspected carved : System Unit Nat,
    Agreed wholeFormat true inspected carved EXIT_RECOGNIZED EXIT_RECOGNIZED := by
  have hlen : tinyRealm.length < 65 := by decide +kernel
  obtain ⟨analysis, strings, hof, hheader⟩ := analysisOf_tinyRealm (some 4) (Or.inr rfl)
  obtain ⟨analysis', strings', hof', hheader'⟩ := analysisOf_tinyRealm none (Or.inl rfl)
  obtain ⟨final, hrun⟩ := main_carve_runs (δ := Unit) _ _ _ hlen "a.realm" "out" (by decide) hof
  obtain ⟨final', hrun'⟩ := main_inspect_runs _ _ _ hlen "a.realm" "out" true
    (.absent : OutputState Unit Nat) hof'
  rw [hheader] at hrun
  rw [hheader'] at hrun'
  exact ⟨final', final, inspect_agrees_with_carve _ _ _ wholeFormat "out" "out" 65 65 "a.realm" "a.realm"
    true 4 (by decide) tinyRealm .absent .absent hrun' hrun (by decide) (by decide)⟩

end Pyrealm
