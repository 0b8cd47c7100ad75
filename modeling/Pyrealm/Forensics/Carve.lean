import Pyrealm.Forensics.Analyze
import Pyrealm.Pool.Effects

/-!
# `_sha256`, `_analyze`, `carve_realm`

The system calls of the analysis and of the report writer, in order.  What is
handed to `json`, `csv` and `print` is kept as data, not rendered.

* `hash_spec`: on a finite file the hashing loop ends.
* `writeReports_steady`: the report writer swallows no exception.
* `analyze_spec`: how every run of `_analyze` ends.
* `analyze_only`, `writeReports_only`: the analysis calls nothing but the source
  file, the report writer nothing but the reports.
-/

namespace Pyrealm

open Py Effects

/-! ## Commands -/

/-- The files of a result set: `summary.json`, `arrays.jsonl`, `strings.csv`. -/
inductive Report where
  | summary
  | arrays
  | strings
deriving DecidableEq, Repr

/-- One write to a report. -/
inductive Piece (ε : Type) where
  /-- `json.dump(analysis_dict(analysis), file, indent=2)` -/
  | summaryJson (analysis : Analysis ε)
  | newline
  /-- `json.dumps(node._asdict(), sort_keys=True)` -/
  | arrayJson (node : ArrayNode)
  | csvHeader (fieldnames : List String)
  | csvRow (item : CarvedString)

/-- One line on standard output. -/
inductive Line (ε : Type) where
  | json (analysis : Analysis ε)
  | humanSummary (analysis : Analysis ε)
  | results (path : String)

/-- One line on standard error. -/
inductive ErrorLine where
  | error (e : Exc)
  | suggestion

inductive Command (ε : Type) where
  | expanduser (path : String)
  | resolve (path : String) (strict : Bool)
  | pathExists (path : String)
  | openSource (path : String)
  | readSource (size : Nat)
  | rewindSource
  | statSize (path : String)
  | mapSource
  | closeSource
  | mkdir (path : String)
  | openReport (output : String) (report : Report)
  | writeReport (report : Report) (piece : Piece ε)
  | closeReport (report : Report)
  | print (line : Line ε)
  | printError (line : ErrorLine)

@[reducible] def Answer {ε : Type} : Command ε → Type
  | .expanduser _ | .resolve _ _ => String
  | .pathExists _ => Bool
  | .statSize _ => Nat
  | .readSource _ | .mapSource => Bytes
  | _ => Unit

abbrev Step (ε : Type) := Event (Command ε) Answer Exc
abbrev Action (ε α : Type) := Prog (Command ε) Answer Exc α

def ask {ε : Type} (c : Command ε) : Action ε (Answer c) := Prog.perform c

/-! ## Algorithm -/

/-- `1024 * 1024` -/
def CHUNK_SIZE : Nat := 1024 * 1024

section
variable {ε : Type}

/-- `for chunk in iter(lambda: file.read(1024 * 1024), b"")`: the bytes hashed. -/
def hashLoop : Nat → Bytes → Action ε Bytes
  | 0, _ => Prog.raise .outOfFuel
  | fuel + 1, hashed => do
    let chunk ← ask (.readSource CHUNK_SIZE)
    if chunk = [] then pure hashed else hashLoop fuel (hashed ++ chunk)

variable (m : Measures ε) (isprintable : Char → Bool) (hexdigest : Bytes → String)

/-- `_sha256`; `hexdigest` is SHA-256 in hexadecimal. -/
def sha256 (fuel : Nat) : Action ε String := do
  let hashed ← hashLoop fuel []
  ask .rewindSource
  pure (hexdigest hashed)

/-- The body of `with resolved.open("rb") as file` in `_analyze`. -/
def analyzeOpen (fuel : Nat) (resolved : String) (minimumString : Option Nat) :
    Action ε (Analysis ε × List CarvedString) := do
  let digest ← sha256 hexdigest fuel
  let size ← ask (.statSize resolved)
  if size = 0 then pure (emptyAnalysis m resolved digest, [])
  else do
    let data ← ask .mapSource
    .done (analyzeMapping m isprintable resolved digest data minimumString)

/-- `_analyze` -/
def analyze (fuel : Nat) (path : String) (minimumString : Option Nat) :
    Action ε (Analysis ε × List CarvedString) := do
  let expanded ← ask (.expanduser path)
  let resolved ← ask (.resolve expanded true)
  ask (.openSource resolved)
  (analyzeOpen m isprintable hexdigest fuel resolved minimumString).ensuring .closeSource

def analyzeRealm (fuel : Nat) (path : String) : Action ε (Analysis ε) := do
  let result ← analyze m isprintable hexdigest fuel path none
  pure result.1

def write (report : Report) (piece : Piece ε) : Action ε Unit :=
  ask (.writeReport report piece)

/-- `with (output / name).open("w") as file` -/
def withReport (output : String) (report : Report) (body : Action ε Unit) : Action ε Unit := do
  ask (.openReport output report)
  body.ensuring (.closeReport report)

def CSV_FIELDNAMES : List String :=
  ["file_offset", "array_offset", "encoding", "reachability", "value"]

/-- The three reports of `carve_realm`. -/
def writeReports (output : String) (analysis : Analysis ε) (strings : List CarvedString) :
    Action ε Unit := do
  withReport output .summary do
    write .summary (.summaryJson analysis)
    write .summary .newline
  withReport output .arrays (Prog.forEach (fun node => do
    write .arrays (.arrayJson node)
    write .arrays .newline) analysis.arrays)
  withReport output .strings do
    write .strings (.csvHeader CSV_FIELDNAMES)
    Prog.forEach (fun item => write .strings (.csvRow item)) strings

def carveRealm (fuel : Nat) (path output : String) (minimumString : Nat) :
    Action ε (Analysis ε) :=
  if minimumString < 1 then Prog.raise .valueError
  else do
    let exists? ← ask (.pathExists output)
    if exists? then Prog.raise .fileExistsError
    else do
      let result ← analyze m isprintable hexdigest fuel path (some minimumString)
      ask (.mkdir output)
      writeReports output result.1 result.2
      pure result.1

end

/-! ## The system -/

section
variable {ε : Type}

/-- An exception `main` catches. -/
def Caught (e : Exc) : Prop := e.isOSError = true ∨ e.isValueError = true

instance (e : Exc) : Decidable (Caught e) := inferInstanceAs (Decidable (_ ∨ _))

/-- The bytes read from the source so far. -/
def readSoFar (past : List (Step ε)) : Bytes :=
  past.flatMap fun ev =>
    match ev with
    | ⟨.readSource _, .ok chunk⟩ => chunk
    | _ => []

/-- The answers the documentation allows, for a source file that holds
`content`.  Path handling may raise `RuntimeError`; every other call raises
`OSError` or `ValueError`, a line on standard error nothing. -/
def Documented (content : Bytes) (past : List (Step ε)) : Step ε → Prop
  | ⟨.expanduser _, .error e⟩ => Caught e ∨ e = .runtimeError
  | ⟨.resolve _ _, .error e⟩ => Caught e ∨ e = .runtimeError
  | ⟨.printError _, .error _⟩ => False
  | ⟨.readSource size, .ok chunk⟩ => chunk = (content.drop (readSoFar past).length).take size
  | ⟨_, .error e⟩ => Caught e
  | ⟨_, .ok _⟩ => True

/-- A call that raised, or found that the output directory exists. -/
def Fails : Step ε → Prop
  | ⟨.pathExists _, .ok found⟩ => found = true
  | ⟨_, .ok _⟩ => False
  | ⟨_, .error _⟩ => True

/-- Calls without a part in what the exit status depends on, except by failing. -/
def Plain : Command ε → Prop
  | .expanduser _ | .resolve _ _ | .pathExists _ | .mapSource | .closeSource => False
  | _ => True

theorem steady_ask (content : Bytes) (c : Command ε) (hc : Plain c) :
    Steady (Documented content) Plain Fails Caught (ask c) := by
  intro past
  apply SteadyAt.perform past c hc
  · intro a _
    cases c <;> first | exact id | exact hc.elim
  · intro e he
    cases c <;> first | exact ⟨trivial, he⟩ | exact hc.elim | exact he.elim

/-! ## Hashing -/

theorem readSoFar_append (past : List (Step ε)) (size : Nat) (chunk : Bytes) :
    readSoFar (past ++ [⟨.readSource size, .ok chunk⟩]) = readSoFar past ++ chunk := by
  simp [readSoFar]

/-- **The hashing loop ends** when the file does. -/
theorem hash_spec (content : Bytes) : ∀ (fuel : Nat) (past : List (Step ε)) (hashed : Bytes),
    content.length - (readSoFar past).length < fuel →
      SteadyAt (Documented content) Plain Fails Caught past (hashLoop fuel hashed) := by
  intro fuel
  induction fuel with
  | zero => exact fun past hashed hf => absurd hf (Nat.not_lt_zero _)
  | succ fuel ih =>
    intro past hashed hf
    rw [SteadyAt, hashLoop, wp_bind, ask, wp_recorded]
    constructor
    · intro chunk hchunk
      have hquiet : ∀ ev ∈ [(⟨.readSource CHUNK_SIZE, .ok chunk⟩ : Step ε)],
          Plain ev.command ∧ ¬ Fails ev := by
        intro ev hev
        rw [List.mem_singleton] at hev
        rw [hev]
        exact ⟨trivial, id⟩
      split
      · exact ⟨_, rfl, hquiet⟩
      · next hne =>
        -- a chunk that is not empty brings the end of the file nearer
        have hlen : chunk.length ≤ content.length - (readSoFar past).length := by
          rw [show chunk = (content.drop (readSoFar past).length).take CHUNK_SIZE from hchunk,
            List.length_take, List.length_drop]
          omega
        have hpos : 0 < chunk.length := List.length_pos_iff.mpr hne
        refine (ih (past ++ [⟨.readSource CHUNK_SIZE, .ok chunk⟩]) (hashed ++ chunk) ?_).shift hquiet
        rw [readSoFar_append, List.length_append]
        omega
    · intro e he
      refine ⟨_, rfl, ?_, ⟨_, List.mem_singleton_self _, trivial⟩, he⟩
      intro ev hev
      rw [List.mem_singleton] at hev
      rw [hev]
      exact trivial

theorem sha256_steady (content : Bytes) (hexdigest : Bytes → String) (fuel : Nat)
    (past : List (Step ε)) (hf : content.length - (readSoFar past).length < fuel) :
    SteadyAt (Documented content) Plain Fails Caught past (sha256 hexdigest fuel) :=
  (hash_spec content fuel past [] hf).bind fun _ _ _ =>
    (steady_ask content .rewindSource trivial _).bind fun _ _ _ => SteadyAt.pure _ _

/-! ## Reports -/

theorem withReport_steady (content : Bytes) (output : String) (report : Report)
    {body : Action ε Unit} (h : Steady (Documented content) Plain Fails Caught body) :
    Steady (Documented content) Plain Fails Caught (withReport output report body) :=
  (steady_ask content (.openReport output report) trivial).bind fun _ =>
    h.ensuring (steady_ask content (.closeReport report) trivial)

/-- **The report writer swallows no exception.** -/
theorem writeReports_steady (content : Bytes) (output : String) (analysis : Analysis ε)
    (strings : List CarvedString) :
    Steady (Documented content) Plain Fails Caught (writeReports output analysis strings) := by
  have hwrite : ∀ report piece,
      Steady (Documented content) Plain Fails Caught (write (ε := ε) report piece) :=
    fun report piece => steady_ask content (.writeReport report piece) trivial
  refine (withReport_steady content output .summary ?_).bind fun _ =>
    (withReport_steady content output .arrays ?_).bind fun _ =>
    withReport_steady content output .strings ?_
  · exact (hwrite _ _).bind fun _ => hwrite _ _
  · exact Steady.forEach (fun node => (hwrite _ _).bind fun _ => hwrite _ _) _
  · exact (hwrite _ _).bind fun _ => Steady.forEach (fun item => hwrite _ _) _

/-! ## How a run of `_analyze` ends -/

/-- A step of path handling that raised `RuntimeError`. -/
def PathRuntime : Step ε → Prop
  | ⟨.expanduser _, .error e⟩ => e = .runtimeError
  | ⟨.resolve _ _, .error e⟩ => e = .runtimeError
  | _ => False

def Mapped (now : List (Step ε)) (data : Bytes) : Prop := (⟨.mapSource, .ok data⟩ : Step ε) ∈ now

/-- The mapped bytes have a Realm header. -/
def HeaderFound (now : List (Step ε)) : Prop :=
  ∃ data header, Mapped now data ∧ parseHeader data = .ok (some header)

/-- The mapped bytes let a count through that the pattern compiler rejects, and
closing the source did not raise another exception in its place. -/
def Overflowed (minimumString : Option Nat) (now : List (Step ε)) : Prop :=
  ∃ data header, Mapped now data ∧ parseHeader data = .ok (some header) ∧
    CarveOverflows data minimumString ∧ (⟨.closeSource, .ok ()⟩ : Step ε) ∈ now

/-- An exception `main` does not catch leaves the analysis or the path handling. -/
def Escapes (minimumString : Option Nat) (now : List (Step ε)) : Prop :=
  (∃ ev ∈ now, PathRuntime ev) ∨ Overflowed minimumString now

/-- How a step of the program may raise. -/
def Raised (minimumString : Option Nat) (e : Exc) (now : List (Step ε)) : Prop :=
  (Caught e ∧ (∃ ev ∈ now, Fails ev) ∧ ¬ Escapes minimumString now) ∨
  (¬ Caught e ∧ Escapes minimumString now)

/-- Nothing failed so far, the source is not closed, and `mapped` is what was mapped. -/
structure Calm (now : List (Step ε)) (mapped : Option Bytes) : Prop where
  quiet : ∀ ev ∈ now, ¬ Fails ev
  unclosed : ∀ ev ∈ now, ev.command ≠ .closeSource
  mapped : ∀ data, Mapped now data ↔ mapped = some data

theorem PathRuntime.fails {ev : Step ε} (h : PathRuntime ev) : Fails ev := by
  obtain ⟨c, answer⟩ := ev
  cases answer with
  | ok a => cases c <;> exact h.elim
  | error e => cases c <;> exact trivial

theorem Plain.not_pathRuntime {ev : Step ε} (h : Plain ev.command) : ¬ PathRuntime ev := by
  obtain ⟨c, answer⟩ := ev
  cases c <;> first | exact id | exact h.elim

theorem Plain.ne_closeSource {c : Command ε} (h : Plain c) : c ≠ .closeSource := by
  rintro rfl
  exact h

theorem Plain.ne_mapSource {c : Command ε} (h : Plain c) : c ≠ .mapSource := by
  rintro rfl
  exact h

theorem mem_append_of_command {now events : List (Step ε)} {ev : Step ε}
    (h : ∀ ev' ∈ events, ev'.command ≠ ev.command) : ev ∈ now ++ events ↔ ev ∈ now := by
  rw [List.mem_append]
  exact or_iff_left fun hm => h ev hm rfl

theorem mapped_append {now events : List (Step ε)} (h : ∀ ev ∈ events, ev.command ≠ .mapSource)
    (data : Bytes) : Mapped (now ++ events) data ↔ Mapped now data :=
  mem_append_of_command h

theorem mapped_close (now : List (Step ε)) (answer : Except Exc Unit) (data : Bytes) :
    Mapped (now ++ [⟨.closeSource, answer⟩]) data ↔ Mapped now data := by
  apply mapped_append
  rw [List.forall_mem_singleton]
  exact nofun

section
variable {now : List (Step ε)} {mapped : Option Bytes} (h : Calm now mapped)
include h

/-- Further calls that neither fail, map nor close. -/
theorem Calm.append {events : List (Step ε)} (hq : ∀ ev ∈ events, ¬ Fails ev)
    (hc : ∀ ev ∈ events, ev.command ≠ .closeSource)
    (hm : ∀ ev ∈ events, ev.command ≠ .mapSource) : Calm (now ++ events) mapped where
  quiet := by
    intro ev hev
    rcases List.mem_append.mp hev with hev | hev
    · exact h.quiet ev hev
    · exact hq ev hev
  unclosed := by
    intro ev hev
    rcases List.mem_append.mp hev with hev | hev
    · exact h.unclosed ev hev
    · exact hc ev hev
  mapped := fun data => (mapped_append hm data).trans (h.mapped data)

theorem Calm.append_plain {events : List (Step ε)}
    (hev : ∀ ev ∈ events, Plain ev.command ∧ ¬ Fails ev) : Calm (now ++ events) mapped :=
  h.append (fun ev hm => (hev ev hm).2) (fun ev hm => (hev ev hm).1.ne_closeSource)
    fun ev hm => (hev ev hm).1.ne_mapSource

theorem Calm.not_escapes_append (minimumString : Option Nat) {events : List (Step ε)}
    (hp : ∀ ev ∈ events, ¬ PathRuntime ev)
    (hc : ∀ ev ∈ events, ev ≠ (⟨.closeSource, .ok ()⟩ : Step ε)) :
    ¬ Escapes minimumString (now ++ events) := by
  rintro (⟨ev, hev, hr⟩ | ⟨data, header, -, -, -, hclose⟩)
  · rcases List.mem_append.mp hev with hev | hev
    · exact h.quiet ev hev hr.fails
    · exact hp ev hev hr
  · rcases List.mem_append.mp hclose with hclose | hclose
    · exact h.unclosed _ hclose rfl
    · exact hc _ hclose rfl

/-- Plain calls that fail raise what `main` catches. -/
theorem Calm.raised_plain (minimumString : Option Nat) {e : Exc} {events : List (Step ε)}
    (hn : ∀ ev ∈ events, Plain ev.command) (hf : ∃ ev ∈ events, Fails ev) (hc : Caught e) :
    Raised minimumString e (now ++ events) := by
  obtain ⟨ev, hev, hfail⟩ := hf
  refine Or.inl ⟨hc, ⟨ev, List.mem_append_right _ hev, hfail⟩, ?_⟩
  exact h.not_escapes_append minimumString (fun ev hm => (hn ev hm).not_pathRuntime)
    fun ev hm he => (hn ev hm).ne_closeSource (by rw [he])

end

variable (m : Measures ε) (isprintable : Char → Bool) (hexdigest : Bytes → String)

/-- What the stage on the mapped bytes can do, on any bytes. -/
theorem analyzeMapping_cases (resolved digest : String) (data : Bytes) (minimumString : Option Nat) :
    (∃ r, analyzeMapping m isprintable resolved digest data minimumString = .ok r ∧
      (r.1.header ≠ none ↔ ∃ header, parseHeader data = .ok (some header)) ∧
      ¬ ((∃ header, parseHeader data = .ok (some header)) ∧ CarveOverflows data minimumString)) ∨
    (analyzeMapping m isprintable resolved digest data minimumString = .error .overflowError ∧
      (∃ header, parseHeader data = .ok (some header)) ∧ CarveOverflows data minimumString) := by
  obtain ⟨header?, h⟩ := parseHeader_ok data
  cases header? with
  | none =>
    refine Or.inl ⟨_, by rw [analyzeMapping, h]; rfl, ?_, ?_⟩
    · rw [h]
      constructor
      · exact fun hn => absurd rfl hn
      · rintro ⟨header, hh⟩
        cases hh
    · rintro ⟨⟨header, hh⟩, -⟩
      rw [h] at hh
      cases hh
  | some header =>
    obtain ⟨h1, h2⟩ := analyzeMapping_eq m isprintable resolved digest h minimumString
    by_cases ho : CarveOverflows data minimumString
    · exact Or.inr ⟨h1 ho, ⟨header, h⟩, ho⟩
    · refine Or.inl ⟨_, h2 ho, ?_, fun hn => ho hn.2⟩
      simp [plaintextAnalysis, h]

/-- The state behind the body of `with resolved.open(...)`. -/
def OpenReturned (minimumString : Option Nat) (r : Analysis ε × List CarvedString)
    (now : List (Step ε)) : Prop :=
  (Calm now none ∧ r.1.header = none) ∨
  ∃ data, Calm now (some data) ∧
    (r.1.header ≠ none ↔ ∃ header, parseHeader data = .ok (some header)) ∧
    ¬ ((∃ header, parseHeader data = .ok (some header)) ∧ CarveOverflows data minimumString)

def OpenRaised (minimumString : Option Nat) (e : Exc) (now : List (Step ε)) : Prop :=
  (Caught e ∧ (∃ ev ∈ now, Fails ev) ∧ (∀ ev ∈ now, ¬ PathRuntime ev) ∧
    (∀ ev ∈ now, ev.command ≠ .closeSource) ∧ ∀ data, ¬ Mapped now data) ∨
  ∃ data, Calm now (some data) ∧ e = .overflowError ∧
    (∃ header, parseHeader data = .ok (some header)) ∧ CarveOverflows data minimumString

theorem Calm.openRaised_append {now : List (Step ε)} (h : Calm now none)
    (minimumString : Option Nat) {e : Exc} {events : List (Step ε)}
    (hp : ∀ ev ∈ events, ¬ PathRuntime ev) (hn : ∀ ev ∈ events, ev.command ≠ .closeSource)
    (hm : ∀ data, ¬ Mapped events data) (hf : ∃ ev ∈ events, Fails ev) (hc : Caught e) :
    OpenRaised minimumString e (now ++ events) := by
  obtain ⟨ev, hev, hfail⟩ := hf
  refine Or.inl ⟨hc, ⟨ev, List.mem_append_right _ hev, hfail⟩,
    List.forall_mem_append.mpr ⟨fun ev hev hr => h.quiet ev hev hr.fails, hp⟩,
    List.forall_mem_append.mpr ⟨h.unclosed, hn⟩, fun data hd => ?_⟩
  rcases List.mem_append.mp hd with hd | hd
  · exact absurd ((h.mapped data).mp hd) (Option.some_ne_none data).symm
  · exact hm data hd

theorem analyzeOpen_spec (content : Bytes) (fuel : Nat) (resolved : String)
    (minimumString : Option Nat) {past : List (Step ε)} (h : Calm past none)
    (hf : content.length - (readSoFar past).length < fuel) :
    wp (recorded (Documented content)) (analyzeOpen m isprintable hexdigest fuel resolved minimumString)
      (OpenReturned minimumString) (OpenRaised minimumString) past := by
  have hplain : ∀ {now e events}, Calm (ε := ε) now none → (∀ ev ∈ events, Plain ev.command) →
      (∃ ev ∈ events, Fails ev) → Caught e → OpenRaised minimumString e (now ++ events) :=
    fun hcalm hn hfail hc => hcalm.openRaised_append minimumString
      (fun ev hm => (hn ev hm).not_pathRuntime) (fun ev hm => (hn ev hm).ne_closeSource)
      (fun data hm => hn _ hm) hfail hc
  rw [analyzeOpen, wp_bind]
  refine (sha256_steady content hexdigest fuel past hf).wp_of ?_
    fun e events hn hfail hc => hplain h hn hfail hc
  intro digest events hev
  rw [wp_bind]
  refine (steady_ask content (.statSize resolved) trivial _).wp_of ?_
    fun e events' hn hfail hc => hplain (h.append_plain hev) hn hfail hc
  intro size events' hev'
  have hcalm := (h.append_plain hev).append_plain hev'
  split
  · exact Or.inl ⟨hcalm, rfl⟩
  · rw [wp_bind, ask, wp_recorded]
    constructor
    · intro data _
      have hdata : Calm (past ++ events ++ events' ++ [⟨.mapSource, .ok data⟩]) (some data) := by
        refine ⟨List.forall_mem_append.mpr ⟨hcalm.quiet, List.forall_mem_singleton.mpr id⟩, ?_, ?_⟩
        · rw [List.forall_mem_append, List.forall_mem_singleton]
          refine ⟨hcalm.unclosed, ?_⟩
          rintro ⟨⟩
        · intro data'
          rw [Mapped, List.mem_append, List.mem_singleton]
          constructor
          · rintro (hm | hm)
            · exact absurd ((hcalm.mapped data').mp hm) (by simp)
            · cases hm
              rfl
          · intro hm
            cases hm
            exact Or.inr rfl
      rcases analyzeMapping_cases m isprintable resolved digest data minimumString with
        ⟨r, hr, hhead, hno⟩ | ⟨hr, hhead, ho⟩
      · rw [hr]
        exact Or.inr ⟨data, hdata, hhead, hno⟩
      · rw [hr]
        exact Or.inr ⟨data, hdata, rfl, hhead, ho⟩
    · intro e he
      exact hcalm.openRaised_append minimumString (List.forall_mem_singleton.mpr id)
        (List.forall_mem_singleton.mpr (by rintro ⟨⟩)) (fun data hm => by cases List.mem_singleton.mp hm)
        ⟨_, List.mem_singleton_self _, trivial⟩ he

/-- The state behind an `_analyze` that returned. -/
structure Returned (minimumString : Option Nat) (analysis : Analysis ε) (now : List (Step ε)) :
    Prop where
  quiet : ∀ ev ∈ now, ¬ Fails ev
  header : HeaderFound now ↔ analysis.header ≠ none
  fits : ¬ Overflowed minimumString now

theorem closeSource_spec (content : Bytes) (minimumString : Option Nat)
    {r : Analysis ε × List CarvedString} {now : List (Step ε)} (h : OpenReturned minimumString r now) :
    wp (recorded (Documented content)) (Prog.perform .closeSource) (fun _ => Returned minimumString r.1)
      (Raised minimumString) now := by
  obtain ⟨mapped, hcalm, hhead, hno⟩ : ∃ mapped, Calm now mapped ∧
      (r.1.header ≠ none ↔ ∃ data header, mapped = some data ∧ parseHeader data = .ok (some header)) ∧
      ∀ data header, mapped = some data → parseHeader data = .ok (some header) →
        ¬ CarveOverflows data minimumString := by
    rcases h with ⟨hcalm, hnone⟩ | ⟨data, hcalm, hhead, hno⟩
    · exact ⟨none, hcalm, by simp [hnone], by simp⟩
    · exact ⟨some data, hcalm, by simpa using hhead, fun data' header hd hp ho => by
        cases hd
        exact hno ⟨⟨header, hp⟩, ho⟩⟩
  rw [wp_recorded]
  constructor
  · intro _ _
    have hmapped : ∀ data, Mapped (now ++ [⟨.closeSource, .ok ()⟩]) data ↔ mapped = some data :=
      fun data => (mapped_close now _ data).trans (hcalm.mapped data)
    refine ⟨List.forall_mem_append.mpr ⟨hcalm.quiet, List.forall_mem_singleton.mpr id⟩, ?_, ?_⟩
    · rw [hhead]
      simp only [HeaderFound, hmapped]
    · rintro ⟨data, header, hd, hp, ho, -⟩
      exact hno data header ((hmapped data).mp hd) hp ho
  · intro e he
    exact Or.inl ⟨he, ⟨_, List.mem_append_right _ (List.mem_singleton_self _), trivial⟩,
      hcalm.not_escapes_append minimumString (List.forall_mem_singleton.mpr id)
        (List.forall_mem_singleton.mpr (by rintro ⟨⟩))⟩

theorem closeSource_raised (content : Bytes) (minimumString : Option Nat) {e : Exc}
    {now : List (Step ε)} (h : OpenRaised minimumString e now) :
    wp (recorded (Documented content)) (Prog.perform (.closeSource : Command ε))
      (fun _ => Raised minimumString e) (Raised minimumString) now := by
  rw [wp_recorded]
  rcases h with ⟨hc, ⟨ev, hev, hfail⟩, hp, hn, hm⟩ | ⟨data, hcalm, rfl, ⟨header, hh⟩, ho⟩
  · have hno : ∀ answer, ¬ Escapes minimumString (now ++ [⟨.closeSource, answer⟩]) := by
      rintro answer (⟨ev, hev, hr⟩ | ⟨data, header, hd, -⟩)
      · rcases List.mem_append.mp hev with hev | hev
        · exact hp ev hev hr
        · rw [List.mem_singleton] at hev
          rw [hev] at hr
          exact hr
      · exact hm data ((mapped_close now answer data).mp hd)
    exact ⟨fun _ _ => Or.inl ⟨hc, ⟨ev, List.mem_append_left _ hev, hfail⟩, hno _⟩,
      fun e' he' => Or.inl ⟨he', ⟨ev, List.mem_append_left _ hev, hfail⟩, hno _⟩⟩
  · constructor
    · intro _ _
      refine Or.inr ⟨by decide, Or.inr ⟨data, header, ?_, hh, ho,
        List.mem_append_right _ (List.mem_singleton_self _)⟩⟩
      exact List.mem_append_left _ ((hcalm.mapped data).mpr rfl)
    · intro e' he'
      exact Or.inl ⟨he', ⟨_, List.mem_append_right _ (List.mem_singleton_self _), trivial⟩,
        hcalm.not_escapes_append minimumString (List.forall_mem_singleton.mpr id)
          (List.forall_mem_singleton.mpr (by rintro ⟨⟩))⟩

theorem headerFound_append {now events : List (Step ε)}
    (h : ∀ ev ∈ events, ev.command ≠ .mapSource) : HeaderFound (now ++ events) ↔ HeaderFound now := by
  simp only [HeaderFound, mapped_append h]

theorem overflowed_append (minimumString : Option Nat) {now events : List (Step ε)}
    (hm : ∀ ev ∈ events, ev.command ≠ .mapSource) (hc : ∀ ev ∈ events, ev.command ≠ .closeSource) :
    Overflowed minimumString (now ++ events) ↔ Overflowed minimumString now := by
  have hclose : (⟨.closeSource, .ok ()⟩ : Step ε) ∈ now ++ events ↔ _ := mem_append_of_command hc
  simp only [Overflowed, mapped_append hm, hclose]

/-- The calls of path handling. -/
def PathStep : Command ε → Prop
  | .expanduser _ | .resolve _ _ => True
  | _ => False

/-- A step of path handling may raise what `main` does not catch. -/
theorem ask_path_spec (content : Bytes) (minimumString : Option Nat) {c : Command ε}
    (hc : PathStep c) {now : List (Step ε)} (hq : ∀ ev ∈ now, ¬ Fails ev)
    (ho : ¬ Overflowed minimumString now) :
    wp (recorded (Documented content)) (ask c) (fun a now' => now' = now ++ [⟨c, .ok a⟩])
      (Raised minimumString) now := by
  rw [ask, wp_recorded]
  refine ⟨fun _ _ => rfl, fun e he => ?_⟩
  have hfail : Fails (⟨c, .error e⟩ : Step ε) := by cases c <;> trivial
  have hrun : PathRuntime (⟨c, .error e⟩ : Step ε) ↔ e = .runtimeError := by
    cases c <;> first | exact Iff.rfl | exact hc.elim
  have hdoc : Caught e ∨ e = .runtimeError := by
    cases c <;> first | exact he | exact hc.elim
  have hesc : Escapes minimumString (now ++ [⟨c, .error e⟩]) ↔ e = .runtimeError := by
    rw [Escapes, overflowed_append minimumString
      (List.forall_mem_singleton.mpr (by rintro rfl; exact hc))
      (List.forall_mem_singleton.mpr (by rintro rfl; exact hc)), or_iff_left ho, ← hrun]
    constructor
    · rintro ⟨ev, hev, hr⟩
      rcases List.mem_append.mp hev with hev | hev
      · exact absurd hr.fails (hq ev hev)
      · rw [List.mem_singleton] at hev
        rwa [hev] at hr
    · exact fun hr => ⟨_, List.mem_append_right _ (List.mem_singleton_self _), hr⟩
  have hcaught : ¬ Caught .runtimeError := by decide
  rw [Raised, hesc]
  rcases hdoc with hcau | rfl
  · refine Or.inl ⟨hcau, ⟨_, List.mem_append_right _ (List.mem_singleton_self _), hfail⟩, ?_⟩
    rintro rfl
    exact hcaught hcau
  · exact Or.inr ⟨hcaught, rfl⟩

theorem Calm.not_overflowed {now : List (Step ε)} {mapped : Option Bytes} (h : Calm now mapped)
    (minimumString : Option Nat) : ¬ Overflowed minimumString now := by
  rintro ⟨-, -, -, -, -, hclose⟩
  exact h.unclosed _ hclose rfl

theorem Calm.append_path {now : List (Step ε)} (h : Calm now none) {c : Command ε} (hc : PathStep c)
    (a : Answer c) : Calm (now ++ [⟨c, .ok a⟩]) none := by
  apply h.append
  · rw [List.forall_mem_singleton]
    cases c <;> first | exact id | exact hc.elim
  · rw [List.forall_mem_singleton]
    rintro rfl
    exact hc
  · rw [List.forall_mem_singleton]
    rintro rfl
    exact hc

/-- **How every run of `_analyze` ends**: it returns and nothing failed, or a
call failed with an exception `main` catches, or it escapes. -/
theorem analyze_spec (content : Bytes) (fuel : Nat) (path : String) (minimumString : Option Nat)
    {past : List (Step ε)} (h : Calm past none) (hread : readSoFar past = [])
    (hf : content.length < fuel) :
    wp (recorded (Documented content)) (analyze m isprintable hexdigest fuel path minimumString)
      (fun r => Returned minimumString r.1) (Raised minimumString) past := by
  rw [analyze, wp_bind]
  refine wp_mono (ask_path_spec content minimumString (c := .expanduser path) trivial h.quiet
    (h.not_overflowed _)) ?_ fun _ _ => id
  rintro expanded _ rfl
  have h1 := h.append_path (c := .expanduser path) trivial expanded
  rw [wp_bind]
  refine wp_mono (ask_path_spec content minimumString (c := .resolve expanded true) trivial h1.quiet
    (h1.not_overflowed _)) ?_ fun _ _ => id
  rintro resolved _ rfl
  have h2 := h1.append_path (c := .resolve expanded true) trivial resolved
  rw [wp_bind, ask, wp_recorded]
  constructor
  · intro _ _
    have h3 : Calm (past ++ [⟨.expanduser path, .ok expanded⟩] ++
        [⟨.resolve expanded true, .ok resolved⟩] ++ [⟨.openSource resolved, .ok ()⟩]) none :=
      h2.append_plain (List.forall_mem_singleton.mpr ⟨trivial, id⟩)
    have hnone : readSoFar (past ++ [⟨.expanduser path, .ok expanded⟩] ++
        [⟨.resolve expanded true, .ok resolved⟩] ++ [⟨.openSource resolved, .ok ()⟩]) = [] := by
      simp only [readSoFar, List.flatMap_append] at hread ⊢
      rw [hread]
      rfl
    rw [wp_ensuring]
    refine wp_mono (analyzeOpen_spec m isprintable hexdigest content fuel resolved minimumString h3
      (by rw [hnone]; exact Nat.lt_of_le_of_lt (Nat.sub_le _ _) hf)) ?_ ?_
    · exact fun r now hr => closeSource_spec content minimumString hr
    · exact fun e now he => closeSource_raised content minimumString he
  · intro e he
    exact h2.raised_plain minimumString (List.forall_mem_singleton.mpr trivial)
      ⟨_, List.mem_singleton_self _, trivial⟩ he

end

/-! ## The calls of the analysis -/

section
variable {ε : Type}

/-- Calls on the source file and its path. -/
def OfSource : Command ε → Prop
  | .expanduser _ | .resolve _ _ | .openSource _ | .readSource _ | .rewindSource | .statSize _
  | .mapSource | .closeSource => True
  | _ => False

theorem hashLoop_only (fuel : Nat) (hashed : Bytes) :
    (hashLoop (ε := ε) fuel hashed).Only OfSource := by
  induction fuel generalizing hashed with
  | zero => exact trivial
  | succ fuel ih =>
    refine Only.bind (Only.perform trivial) fun chunk => ?_
    split
    · exact trivial
    · exact ih _

/-- **The analysis calls nothing but the source file.** -/
theorem analyze_only (m : Measures ε) (isprintable : Char → Bool) (hexdigest : Bytes → String)
    (fuel : Nat) (path : String) (minimumString : Option Nat) :
    (analyze m isprintable hexdigest fuel path minimumString).Only OfSource := by
  refine Only.bind (Only.perform trivial) fun expanded => Only.bind (Only.perform trivial) fun resolved =>
    Only.bind (Only.perform trivial) fun _ => Only.ensuring ?_ trivial
  refine Only.bind ?_ fun digest => Only.bind (Only.perform trivial) fun size => ?_
  · exact Only.bind (hashLoop_only fuel []) fun _ => Only.bind (Only.perform trivial) fun _ => trivial
  · split
    · exact trivial
    · exact Only.bind (Only.perform trivial) fun data => trivial

/-- Calls on the reports. -/
def OfReports : Command ε → Prop
  | .openReport _ _ | .writeReport _ _ | .closeReport _ => True
  | _ => False

theorem forEach_only {α : Type} {calls : Command ε → Prop} {body : α → Action ε Unit}
    (h : ∀ a, (body a).Only calls) (xs : List α) : (Prog.forEach body xs).Only calls := by
  induction xs with
  | nil => exact trivial
  | cons x xs ih => exact Only.bind (h x) fun _ => ih

/-- **The report writer calls nothing but the reports.** -/
theorem writeReports_only (output : String) (analysis : Analysis ε) (strings : List CarvedString) :
    (writeReports output analysis strings).Only OfReports := by
  have hreport : ∀ report body, body.Only OfReports →
      (withReport (ε := ε) output report body).Only OfReports := fun report body h =>
    Only.bind (Only.perform trivial) fun _ => Only.ensuring h trivial
  have hwrite : ∀ report piece, (write (ε := ε) report piece).Only OfReports := fun report piece =>
    Only.perform trivial
  refine Only.bind (hreport _ _ ?_) fun _ => Only.bind (hreport _ _ ?_) fun _ => hreport _ _ ?_
  · exact Only.bind (hwrite _ _) fun _ => hwrite _ _
  · exact forEach_only (fun node => Only.bind (hwrite _ _) fun _ => hwrite _ _) _
  · exact Only.bind (hwrite _ _) fun _ => forEach_only (fun item => hwrite _ _) _

end

end Pyrealm
