import Pyrealm.Forensics.Carve

/-!
# Which bytes the digest is of

`_analyze` reads the source to its end, rewinds, asks for its size and maps it.
Until it is mapped, another process may change the file between any two calls.

* `hashed_eq_iff`: when bytes read piece by piece are those mapped afterwards.
* `digest_of_scanned_iff`: when the digest is of the bytes that were scanned.
* `digest_of_other_bytes`: a file changed before it is mapped.
-/

namespace Pyrealm

open Py Effects

/-! ## The source file -/

/-- A read of the hashing loop: where it started, in the file as it was then. -/
structure Read where
  position : Nat
  content : Bytes

/-- What `file.read(1024 * 1024)` returned. -/
def Read.chunk (r : Read) : Bytes := (r.content.drop r.position).take CHUNK_SIZE

def hashedBytes (reads : List Read) : Bytes := reads.flatMap Read.chunk

structure SourceFile where
  content : Bytes
  position : Nat
  reads : List Read
  mapped : Option Bytes

section
variable {ε : Type}

/-- The effect of a call on the file. -/
def sourceCall (s : SourceFile) : (c : Command ε) → Except Exc (Answer c) → SourceFile → Prop
  | .openSource _, .ok _, t => t = { s with position := 0 }
  | .readSource size, .ok chunk, t => chunk = (s.content.drop s.position).take size ∧
    t = { s with position := s.position + chunk.length, reads := s.reads ++ [⟨s.position, s.content⟩] }
  | .rewindSource, .ok _, t => t = { s with position := 0 }
  | .statSize _, .ok size, t => size = s.content.length ∧ t = s
  | .mapSource, .ok data, t => data = s.content ∧ data ≠ [] ∧ t = { s with mapped := some data }
  | _, _, t => t = s

/-- Before each call another process may have changed the file, unless it is mapped. -/
def sourceSem (s : SourceFile) (c : Command ε) (answer : Except Exc (Answer c)) (t : SourceFile) : Prop :=
  ∃ content, (s.mapped ≠ none → content = s.content) ∧ sourceCall { s with content } c answer t

end

/-! ## Bytes read piece by piece -/

/-- Each read starts where the one before ended. -/
def Consecutive : Nat → List Read → Prop
  | _, [] => True
  | p, r :: reads => r.position = p ∧ Consecutive (p + r.chunk.length) reads

theorem hashedBytes_cons (r : Read) (reads : List Read) :
    hashedBytes (r :: reads) = r.chunk ++ hashedBytes reads := List.flatMap_cons

theorem hashedBytes_append (reads : List Read) (r : Read) :
    hashedBytes (reads ++ [r]) = hashedBytes reads ++ r.chunk := by
  rw [hashedBytes, List.flatMap_append, List.flatMap_singleton]
  rfl

theorem consecutive_append (p : Nat) (reads : List Read) (r : Read) :
    Consecutive p (reads ++ [r]) ↔
      Consecutive p reads ∧ r.position = p + (hashedBytes reads).length := by
  induction reads generalizing p with
  | nil => simp [Consecutive, hashedBytes]
  | cons q reads ih =>
    rw [List.cons_append, Consecutive, ih, Consecutive, hashedBytes_cons, List.length_append,
      and_assoc, Nat.add_assoc]

/-- Consecutive reads are a prefix of some bytes exactly if each of them is one
of the bytes from its position on. -/
theorem hashed_prefix_iff (data : Bytes) (p : Nat) (reads : List Read) (h : Consecutive p reads) :
    hashedBytes reads <+: data.drop p ↔ ∀ r ∈ reads, r.chunk <+: data.drop r.position := by
  induction reads generalizing p with
  | nil => simp [hashedBytes]
  | cons q reads ih =>
    obtain ⟨hq, hrest⟩ := h
    rw [List.forall_mem_cons, ← ih _ hrest, hq, hashedBytes_cons, ← List.drop_drop]
    constructor
    · intro hp
      refine ⟨(List.prefix_append _ _).trans hp, ?_⟩
      obtain ⟨rest, hrest⟩ := hp
      rw [← hrest, List.append_assoc, List.drop_left]
      exact List.prefix_append _ _
    · rintro ⟨⟨rest, hrest⟩, hp⟩
      rw [← hrest, List.drop_left] at hp
      rw [← hrest]
      exact (List.prefix_append_right_inj _).mpr hp

/-- The reads saw what is in `scanned`: each the bytes from its position on, the
last one the end. -/
structure Undisturbed (reads : List Read) (scanned : Bytes) : Prop where
  same : ∀ r ∈ reads, r.chunk <+: scanned.drop r.position
  stop : ∀ r, reads.getLast? = some r → r.position = scanned.length

/-- The reads of a loop that has ended: the last one returned nothing. -/
structure ReadToEnd (reads : List Read) : Prop where
  consecutive : Consecutive 0 reads
  last : ∃ before r, reads = before ++ [r] ∧ r.chunk = []

/-- **When the bytes read are the bytes scanned.** -/
theorem hashed_eq_iff {reads : List Read} (h : ReadToEnd reads) (scanned : Bytes) :
    hashedBytes reads = scanned ↔ Undisturbed reads scanned := by
  obtain ⟨before, r, hreads, hr⟩ := h.last
  have hlast : reads.getLast? = some r := by rw [hreads, List.getLast?_append, List.getLast?_singleton]; rfl
  have hpos : r.position = (hashedBytes reads).length := by
    have hc := h.consecutive
    rw [hreads, consecutive_append] at hc
    rw [hc.2, hreads, hashedBytes_append, hr, List.append_nil, Nat.zero_add]
  have hsofar := hashed_prefix_iff scanned 0 reads h.consecutive
  rw [List.drop_zero] at hsofar
  constructor
  · intro he
    refine ⟨hsofar.mp (he ▸ List.prefix_rfl), fun r' hr' => ?_⟩
    rw [hlast, Option.some.injEq] at hr'
    rw [← hr', hpos, he]
  · intro hu
    exact (hsofar.mpr hu.same).eq_of_length (hpos.symm.trans (hu.stop r hlast))

/-! ## The hashing pass -/

section
variable {ε : Type}

/-- The loop stands at the end of what it has read. -/
structure Hashing (s : SourceFile) (hashed : Bytes) : Prop where
  consecutive : Consecutive 0 s.reads
  bytes : hashed = hashedBytes s.reads
  position : s.position = hashed.length
  unmapped : s.mapped = none

theorem Hashing.read {s t : SourceFile} {hashed chunk : Bytes} (h : Hashing s hashed)
    (ht : sourceSem (ε := ε) s (.readSource CHUNK_SIZE) (.ok chunk) t) :
    Hashing t (hashed ++ chunk) ∧ ∃ r, t.reads = s.reads ++ [r] ∧ r.chunk = chunk := by
  obtain ⟨content, -, hchunk, rfl⟩ := ht
  have hr : (⟨s.position, content⟩ : Read).chunk = chunk := hchunk.symm
  refine ⟨⟨?_, ?_, ?_, h.unmapped⟩, _, rfl, hr⟩
  · rw [consecutive_append]
    exact ⟨h.consecutive, by rw [Nat.zero_add, ← h.bytes, ← h.position]⟩
  · rw [hashedBytes_append, ← h.bytes, hr]
  · rw [List.length_append, ← h.position]

/-- The loop ends at the first read that returns nothing. -/
theorem hashLoop_reads : ∀ (fuel : Nat) (s : SourceFile) (hashed : Bytes), Hashing s hashed →
    wp (sourceSem (ε := ε)) (hashLoop fuel hashed)
      (fun bytes t => bytes = hashedBytes t.reads ∧ ReadToEnd t.reads ∧ t.mapped = none)
      (fun _ _ => True) s := by
  intro fuel
  induction fuel with
  | zero => exact fun s hashed _ => trivial
  | succ fuel ih =>
    intro s hashed h
    rw [hashLoop]
    refine wp_perform_bind fun chunk t ht => ?_
    obtain ⟨hnext, r, hreads, hr⟩ := h.read ht
    split
    · next hnil =>
      rw [hnil, List.append_nil] at hnext
      exact ⟨hnext.bytes, ⟨hnext.consecutive, s.reads, r, hreads, hr.trans hnil⟩, hnext.unmapped⟩
    · exact ih t _ hnext

/-- What was scanned: the mapped bytes, nothing where the file was empty. -/
def scannedBytes (s : SourceFile) : Bytes := s.mapped.getD []

variable (m : Measures ε) (isprintable : Char → Bool) (hexdigest : Bytes → String)

/-- A returned analysis: the digest is of the bytes read, everything else of the bytes scanned. -/
structure Analysed (minimumString : Option Nat) (final : SourceFile) (analysis : Analysis ε)
    (strings : List CarvedString) : Prop where
  reads : ReadToEnd final.reads
  sha256 : analysis.sha256 = hexdigest (hashedBytes final.reads)
  rest : ∃ resolved, (final.mapped = none ∧
      analysis = emptyAnalysis m resolved analysis.sha256 ∧ strings = []) ∨
    ∃ data, final.mapped = some data ∧ analyzeMapping m isprintable resolved analysis.sha256 data
      minimumString = .ok (analysis, strings)

theorem sha256_of_analyzeMapping {resolved digest : String} {data : Bytes} {minimumString : Option Nat}
    {analysis : Analysis ε} {strings : List CarvedString}
    (h : analyzeMapping m isprintable resolved digest data minimumString = .ok (analysis, strings)) :
    analysis.sha256 = digest := by
  obtain ⟨header?, hh⟩ := parseHeader_ok data
  cases header? with
  | none =>
    rw [analyzeMapping, hh, ok_bind, Except.ok.injEq, Prod.mk.injEq] at h
    rw [← h.1]
    rfl
  | some header =>
    rw [(analyzeMapping_ok m isprintable resolved digest hh h).1]
    rfl

theorem analyzeOpen_reads (fuel : Nat) (resolved : String) (minimumString : Option Nat) {s : SourceFile}
    (hs : Hashing s []) : wp (sourceSem (ε := ε))
      (analyzeOpen m isprintable hexdigest fuel resolved minimumString)
      (fun r t => Analysed m isprintable hexdigest minimumString t r.1 r.2) (fun _ _ => True) s := by
  rw [analyzeOpen, wp_bind, sha256, wp_bind]
  refine wp_mono (hashLoop_reads fuel s [] hs) ?_ (fun _ _ h => h)
  rintro _ t ⟨rfl, hread, hmapped⟩
  refine wp_perform_bind ?_
  rintro _ _ ⟨content, -, rfl⟩
  show wp _ (ask (.statSize resolved) >>= _) _ _ _
  refine wp_perform_bind ?_
  rintro size _ ⟨content', -, -, rfl⟩
  split
  · exact ⟨hread, rfl, resolved, Or.inl ⟨hmapped, rfl, rfl⟩⟩
  · refine wp_perform_bind ?_
    rintro data _ ⟨content'', -, -, -, rfl⟩
    cases hrun : analyzeMapping m isprintable resolved (hexdigest (hashedBytes t.reads)) data
        minimumString with
    | error e => exact trivial
    | ok r =>
      have hsha := sha256_of_analyzeMapping m isprintable hrun
      exact ⟨hread, hsha, resolved, Or.inr ⟨data, rfl, by rw [hsha]; exact hrun⟩⟩

/-! ## `_analyze` -/

/-- The file before the call. -/
def startFile (content : Bytes) : SourceFile := ⟨content, 0, [], none⟩

theorem analyze_reads (fuel : Nat) (path : String) (minimumString : Option Nat) (content : Bytes) :
    wp (sourceSem (ε := ε)) (analyze m isprintable hexdigest fuel path minimumString)
      (fun r t => Analysed m isprintable hexdigest minimumString t r.1 r.2) (fun _ _ => True)
      (startFile content) := by
  rw [analyze]
  refine wp_perform_bind ?_
  rintro expanded _ ⟨content₁, -, rfl⟩
  refine wp_perform_bind ?_
  rintro resolved _ ⟨content₂, -, rfl⟩
  refine wp_perform_bind ?_
  rintro _ _ ⟨content₃, -, rfl⟩
  rw [wp_ensuring]
  refine wp_mono (analyzeOpen_reads m isprintable hexdigest fuel resolved minimumString
    ⟨trivial, rfl, rfl, rfl⟩) ?_ ?_
  · rintro ⟨analysis, strings⟩ t h
    rw [wp_perform]
    refine ⟨?_, fun _ _ _ => trivial⟩
    rintro _ _ ⟨content₄, -, rfl⟩
    exact ⟨h.reads, h.sha256, h.rest⟩
  · intro e t _
    rw [wp_perform]
    exact ⟨fun _ _ _ => trivial, fun _ _ _ => trivial⟩

/-- **The digest is of the bytes that were scanned exactly if the hashing reads saw
these bytes**: nothing holds the file still between hashing and mapping. -/
theorem digest_of_scanned_iff (fuel : Nat) (path : String) (minimumString : Option Nat) (content : Bytes)
    {final : SourceFile} {analysis : Analysis ε} {strings : List CarvedString}
    (hrun : Runs sourceSem (startFile content)
      (analyze m isprintable hexdigest fuel path minimumString) final (.ok (analysis, strings))) :
    Analysed m isprintable hexdigest minimumString final analysis strings ∧
    (hashedBytes final.reads = scannedBytes final ↔
      Undisturbed final.reads (scannedBytes final)) := by
  have h : Analysed m isprintable hexdigest minimumString final analysis strings :=
    (wp_iff_runs _ _ _ _ _).mp
      (analyze_reads m isprintable hexdigest fuel path minimumString content) _ _ hrun
  exact ⟨h, hashed_eq_iff h.reads _⟩

end

/-- A file that nobody changes is not disturbed. -/
theorem undisturbed_of_unchanged {reads : List Read} (h : ReadToEnd reads) {scanned : Bytes}
    (hsame : ∀ r ∈ reads, r.content = scanned) : Undisturbed reads scanned := by
  have hchunk : ∀ r ∈ reads, r.chunk <+: scanned.drop r.position := by
    intro r hr
    rw [Read.chunk, hsame r hr]
    exact List.take_prefix _ _
  rw [← hashed_eq_iff h]
  have hp : hashedBytes reads <+: scanned := by
    have hiff := hashed_prefix_iff scanned 0 reads h.consecutive
    rw [List.drop_zero] at hiff
    exact hiff.mpr hchunk
  obtain ⟨before, r, hreads, hr⟩ := h.last
  have hmem : r ∈ reads := by
    rw [hreads]
    exact List.mem_append_right _ (List.mem_singleton_self _)
  have hc := h.consecutive
  rw [hreads, consecutive_append, Nat.zero_add] at hc
  -- the last read met the end of the file
  rw [Read.chunk, hsame r hmem, List.take_eq_nil_iff, List.drop_eq_nil_iff] at hr
  have hend : scanned.length ≤ r.position := hr.resolve_left (by decide)
  refine hp.eq_of_length_le ?_
  rw [hreads, hashedBytes_append, List.length_append]
  have := hc.2
  omega

/-- The file of `tinyRealm`, with `next` for `text`. -/
def retouchedRealm : Bytes := tinyRealm.set 48 110

/-- A digest of few bytes, that tells all of them. -/
def plainDigest (data : Bytes) : String := String.ofList (data.map fun b => Char.ofNat b.toNat)

/-- The file is changed between the hashing pass and the mapping. -/
theorem retouched_run : ∃ final analysis, Runs sourceSem (startFile tinyRealm)
      (analyze ⟨(), fun _ => (), fun _ => false⟩ Char.isAlpha plainDigest 2 "a.realm" (some 4))
      final (.ok (analysis, [⟨48, 40, .utf8, "next".toList, .active⟩])) ∧
    final.mapped = some retouchedRealm ∧ hashedBytes final.reads = tinyRealm := by
  apply Exists.intro
  apply Exists.intro
  constructor
  · apply Runs.call (.ok "a.realm") ⟨tinyRealm, fun _ => rfl, rfl⟩
    apply Runs.call (.ok "/a.realm") ⟨tinyRealm, fun _ => rfl, rfl⟩
    apply Runs.call (.ok ()) ⟨tinyRealm, fun _ => rfl, rfl⟩
    apply Runs.call (.ok tinyRealm) ⟨tinyRealm, fun _ => rfl, by show tinyRealm = _; decide +kernel, rfl⟩
    apply Runs.call (.ok []) ⟨tinyRealm, fun _ => rfl, by show ([] : Bytes) = _; decide +kernel, rfl⟩
    apply Runs.call (.ok ()) ⟨tinyRealm, fun _ => rfl, rfl⟩
    apply Runs.call (.ok 64) ⟨tinyRealm, fun _ => rfl, rfl, rfl⟩
    apply Runs.call (.ok retouchedRealm) ⟨retouchedRealm, fun h => absurd rfl h, rfl, by decide +kernel, rfl⟩
    apply Runs.call (.ok ()) ⟨retouchedRealm, fun _ => rfl, rfl⟩
    apply Runs.done
  · exact ⟨rfl, by decide +kernel⟩

/-- `_analyze` returns the digest of bytes it has not scanned: the text is that of
the mapped file, the digest that of the file before. -/
theorem digest_of_other_bytes : ∃ final analysis, Runs sourceSem (startFile tinyRealm)
      (analyze ⟨(), fun _ => (), fun _ => false⟩ Char.isAlpha plainDigest 2 "a.realm" (some 4))
      final (.ok (analysis, [⟨48, 40, .utf8, "next".toList, .active⟩])) ∧
    scannedBytes final = retouchedRealm ∧ hashedBytes final.reads ≠ scannedBytes final ∧
    analysis.sha256 = plainDigest tinyRealm ∧ analysis.sha256 ≠ plainDigest retouchedRealm := by
  obtain ⟨final, analysis, hrun, hmapped, hhashed⟩ := retouched_run
  have hends := (wp_iff_runs _ _ _ _ _).mp (analyze_reads _ _ _ 2 "a.realm" (some 4) tinyRealm) _ _ hrun
  have hsha : analysis.sha256 = plainDigest tinyRealm := by
    rw [← hhashed]
    exact hends.sha256
  have hscanned : scannedBytes final = retouchedRealm := by
    rw [scannedBytes, hmapped, Option.getD_some]
  refine ⟨final, analysis, hrun, hscanned, ?_, hsha, ?_⟩
  · rw [hhashed, hscanned]
    decide +kernel
  · rw [hsha]
    decide +kernel

theorem digest_of_scanned_iff_retouched : ∃ final analysis strings, Runs sourceSem (startFile tinyRealm)
      (analyze ⟨(), fun _ => (), fun _ => false⟩ Char.isAlpha plainDigest 2 "a.realm" (some 4))
      final (.ok (analysis, strings)) ∧
    (hashedBytes final.reads = scannedBytes final ↔ Undisturbed final.reads (scannedBytes final)) := by
  obtain ⟨final, analysis, hrun, -⟩ := retouched_run
  exact ⟨final, analysis, _, hrun, (digest_of_scanned_iff _ _ _ _ _ _ _ hrun).2⟩

end Pyrealm
