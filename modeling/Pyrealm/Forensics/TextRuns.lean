import Mathlib.Data.List.Sort
import Pyrealm.Forensics.Analyze
import Pyrealm.Pool.Segments

/-!
# What the carver finds

The two passes of `_extract_strings` against the text that is in the payload.

    (i, s) ∈ _utf8_strings  ↔  s is maximal printable UTF-8 text at i, long enough

    (utf8_strings_exact), and the same for the UTF-16LE pass with text of
    ASCII pairs (utf16_rows_exact).

A sorted list is known by its members, so a higher minimum only filters
(`raising_minimum_filters`).
-/

namespace Pyrealm

open Py Chains

/-! ## UTF-8 -/

/-- `char.isprintable() or char in "\t"` of one character. -/
def GoodChar (isprintable : Char → Bool) (c : Char) : Prop := isprintable c = true ∨ c = '\t'

section
variable (isprintable : Char → Bool) (payload : Bytes)

/-- A good character occupies `[a, e)`. -/
abbrev Utf8CharAt : Nat → Nat → Prop := CharAt String.utf8EncodeChar (GoodChar isprintable) payload

/-- Printable text at `i` that no larger segment of printable text contains. -/
abbrev MaximalUtf8 : Nat → PyStr → Prop :=
  MaximalText String.utf8EncodeChar (GoodChar isprintable) payload

theorem selfSync_utf8 : SelfSync String.utf8EncodeChar (GoodChar isprintable) (fun b => ¬ IsTail b)
    (fun b => leadWidth b.toNat) where
  starts := by
    intro c _
    obtain ⟨b, bs, he⟩ := List.exists_cons_of_ne_nil (String.utf8EncodeChar_ne_nil (c := c))
    obtain ⟨hlead, htail⟩ := isTail_encode c b bs he
    refine ⟨b, bs, he, hlead, fun x hx hn => hn (htail x hx), ?_⟩
    rw [String.length_utf8EncodeChar, leadWidth_encode c b bs he]
  inj := by
    intro c d _ _ he
    have hc := (decodeUtf8_eq_some_iff (String.utf8EncodeChar c) [c]).mpr (by simp [encodeUtf8])
    rw [he, (decodeUtf8_eq_some_iff (String.utf8EncodeChar d) [d]).mpr (by simp [encodeUtf8])] at hc
    cases hc
    rfl

theorem separate_utf8 : Separate (Utf8CharAt isprintable payload) :=
  separate_charAt (selfSync_utf8 isprintable) payload

theorem keepChar_singleton (c : Char) : keepChar isprintable [c] = true ↔ GoodChar isprintable c := by
  rw [keepChar, decide_eq_true_iff, GoodChar]
  simp

/-- The loop keeps a character exactly where a good one is encoded. -/
theorem keepChar_iff (i : Nat) (hi : i < payload.length) :
    keepChar isprintable (decodeAt payload i (byteAt payload i)) = true ↔
      ∃ e, Utf8CharAt isprintable payload i e := by
  constructor
  · intro hk
    obtain ⟨hle, c, hc, hb⟩ := decodeAt_kept isprintable payload i hi hk
    have hlen := congrArg List.length hb
    rw [length_slice_of_le _ _ _ hle] at hlen
    rw [hc, keepChar_singleton] at hk
    exact ⟨_, c, hk, by omega, hb⟩
  · rintro ⟨e, ht⟩
    obtain ⟨hle, -, ⟨b, hb, -, he⟩, -⟩ := charAt_bytes (selfSync_utf8 isprintable) ht
    obtain ⟨c, hc, -, hbytes⟩ := ht
    have hlead : byteAt payload i = b.toNat := by
      rw [byteAt, List.getD_eq_getElem?_getD, hb, Option.getD_some]
    rw [decodeAt, hlead, ← he, hbytes,
      (decodeUtf8_eq_some_iff _ [c]).mpr (by simp [encodeUtf8]), Option.getD_some,
      keepChar_singleton]
    exact hc

/-- What the loop has found when it stands at `i`, with the current run at `st`. -/
structure ExactRuns (minimum st i : Nat) (results : List (Nat × PyStr)) : Prop where
  fresh : Fresh (Utf8CharAt isprintable payload) st
  chain : Chain (Utf8CharAt isprintable payload) st i
  exact : ∀ r, r ∈ results ↔
    r.1 < st ∧ minimum ≤ r.2.length ∧ MaximalUtf8 isprintable payload r.1 r.2

end

section
variable {isprintable : Char → Bool} {payload : Bytes}

theorem maximalUtf8_iff {i : Nat} {s : PyStr} (hs : s ≠ []) : MaximalUtf8 isprintable payload i s ↔
    ∃ j, i < j ∧ TextAt String.utf8EncodeChar (GoodChar isprintable) payload i j s ∧
      Maximal (Utf8CharAt isprintable payload) i j :=
  maximalText_iff (selfSync_utf8 isprintable) hs

theorem ne_nil_of_minimum {minimum : Nat} (hmin : 1 ≤ minimum) {s : PyStr} (h : minimum ≤ s.length) :
    s ≠ [] := by
  rintro rfl
  simp only [List.length_nil] at h
  omega

/-- A run that ends at `i`, where no character follows, is the maximal text at its start. -/
theorem run_maximal {minimum i s : Nat} {chars : List PyStr} {results : List (Nat × PyStr)}
    (h : RunInv payload minimum i (some s) chars results)
    (he : ExactRuns isprintable payload minimum s i results)
    (hno : ∀ e, ¬ Utf8CharAt isprintable payload i e) (t : PyStr) (ht : t ≠ []) :
    MaximalUtf8 isprintable payload s t ↔ t = chars.flatten := by
  have hsync := selfSync_utf8 isprintable
  have hopen := h.openRun s rfl
  have hle := hopen.le
  have hi := h.le
  obtain ⟨u, hu⟩ := (chain_iff_textAt hsync (by omega)).mp he.chain
  have hflat : u = chars.flatten := by
    have hbytes : encodeUtf8 u = encodeUtf8 chars.flatten := by
      rw [← hopen.bytes]
      exact hu.bytes.symm
    have hd := (decodeUtf8_eq_some_iff _ u).mpr hbytes
    rw [(decodeUtf8_eq_some_iff _ chars.flatten).mpr rfl, Option.some.injEq] at hd
    exact hd.symm
  rw [← hflat, maximalUtf8_iff ht]
  constructor
  · rintro ⟨j, -, htext, hm⟩
    obtain rfl := Maximal.stop_eq (separate_utf8 isprintable payload) hm he.chain hno
    exact textAt_unique hsync htext hu
  · rintro rfl
    have hlt := (hu.ne_nil_iff hsync).mp ht
    refine ⟨i, hlt, hu, ?_⟩
    rw [maximal_iff (separate_utf8 isprintable payload) hlt]
    refine ⟨he.chain, fun a ha => ?_, hno⟩
    have hlast := (separate_utf8 isprintable payload).lt ha
    have := he.fresh a s ha hlast
    omega

/-- No maximal text starts behind the start of the current run, up to a place
without a character. -/
theorem not_maximal_inside {minimum st i : Nat} {results : List (Nat × PyStr)}
    (he : ExactRuns isprintable payload minimum st i results)
    (hno : ∀ e, ¬ Utf8CharAt isprintable payload i e) {a : Nat} {t : PyStr} (ht : t ≠ [])
    (hm : MaximalUtf8 isprintable payload a t) (ha : st < a ∨ a = i) (hai : a ≤ i) : False := by
  obtain ⟨j, hlt, -, hmax⟩ := (maximalUtf8_iff ht).mp hm
  have hne : a ≠ i := by
    rintro rfl
    obtain ⟨e, htok⟩ := Chain.first hmax.chain hlt
    exact hno e htok
  exact Maximal.not_inside (separate_utf8 isprintable payload) hmax hlt he.chain (by omega) (by omega)

/-- Where no character follows, the results and the run just ended are all
maximal texts so far. -/
theorem ExactRuns.flush {minimum i : Nat} {start : Option Nat} {chars : List PyStr}
    {results : List (Nat × PyStr)} (hmin : 1 ≤ minimum)
    (h : RunInv payload minimum i start chars results)
    (he : ExactRuns isprintable payload minimum (start.getD i) i results)
    (hno : ∀ e, ¬ Utf8CharAt isprintable payload i e) (r : Nat × PyStr) :
    r ∈ flushRun minimum start chars results ↔
      r.1 < i + 1 ∧ minimum ≤ r.2.length ∧ MaximalUtf8 isprintable payload r.1 r.2 := by
  cases start with
  | none =>
    rw [flushRun, he.exact r]
    rw [Option.getD_none]
    constructor
    · rintro ⟨h1, h2, h3⟩
      exact ⟨by omega, h2, h3⟩
    · rintro ⟨h1, h2, h3⟩
      refine ⟨?_, h2, h3⟩
      by_contra hge
      exact not_maximal_inside he hno (ne_nil_of_minimum hmin h2) h3 (Or.inr (by omega)) (by omega)
  | some s =>
    rw [Option.getD_some] at he
    have hle := (h.openRun s rfl).le
    have hone := length_flatten_of_single chars (h.openRun s rfl).single
    -- a maximal text that starts up to `i` is an old one, or the run that just ended
    have hsplit : ∀ r : Nat × PyStr, minimum ≤ r.2.length → MaximalUtf8 isprintable payload r.1 r.2 →
        r.1 < i + 1 → r.1 < s ∨ r = (s, chars.flatten) := by
      intro r h2 h3 h1
      have hne := ne_nil_of_minimum hmin h2
      rcases Nat.lt_trichotomy r.1 s with hlt | heq | hgt
      · exact Or.inl hlt
      · rw [heq, run_maximal h he hno r.2 hne] at h3
        exact Or.inr (Prod.ext heq h3)
      · exact (not_maximal_inside he hno hne h3 (Or.inl hgt) (by omega)).elim
    simp only [flushRun]
    split
    · next hlong =>
      rw [List.mem_append, List.mem_singleton, he.exact r]
      constructor
      · rintro (⟨h1, h2, h3⟩ | rfl)
        · exact ⟨by omega, h2, h3⟩
        · have hnil := ne_nil_of_minimum hmin (by rw [hone]; exact hlong)
          exact ⟨Nat.lt_succ_of_le hle, by rw [hone]; exact hlong,
            (run_maximal h he hno chars.flatten hnil).mpr rfl⟩
      · rintro ⟨h1, h2, h3⟩
        rcases hsplit r h2 h3 h1 with hlt | heq
        · exact Or.inl ⟨hlt, h2, h3⟩
        · exact Or.inr heq
    · next hshort =>
      rw [he.exact r]
      constructor
      · rintro ⟨h1, h2, h3⟩
        exact ⟨by omega, h2, h3⟩
      · rintro ⟨h1, h2, h3⟩
        refine ⟨?_, h2, h3⟩
        rcases hsplit r h2 h3 h1 with hlt | rfl
        · exact hlt
        · rw [hone] at h2
          exact absurd h2 hshort

/-- At the end of the payload the runs are all the maximal texts. -/
theorem ExactRuns.ended {minimum i : Nat} {start : Option Nat} {chars : List PyStr}
    {results : List (Nat × PyStr)} (hmin : 1 ≤ minimum) (hi : payload.length ≤ i)
    (h : RunInv payload minimum i start chars results)
    (he : ExactRuns isprintable payload minimum (start.getD i) i results) (r : Nat × PyStr) :
    r ∈ flushRun minimum start chars results ↔
      minimum ≤ r.2.length ∧ MaximalUtf8 isprintable payload r.1 r.2 := by
  have hno : ∀ e, ¬ Utf8CharAt isprintable payload i e := by
    intro e ht
    obtain ⟨h1, h2, -⟩ := charAt_bytes (selfSync_utf8 isprintable) ht
    omega
  rw [he.flush hmin h hno]
  refine ⟨And.right, fun hr => ⟨?_, hr⟩⟩
  obtain ⟨j, ht, -⟩ := hr.2
  have hle := ht.le
  have hin := ht.inside
  omega

/-- A character makes the run longer. -/
theorem ExactRuns.decoded {minimum i : Nat} {start : Option Nat} {results : List (Nat × PyStr)}
    (he : ExactRuns isprintable payload minimum (start.getD i) i results) (hi : i < payload.length)
    (hk : keepChar isprintable (decodeAt payload i (byteAt payload i)) = true) :
    ExactRuns isprintable payload minimum (start.getD i) (i + leadWidth (byteAt payload i))
      results := by
  obtain ⟨hw, c, hc, hbytes⟩ := decodeAt_kept isprintable payload i hi hk
  refine ⟨he.fresh, .tail he.chain ?_, he.exact⟩
  have hlen := congrArg List.length hbytes
  rw [length_slice_of_le _ _ _ hw] at hlen
  rw [hc, keepChar_singleton] at hk
  exact ⟨c, hk, by omega, hbytes⟩

/-- Where there is no character the run ends. -/
theorem ExactRuns.reject {minimum i : Nat} {start : Option Nat} {chars : List PyStr}
    {results : List (Nat × PyStr)} (hmin : 1 ≤ minimum)
    (h : RunInv payload minimum i start chars results)
    (he : ExactRuns isprintable payload minimum (start.getD i) i results) (hi : i < payload.length)
    (hk : ¬ keepChar isprintable (decodeAt payload i (byteAt payload i)) = true) :
    ExactRuns isprintable payload minimum (i + 1) (i + 1) (flushRun minimum start chars results) := by
  have hno : ∀ e, ¬ Utf8CharAt isprintable payload i e := fun e ht =>
    hk ((keepChar_iff isprintable payload i hi).mpr ⟨e, ht⟩)
  exact ⟨he.fresh.succ (separate_utf8 isprintable payload) he.chain hno, .refl, he.flush hmin h hno⟩

/-- A sorted list of maximal texts. -/
theorem pairwise_apart {enc : Char → Bytes} {good : Char → Prop} {lead : UInt8 → Prop}
    {width : UInt8 → Nat} (h : SelfSync enc good lead width) {runs : List (Nat × PyStr)}
    (hsorted : runs.Pairwise fun a b => a.1 < b.1)
    (hall : ∀ r ∈ runs, r.2 ≠ [] ∧ MaximalText enc good payload r.1 r.2) :
    runs.Pairwise fun a b => a.1 + (a.2.flatMap enc).length < b.1 :=
  hsorted.imp_of_mem fun ha hb hlt =>
    (hall _ ha).2.apart h (hall _ ha).1 (hall _ hb).1 (hall _ hb).2 hlt

/-- What a round of the loop keeps. -/
def ExactInv (isprintable : Char → Bool) (payload : Bytes) (minimum i : Nat) (start : Option Nat)
    (chars : List PyStr) (results : List (Nat × PyStr)) : Prop :=
  RunInv payload minimum i start chars results ∧
    ExactRuns isprintable payload minimum (start.getD i) i results

/-- The runs of the pass are the maximal texts that are long enough. -/
theorem utf8Strings_maximal (isprintable : Char → Bool) (payload : Bytes) {minimum : Nat}
    (hmin : 1 ≤ minimum) :
    ∃ runs, utf8Strings isprintable payload minimum = .ok runs ∧
      ∀ r, r ∈ runs ↔ minimum ≤ r.2.length ∧ MaximalUtf8 isprintable payload r.1 r.2 := by
  have hstart : ExactInv isprintable payload minimum 0 none [] [] :=
    ⟨.start payload minimum, fun a e _ ha => absurd ha (Nat.not_lt_zero a), .refl, by simp⟩
  obtain ⟨i, start, chars, results, hi, ⟨h, he⟩, hrun⟩ :=
    utf8Loop_ends isprintable (ExactInv isprintable payload minimum)
      (fun _ _ _ _ hi h hk => ⟨h.1.decoded hi hk, h.2.decoded hi hk⟩)
      (fun _ _ _ _ hi h hk => ⟨h.1.reject hi, h.2.reject hmin h.1 hi hk⟩)
      _ 0 none [] [] (Nat.le_refl _) hstart
  exact ⟨_, hrun, he.ended hmin hi h⟩

end

/-- **The UTF-8 pass finds exactly the maximal printable texts**, in order: none
is split, none merged with the next, none starts inside a character. -/
theorem utf8_strings_exact (isprintable : Char → Bool) (payload : Bytes) {minimum : Nat}
    (hmin : 1 ≤ minimum) :
    ∃ runs, utf8Strings isprintable payload minimum = .ok runs ∧
      (∀ i s, (i, s) ∈ runs ↔ MaximalUtf8 isprintable payload i s ∧ minimum ≤ s.length) ∧
      runs.Pairwise (fun a b => a.1 + (encodeUtf8 a.2).length < b.1) ∧
      ∀ i s, (i, s) ∈ runs → ∃ b, payload[i]? = some b ∧ ¬ IsTail b := by
  have hsync := selfSync_utf8 isprintable
  obtain ⟨runs, hr, hall⟩ := utf8Strings_maximal isprintable payload hmin
  obtain ⟨runs', hr', -, hsorted⟩ := utf8Strings_spec isprintable payload minimum
  have hsame : runs' = runs := Except.ok.inj (hr'.symm.trans hr)
  rw [hsame] at hsorted
  have hne : ∀ r ∈ runs, r.2 ≠ [] ∧ MaximalUtf8 isprintable payload r.1 r.2 := fun r hm =>
    ⟨ne_nil_of_minimum hmin ((hall r).mp hm).1, ((hall r).mp hm).2⟩
  refine ⟨runs, hr, fun i s => (hall (i, s)).trans And.comm, pairwise_apart hsync hsorted hne, ?_⟩
  exact fun i s hm => (hne (i, s) hm).2.starts hsync (hne (i, s) hm).1

/-- Malformed, unprintable and multibyte characters around a run. -/
theorem utf8_strings_exact_cafe :
    let payload : Bytes := [0xFF, 110, 111, 0, 99, 97, 102, 0xC3, 0xA9, 9, 0, 101, 110, 100]
    utf8Strings (fun c => decide (0x20 ≤ c.toNat)) payload 4 = .ok [(4, "café\t".toList)] ∧
      MaximalUtf8 (fun c => decide (0x20 ≤ c.toNat)) payload 4 "café\t".toList := by
  intro payload
  have hval : utf8Strings (fun c => decide (0x20 ≤ c.toNat)) payload 4 =
      .ok [(4, "café\t".toList)] := by decide +kernel
  obtain ⟨runs, hr, hall, -⟩ := utf8_strings_exact (fun c => decide (0x20 ≤ c.toNat)) payload
    (show (1 : Nat) ≤ 4 by decide)
  rw [hval, Except.ok.injEq] at hr
  refine ⟨hval, ((hall _ _).mp ?_).1⟩
  rw [← hr]
  exact List.mem_singleton_self _

/-! ## UTF-16LE -/

/-- A byte of `[\x20-\x7e]` and a zero byte. -/
def pairEnc (c : Char) : Bytes := [UInt8.ofNat c.toNat, 0]

def AsciiPrintable (c : Char) : Prop := 0x20 ≤ c.toNat ∧ c.toNat ≤ 0x7E

section
variable (payload : Bytes)

abbrev PairAt : Nat → Nat → Prop := CharAt pairEnc AsciiPrintable payload

/-- Pairs at `i` that no larger segment of pairs contains. -/
abbrev MaximalPairs : Nat → PyStr → Prop := MaximalText pairEnc AsciiPrintable payload

theorem selfSync_pairs : SelfSync pairEnc AsciiPrintable (fun b => b ≠ 0) (fun _ => 2) where
  starts := by
    intro c hc
    refine ⟨_, _, rfl, ?_, ?_, rfl⟩
    · rw [ne_eq, ← UInt8.toNat_inj, UInt8.toNat_ofNat', UInt8.toNat_zero]
      unfold AsciiPrintable at hc
      omega
    · rw [List.forall_mem_singleton]
      exact fun h => h rfl
  inj := by
    intro c d hc hd he
    unfold AsciiPrintable at hc hd
    simp only [pairEnc, List.cons.injEq, and_true] at he
    rw [← UInt8.toNat_inj, UInt8.toNat_ofNat', UInt8.toNat_ofNat'] at he
    rw [← Char.toNat_inj]
    omega

theorem separate_pairs : Separate (PairAt payload) := separate_charAt selfSync_pairs payload

/-- Pairs of ASCII are UTF-16LE. -/
theorem encodeUtf16le_of_ascii {s : PyStr} (hs : ∀ c ∈ s, AsciiPrintable c) :
    encodeUtf16le s = s.flatMap pairEnc := by
  unfold encodeUtf16le
  refine List.flatMap_congr fun c hc => ?_
  have ha := hs c hc
  unfold AsciiPrintable at ha
  rw [encodeCharUtf16le, if_pos (by omega), unit16, Nat.mod_eq_of_lt (by omega),
    Nat.div_eq_of_lt (by omega)]
  rfl

theorem length_flatMap_pairEnc (s : PyStr) : (s.flatMap pairEnc).length = 2 * s.length := by
  rw [List.length_flatMap]
  show (s.map fun _ => 2).sum = _
  rw [List.map_const', List.sum_replicate_nat, Nat.mul_comm]

/-- Where pairs end, as many bytes behind the start as two for each. -/
theorem stop_of_pairs {i j : Nat} {s : PyStr} (h : TextAt pairEnc AsciiPrintable payload i j s) :
    j = i + 2 * s.length := by
  have hle := h.le
  have hlen := congrArg List.length h.bytes
  rw [length_slice_of_le _ _ _ h.inside, length_flatMap_pairEnc] at hlen
  omega

/-- A pair sits where the pattern of one does. -/
theorem pairAt_iff (p : Nat) : (∃ e, PairAt payload p e) ↔
    ∃ b rest, payload.drop p = b :: 0 :: rest ∧ 0x20 ≤ b ∧ b ≤ 0x7E := by
  have hval : ∀ c, AsciiPrintable c → (UInt8.ofNat c.toNat).toNat = c.toNat := by
    intro c hc
    unfold AsciiPrintable at hc
    rw [UInt8.toNat_ofNat']
    omega
  constructor
  · rintro ⟨e, c, hc, rfl, hb⟩
    refine ⟨UInt8.ofNat c.toNat, payload.drop (p + 2), ?_, ?_, ?_⟩
    · have hcut : payload.drop p = slice payload p (p + 2) ++ payload.drop (p + 2) := by
        rw [slice, List.drop_take, Nat.add_sub_cancel_left, ← List.drop_drop, List.take_append_drop]
      rw [hcut]
      show slice payload p (p + (pairEnc c).length) ++ _ = _
      rw [hb]
      rfl
    · rw [UInt8.le_iff_toNat_le, hval c hc]
      exact hc.1
    · rw [UInt8.le_iff_toNat_le, hval c hc]
      exact hc.2
  · rintro ⟨b, rest, hdrop, h1, h2⟩
    rw [UInt8.le_iff_toNat_le] at h1 h2
    have hc : (Char.ofNat b.toNat).toNat = b.toNat := by
      have hv : b.toNat.isValidChar := Or.inl (Nat.lt_of_le_of_lt h2 (by decide))
      rw [Char.ofNat, dif_pos hv]
      rfl
    refine ⟨p + 2, Char.ofNat b.toNat, ?_, rfl, ?_⟩
    · rw [AsciiPrintable, hc]
      exact ⟨h1, h2⟩
    · rw [slice, List.drop_take, hdrop, Nat.add_sub_cancel_left, pairEnc, hc, UInt8.ofNat_toNat]
      rfl

/-- **The pattern takes the pairs up to the first place without one.** -/
theorem pairRun_text : ∀ (bs : Bytes) (p : Nat), payload.drop p = bs → p ≤ payload.length →
    ∃ s, TextAt pairEnc AsciiPrintable payload p (p + 2 * pairRun bs) s ∧ s.length = pairRun bs ∧
      ∀ e, ¬ PairAt payload (p + 2 * pairRun bs) e := by
  have hstop : ∀ (bs : Bytes) (p : Nat), payload.drop p = bs → p ≤ payload.length → pairRun bs = 0 →
      (∀ e, ¬ PairAt payload p e) →
      ∃ s, TextAt pairEnc AsciiPrintable payload p (p + 2 * pairRun bs) s ∧ s.length = pairRun bs ∧
        ∀ e, ¬ PairAt payload (p + 2 * pairRun bs) e := by
    intro bs p _ hp h0 hno
    rw [h0]
    exact ⟨[], ⟨Nat.le_refl p, hp, slice_eq_nil _ _ _ (Nat.le_refl p), by simp⟩, rfl, hno⟩
  intro bs
  induction bs using pairRun.induct with
  | case1 b z rest h ih =>
    intro p hdrop hp
    have hlen := congrArg List.length hdrop
    rw [List.length_drop, List.length_cons, List.length_cons] at hlen
    have hrest : payload.drop (p + 2) = rest := by
      rw [← List.drop_drop, hdrop]
      rfl
    obtain ⟨s, hs, hslen, hno⟩ := ih (p + 2) hrest (by omega)
    have hz := h.2.2
    obtain ⟨e, c, hc, he, hb⟩ := (pairAt_iff payload p).mpr ⟨b, rest, by rw [hdrop, hz], h.1, h.2.1⟩
    obtain rfl : e = p + 2 := he
    have hone : TextAt pairEnc AsciiPrintable payload p (p + 2) [c] := by
      refine ⟨by omega, by omega, ?_, ?_⟩
      · rw [hb, List.flatMap_singleton]
      · rw [List.forall_mem_singleton]
        exact hc
    have heq : p + 2 * pairRun (b :: z :: rest) = p + 2 + 2 * pairRun rest := by
      rw [pairRun, if_pos h]
      omega
    rw [heq]
    refine ⟨c :: s, hone.append hs, ?_, hno⟩
    rw [List.length_cons, hslen, pairRun, if_pos h]
  | case2 b z rest h =>
    intro p hdrop hp
    refine hstop _ p hdrop hp (by rw [pairRun, if_neg h]) fun e ht => h ?_
    obtain ⟨b', rest', hd, h1, h2⟩ := (pairAt_iff payload p).mp ⟨e, ht⟩
    rw [hdrop, List.cons.injEq, List.cons.injEq] at hd
    obtain ⟨rfl, rfl, -⟩ := hd
    exact ⟨h1, h2, rfl⟩
  | case3 bs h =>
    intro p hdrop hp
    refine hstop bs p hdrop hp (by rw [pairRun]; exact h) fun e ht => ?_
    obtain ⟨b', rest', hd, -⟩ := (pairAt_iff payload p).mp ⟨e, ht⟩
    exact h b' 0 rest' (hdrop.symm.trans hd)

/-- Every text with enough pairs that starts before `n` ends there at the latest. -/
def Consumed (minimum n : Nat) : Prop :=
  ∀ a t, a < n → minimum ≤ t.length → MaximalPairs payload a t → a + 2 * t.length ≤ n

/-- A match: the place and the bytes of a maximal text with enough pairs. -/
def PairMatch (minimum : Nat) (m : Nat × Bytes) : Prop :=
  ∃ s, MaximalPairs payload m.1 s ∧ minimum ≤ s.length ∧ m.2 = s.flatMap pairEnc

theorem maximalPairs_iff {i : Nat} {s : PyStr} (hs : s ≠ []) : MaximalPairs payload i s ↔
    TextAt pairEnc AsciiPrintable payload i (i + 2 * s.length) s ∧
      Maximal (PairAt payload) i (i + 2 * s.length) := by
  unfold MaximalPairs
  rw [maximalText_iff selfSync_pairs hs]
  constructor
  · rintro ⟨j, -, ht, hm⟩
    obtain rfl := stop_of_pairs payload ht
    exact ⟨ht, hm⟩
  · rintro ⟨ht, hm⟩
    have hpos := List.length_pos_iff.mpr hs
    exact ⟨_, by omega, ht, hm⟩

end

section
variable {payload : Bytes} {p : Nat} {s : PyStr}
  (hs : TextAt pairEnc AsciiPrintable payload p (p + 2 * s.length) s)
  (hno : ∀ e, ¬ PairAt payload (p + 2 * s.length) e)
include hs hno

/-- The text at the start of a run that no pair follows is the run. -/
theorem maximalPairs_unique {t : PyStr} (ht : t ≠ []) (hm : MaximalPairs payload p t) : t = s := by
  obtain ⟨htext, hmax⟩ := (maximalPairs_iff payload ht).mp hm
  have hin := hs.inside
  have hchain := (chain_iff_textAt selfSync_pairs (by omega)).mpr ⟨s, hs⟩
  have hstop := Maximal.stop_eq (separate_pairs payload) hmax hchain hno
  rw [← hstop] at htext
  exact textAt_unique selfSync_pairs htext hs

/-- **A leftmost greedy match is maximal**: a pair before it would belong to a
text that was matched earlier, and that text would not end before it. -/
theorem greedy_maximal {minimum : Nat} (hmin : 1 ≤ minimum) (hlong : minimum ≤ s.length)
    (hc : Consumed payload minimum p) : MaximalPairs payload p s := by
  have hsep := separate_pairs payload
  have hin := hs.inside
  have hchain := (chain_iff_textAt selfSync_pairs (by omega)).mpr ⟨s, hs⟩
  rw [maximalPairs_iff payload (ne_nil_of_minimum hmin hlong), maximal_iff hsep (by omega)]
  refine ⟨hs, hchain, ?_, hno⟩
  intro a ha
  have hap := hsep.lt ha
  obtain ⟨i, j, hmax, hia, hpj⟩ := exists_maximal hsep
    (fun h => (charAt_bytes selfSync_pairs h).1) ha
  have hij := Chain.le hsep hmax.chain
  -- the text that holds the pair before `p` runs on to the end of the match
  have hleft := (Chain.split hsep hmax.chain ha hia (by omega)).1
  have hstop := Maximal.stop_eq hsep hmax ((hleft.tail ha).trans hchain) hno
  obtain ⟨t, ht⟩ := (chain_iff_textAt selfSync_pairs (by omega)).mp hmax.chain
  obtain rfl := stop_of_pairs payload ht
  have hne : t ≠ [] := by
    rw [ne_eq, ← List.length_eq_zero_iff]
    omega
  have hend := hc i t (by omega) (by omega) ((maximalPairs_iff payload hne).mpr ⟨ht, hmax⟩)
  omega

omit hno in
/-- No text starts inside a run. -/
theorem not_maximalPairs_inside {a : Nat} {t : PyStr} (ht : t ≠ []) (hpa : p < a)
    (has : a < p + 2 * s.length) : ¬ MaximalPairs payload a t := by
  intro hm
  obtain ⟨-, hmax⟩ := (maximalPairs_iff payload ht).mp hm
  have hpos := List.length_pos_iff.mpr ht
  have hin := hs.inside
  have hchain := (chain_iff_textAt selfSync_pairs (by omega)).mpr ⟨s, hs⟩
  exact Maximal.not_inside (separate_pairs payload) hmax (by omega) hchain hpa has

/-- A run is consumed by its match. -/
theorem Consumed.matched {minimum : Nat} (hmin : 1 ≤ minimum) (hc : Consumed payload minimum p) :
    Consumed payload minimum (p + 2 * s.length) := by
  intro a t ha ht hm
  have hne := ne_nil_of_minimum hmin ht
  rcases Nat.lt_trichotomy a p with hlt | rfl | hgt
  · have := hc a t hlt ht hm
    omega
  · rw [maximalPairs_unique hs hno hne hm]
  · exact absurd hm (not_maximalPairs_inside hs hne hgt ha)

/-- The text at `p`, if there is one, is the run, and too short. -/
theorem not_maximalPairs_of_short {minimum : Nat} (hmin : 1 ≤ minimum)
    (hshort : ¬ minimum ≤ s.length) {t : PyStr} (ht : minimum ≤ t.length) :
    ¬ MaximalPairs payload p t := by
  intro hm
  rw [maximalPairs_unique hs hno (ne_nil_of_minimum hmin ht) hm] at ht
  exact hshort ht

theorem Consumed.skipped {minimum : Nat} (hmin : 1 ≤ minimum) (hshort : ¬ minimum ≤ s.length)
    (hc : Consumed payload minimum p) : Consumed payload minimum (p + 1) := by
  intro a t ha ht hm
  have hne : a ≠ p := by
    rintro rfl
    exact not_maximalPairs_of_short hs hno hmin hshort ht hm
  have := hc a t (by omega) ht hm
  omega

/-- The matches from `p` on are the run at `p` and those behind it, -/
theorem pairMatch_matched {minimum : Nat} (hmin : 1 ≤ minimum) (hlong : minimum ≤ s.length)
    (hc : Consumed payload minimum p) (m : Nat × Bytes) :
    (p ≤ m.1 ∧ PairMatch payload minimum m) ↔
      m = (p, s.flatMap pairEnc) ∨ p + 2 * s.length ≤ m.1 ∧ PairMatch payload minimum m := by
  constructor
  · rintro ⟨hle, t, hm, ht, he⟩
    have hne := ne_nil_of_minimum hmin ht
    rcases Nat.eq_or_lt_of_le hle with heq | hlt
    · rw [← heq] at hm
      rw [maximalPairs_unique hs hno hne hm] at he
      exact Or.inl (Prod.ext heq.symm he)
    · refine Or.inr ⟨?_, t, hm, ht, he⟩
      by_contra hin
      exact not_maximalPairs_inside hs hne hlt (by omega) hm
  · rintro (rfl | ⟨hle, h⟩)
    · exact ⟨Nat.le_refl p, s, greedy_maximal hs hno hmin hlong hc, hlong, rfl⟩
    · exact ⟨by omega, h⟩

/-- or none at `p`, where the run is too short. -/
theorem pairMatch_skipped {minimum : Nat} (hmin : 1 ≤ minimum) (hshort : ¬ minimum ≤ s.length)
    (m : Nat × Bytes) :
    (p ≤ m.1 ∧ PairMatch payload minimum m) ↔ p + 1 ≤ m.1 ∧ PairMatch payload minimum m := by
  constructor
  · rintro ⟨hle, t, hm, ht, he⟩
    have hne : m.1 ≠ p := fun heq => not_maximalPairs_of_short hs hno hmin hshort ht (heq ▸ hm)
    exact ⟨by omega, t, hm, ht, he⟩
  · rintro ⟨hle, h⟩
    exact ⟨by omega, h⟩

end

section
variable {payload : Bytes}

/-- What the matches from `pos` on are, where `skip` bytes belong to the match before. -/
theorem finditerFrom_exact {pattern : Nat} (hmin : 1 ≤ pattern) : ∀ (bs : Bytes) (pos skip : Nat),
    payload.drop pos = bs → Consumed payload pattern (pos + skip) →
    ∀ m, m ∈ finditerFrom pattern pos skip bs ↔ pos + skip ≤ m.1 ∧ PairMatch payload pattern m := by
  intro bs
  induction bs with
  | nil =>
    intro pos skip hdrop _ m
    rw [finditerFrom]
    refine ⟨fun h => absurd h List.not_mem_nil, ?_⟩
    rintro ⟨hle, s, hm, hlong, -⟩
    have hend := ((maximalPairs_iff payload (ne_nil_of_minimum hmin hlong)).mp hm).1.inside
    rw [List.drop_eq_nil_iff] at hdrop
    omega
  | cons b bs ih =>
    intro pos skip hdrop hc m
    have htail : payload.drop (pos + 1) = bs := by
      rw [← List.drop_drop, hdrop, List.drop_succ_cons, List.drop_zero]
    have hpos : pos ≤ payload.length := by
      by_contra hlt
      rw [List.drop_eq_nil_of_le (by omega)] at hdrop
      exact absurd hdrop.symm (List.cons_ne_nil b bs)
    cases skip with
    | succ skip =>
      have hsum : pos + (skip + 1) = pos + 1 + skip := by omega
      rw [hsum] at hc ⊢
      rw [finditerFrom]
      exact ih (pos + 1) skip htail hc m
    | zero =>
      rw [Nat.add_zero] at hc ⊢
      obtain ⟨s, hs, hlen, hno⟩ := pairRun_text payload (b :: bs) pos hdrop hpos
      rw [← hlen] at hs hno
      rw [finditerFrom, ← hlen]
      by_cases hlong : pattern ≤ s.length
      · have hnext : pos + 1 + (2 * s.length - 1) = pos + 2 * s.length := by omega
        have hmatch : (b :: bs).take (2 * s.length) = s.flatMap pairEnc := by
          rw [← hs.bytes, slice, List.drop_take, hdrop, Nat.add_sub_cancel_left]
        rw [if_pos hlong, List.mem_cons,
          ih (pos + 1) (2 * s.length - 1) htail (hnext ▸ hc.matched hs hno hmin), hnext, hmatch]
        exact (pairMatch_matched hs hno hmin hlong hc m).symm
      · rw [if_neg hlong, ih (pos + 1) 0 htail (hc.skipped hs hno hmin hlong)]
        exact (pairMatch_skipped hs hno hmin hlong m).symm

/-- **The matches are the maximal runs of pairs that are long enough.** -/
theorem finditer_exact (payload : Bytes) {pattern : Nat} (hmin : 1 ≤ pattern) (m : Nat × Bytes) :
    m ∈ finditer pattern payload ↔
      ∃ s, MaximalPairs payload m.1 s ∧ pattern ≤ s.length ∧ m.2 = encodeUtf16le s := by
  rw [finditer, finditerFrom_exact hmin payload 0 0 rfl (fun a t ha => absurd ha (Nat.not_lt_zero a))]
  have hsame : ∀ s, MaximalPairs payload m.1 s → encodeUtf16le s = s.flatMap pairEnc := by
    rintro s ⟨j, ht, -⟩
    exact encodeUtf16le_of_ascii ht.good
  constructor
  · rintro ⟨-, s, hm, hlong, he⟩
    exact ⟨s, hm, hlong, he.trans (hsame s hm).symm⟩
  · rintro ⟨s, hm, hlong, he⟩
    exact ⟨Nat.zero_le _, s, hm, hlong, he.trans (hsame s hm)⟩

end

/-! ## Rows of the carver -/

section
variable (isprintable : Char → Bool) (data : Bytes)

theorem mem_utf8Runs (payload : Bytes) {minimum : Nat} (hmin : 1 ≤ minimum) (r : Nat × PyStr) :
    r ∈ utf8Runs isprintable payload minimum ↔
      MaximalUtf8 isprintable payload r.1 r.2 ∧ minimum ≤ r.2.length := by
  obtain ⟨runs, hr, hall⟩ := utf8Strings_maximal isprintable payload hmin
  rw [utf8Runs, hr]
  exact (hall r).trans And.comm

/-- The UTF-16LE rows of one array: the maximal runs of pairs in its payload, in
order and apart. -/
structure ExactUtf16 (minimum : Nat) (node : ArrayNode) (rows : List CarvedString) : Prop where
  exact : ∀ row, row ∈ rows ↔ ∃ i s, MaximalPairs (payloadOf data node) i s ∧ minimum ≤ s.length ∧
    row = makeString node .utf16le i s
  apart : rows.Pairwise fun a b => a.fileOffset + 2 * a.value.length < b.fileOffset

/-- The UTF-16LE part of the rows of an array. -/
theorem nodeRows_utf16 (minimum : Nat) (node : ArrayNode) (hn : node.hasRefs = false) :
    ((nodeRows isprintable data minimum node).filter fun row => decide (row.encoding = .utf16le)) =
      (finditer minimum (payloadOf data node)).map fun m =>
        makeString node .utf16le m.1 ((decodeUtf16le m.2).getD []) := by
  rw [nodeRows_eq, hn, if_neg Bool.false_ne_true, List.filter_append, List.filter_map,
    List.filter_map]
  have h8 : ∀ r ∈ utf8Runs isprintable (payloadOf data node) minimum,
      ¬ ((fun row : CarvedString => decide (row.encoding = .utf16le)) ∘
        fun r => makeString node .utf8 r.1 r.2) r = true := by
    intro r _
    simp [makeString]
  have h16 : ∀ m ∈ finditer minimum (payloadOf data node),
      ((fun row : CarvedString => decide (row.encoding = .utf16le)) ∘
        fun m => makeString node .utf16le m.1 ((decodeUtf16le m.2).getD [])) m = true := by
    intro m _
    simp [makeString]
  rw [List.filter_eq_nil_iff.mpr h8, List.filter_eq_self.mpr h16, List.map_nil, List.nil_append]

theorem exactUtf16_nodeRows {minimum : Nat} (hmin : 1 ≤ minimum) (node : ArrayNode)
    (hn : node.hasRefs = false) : ExactUtf16 data minimum node
      ((nodeRows isprintable data minimum node).filter fun row => decide (row.encoding = .utf16le)) := by
  rw [nodeRows_utf16 isprintable data minimum node hn]
  have hmem := fun m => finditer_exact (payloadOf data node) hmin m
  constructor
  · intro row
    simp only [List.mem_map, hmem]
    constructor
    · rintro ⟨m, ⟨s, hm, hlong, he⟩, rfl⟩
      rw [he, decodeUtf16le_encode, Option.getD_some]
      exact ⟨m.1, s, hm, hlong, rfl⟩
    · rintro ⟨i, s, hm, hlong, rfl⟩
      exact ⟨(i, encodeUtf16le s), ⟨s, hm, hlong, rfl⟩, by rw [decodeUtf16le_encode]; rfl⟩
  · rw [List.pairwise_map]
    refine (finditer_spec (payloadOf data node) minimum).2.imp_of_mem ?_
    intro a b ha hb hlt
    obtain ⟨s, hs, hlong, he⟩ := (hmem a).mp ha
    obtain ⟨t, ht, hlong', -⟩ := (hmem b).mp hb
    have hapart := hs.apart selfSync_pairs (ne_nil_of_minimum hmin hlong)
      (ne_nil_of_minimum hmin hlong') ht hlt
    rw [length_flatMap_pairEnc] at hapart
    rw [he, decodeUtf16le_encode, Option.getD_some]
    simp only [makeString]
    omega

end

/-- **The UTF-16LE rows are the maximal runs of pairs**, at either parity, and
the guard on the length of the file drops none: the rows of a list of arrays are
those of each array alone, and running the pass in spite of the guard gives the same. -/
theorem utf16_rows_exact (isprintable : Char → Bool) (data : Bytes) {nodes : List ArrayNode}
    {minimum : Nat} (hmin : 1 ≤ minimum) {rows : List CarvedString}
    (h : extractStrings isprintable data nodes minimum = .ok rows) :
    ∃ part : ArrayNode → List CarvedString, rows = nodes.flatMap part ∧ ∀ node,
      extractStrings isprintable data [node] minimum = .ok (part node) ∧
      nodeStrings isprintable data (some minimum) minimum node = .ok (part node) ∧
      (node.hasRefs = false →
        ExactUtf16 data minimum node ((part node).filter fun row => decide (row.encoding = .utf16le))) := by
  rw [extractStrings_eq] at h
  split at h
  · cases h
  · next ho =>
    rw [Except.ok.injEq] at h
    refine ⟨nodeRows isprintable data minimum, h.symm, fun node => ⟨?_, ?_, ?_⟩⟩
    · rw [extractStrings_eq, if_neg ho, List.flatMap_singleton]
    · exact nodeStrings_some isprintable data minimum node
    · exact exactUtf16_nodeRows isprintable data hmin node

/-- A run of pairs at an odd offset. -/
theorem utf16_rows_exact_odd :
    let data : Bytes := [65, 65, 65, 65, 4, 0, 0, 8, 1, 97, 0, 98, 0, 99, 0, 7]
    let node : ArrayNode := ⟨0, 16, 8, 8, 8, 0, false, false, false, [], .orphan⟩
    extractStrings Char.isAlpha data [node] 3 = .ok [⟨9, 0, .utf16le, "abc".toList, .orphan⟩] ∧
      ∃ part : ArrayNode → List CarvedString, part node = [⟨9, 0, .utf16le, "abc".toList, .orphan⟩] ∧
        ExactUtf16 data 3 node ((part node).filter fun row => decide (row.encoding = .utf16le)) := by
  intro data node
  have hrun : extractStrings Char.isAlpha data [node] 3 =
      .ok [⟨9, 0, .utf16le, "abc".toList, .orphan⟩] := by decide +kernel
  obtain ⟨part, hrows, hall⟩ := utf16_rows_exact Char.isAlpha data (by decide) hrun
  rw [List.flatMap_singleton] at hrows
  exact ⟨hrun, part, hrows.symm, (hall node).2.2 rfl⟩

/-! ## Raising the minimum -/

/-- A sorted list is known by its members. -/
theorem eq_filter_of_mem {α : Type} {l l' : List (Nat × α)} {p : Nat × α → Bool}
    (hl : l.Pairwise fun a b => a.1 < b.1) (hl' : l'.Pairwise fun a b => a.1 < b.1)
    (h : ∀ r, r ∈ l' ↔ r ∈ l ∧ p r = true) : l' = l.filter p := by
  have hirrefl : Std.Irrefl fun a b : Nat × α => a.1 < b.1 := ⟨fun a => Nat.lt_irrefl a.1⟩
  refine hl'.eq_of_mem_iff (hl.filter p) fun r => ?_
  rw [h, List.mem_filter]

section
variable (isprintable : Char → Bool)

theorem utf8Runs_sorted (payload : Bytes) (minimum : Nat) :
    (utf8Runs isprintable payload minimum).Pairwise fun a b => a.1 < b.1 := by
  obtain ⟨runs, hr, -, hsorted⟩ := utf8Strings_spec isprintable payload minimum
  rw [utf8Runs, hr]
  exact hsorted

theorem utf8Runs_raise (payload : Bytes) {m₁ m₂ : Nat} (h1 : 1 ≤ m₁) (h12 : m₁ ≤ m₂) :
    utf8Runs isprintable payload m₂ =
      (utf8Runs isprintable payload m₁).filter fun r => decide (m₂ ≤ r.2.length) := by
  refine eq_filter_of_mem (utf8Runs_sorted isprintable payload m₁)
    (utf8Runs_sorted isprintable payload m₂) fun r => ?_
  rw [mem_utf8Runs isprintable payload (by omega), mem_utf8Runs isprintable payload h1,
    decide_eq_true_iff]
  constructor
  · rintro ⟨hm, hlong⟩
    exact ⟨⟨hm, by omega⟩, hlong⟩
  · rintro ⟨⟨hm, -⟩, hlong⟩
    exact ⟨hm, hlong⟩

theorem finditer_raise (payload : Bytes) {m₁ m₂ : Nat} (h1 : 1 ≤ m₁) (h12 : m₁ ≤ m₂) :
    finditer m₂ payload = (finditer m₁ payload).filter fun m =>
      decide (m₂ ≤ ((decodeUtf16le m.2).getD []).length) := by
  refine eq_filter_of_mem (finditer_spec payload m₁).2 (finditer_spec payload m₂).2 fun m => ?_
  rw [finditer_exact payload (by omega), finditer_exact payload h1, decide_eq_true_iff]
  constructor
  · rintro ⟨s, hm, hlong, he⟩
    refine ⟨⟨s, hm, by omega, he⟩, ?_⟩
    rw [he, decodeUtf16le_encode, Option.getD_some]
    exact hlong
  · rintro ⟨⟨s, hm, -, he⟩, hlong⟩
    rw [he, decodeUtf16le_encode, Option.getD_some] at hlong
    exact ⟨s, hm, hlong, he⟩

theorem nodeRows_raise (data : Bytes) (node : ArrayNode) {m₁ m₂ : Nat} (h1 : 1 ≤ m₁)
    (h12 : m₁ ≤ m₂) : nodeRows isprintable data m₂ node =
      (nodeRows isprintable data m₁ node).filter fun row => decide (m₂ ≤ row.value.length) := by
  rw [nodeRows_eq, nodeRows_eq]
  cases node.hasRefs with
  | true => rfl
  | false =>
    rw [if_neg Bool.false_ne_true, if_neg Bool.false_ne_true, List.filter_append, List.filter_map,
      List.filter_map, utf8Runs_raise isprintable _ h1 h12, finditer_raise _ h1 h12]
    rfl

/-- **Raising the minimum only filters.** -/
theorem raising_minimum_filters {ε : Type} (m : Measures ε) (resolved digest : String) {data : Bytes}
    {header : RealmHeader} (h : parseHeader data = .ok (some header)) {m₁ m₂ : Nat} (h1 : 1 ≤ m₁)
    (h12 : m₁ ≤ m₂) {analysis₁ analysis₂ : Analysis ε} {strings₁ strings₂ : List CarvedString}
    (hrun₁ : analyzeMapping m isprintable resolved digest data (some m₁) = .ok (analysis₁, strings₁))
    (hrun₂ : analyzeMapping m isprintable resolved digest data (some m₂) = .ok (analysis₂, strings₂)) :
    strings₂ = strings₁.filter fun row => decide (m₂ ≤ row.value.length) := by
  rw [(analyzeMapping_ok m isprintable resolved digest h hrun₁).2,
    (analyzeMapping_ok m isprintable resolved digest h hrun₂).2]
  simp only [carved]
  rw [List.filter_flatMap]
  exact List.flatMap_congr fun node _ => nodeRows_raise isprintable data node h1 h12

end

/-- The text of `tinyRealm` has four characters: a minimum of 5 removes it. -/
theorem raising_minimum_filters_tiny :
    ∃ analysis₁ analysis₂ strings₁ strings₂,
      analyzeMapping ⟨(), fun _ => (), fun _ => false⟩ Char.isAlpha "/a.realm" "" tinyRealm (some 4) =
        .ok (analysis₁, strings₁) ∧
      analyzeMapping ⟨(), fun _ => (), fun _ => false⟩ Char.isAlpha "/a.realm" "" tinyRealm (some 5) =
        .ok (analysis₂, strings₂) ∧
      strings₁.length = 1 ∧ strings₂ = strings₁.filter fun row => decide (5 ≤ row.value.length) :=
  ⟨_, _, [⟨48, 40, .utf8, "text".toList, .active⟩], [], rfl, rfl, rfl,
    raising_minimum_filters Char.isAlpha ⟨(), fun _ => (), fun _ => false⟩ "/a.realm" ""
      parseHeader_tinyRealm (show 1 ≤ 4 by decide) (show 4 ≤ 5 by decide) rfl rfl⟩

end Pyrealm
