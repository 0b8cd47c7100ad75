import Pyrealm.Pool.PyCodec
import Pyrealm.Forensics.Models

/-!
# `_utf8_strings`, `_utf16le_pattern`, `_extract_strings`

`str.isprintable` is a parameter: a fixed predicate on code points.  The
matches of `re.finditer` are modelled directly: leftmost, greedy, not
overlapping.

* `utf8Strings_spec`: the loop ends; every run it returns is a segment of the
  payload that encodes its text, of enough characters, at increasing starts.
* `finditer_spec`: the same for the UTF-16LE matches; their decoding never fails.
* `extractStrings_eq`: where the pattern compiles, the rows of the arrays in order.
-/

namespace Pyrealm

open Py

/-! ## Algorithm -/

section
variable (isprintable : Char → Bool)

/-- `char and (char.isprintable() or char in "\t")` -/
def keepChar (char : PyStr) : Bool :=
  decide (char ≠ [] ∧ (char.all isprintable = true ∨ char = ['\t']))

/-- `if start is not None and len(chars) >= minimum: results.append(...)` -/
def flushRun (minimum : Nat) (start : Option Nat) (chars : List PyStr)
    (results : List (Nat × PyStr)) : List (Nat × PyStr) :=
  match start with
  | none => results
  | some s => if minimum ≤ chars.length then results ++ [(s, chars.flatten)] else results

/-- `payload[index : index + width].decode("utf-8")`, `""` on `UnicodeDecodeError`. -/
def decodeAt (payload : Bytes) (index lead : Nat) : PyStr :=
  (decodeUtf8 (slice payload index (index + leadWidth lead))).getD []

/-- `while index < len(payload)` -/
def utf8Loop (payload : Bytes) (minimum : Nat) :
    Nat → Nat → Option Nat → List PyStr → List (Nat × PyStr) → Except Exc (List (Nat × PyStr))
  | 0, i, start, chars, results =>
    if i < payload.length then .error .outOfFuel else .ok (flushRun minimum start chars results)
  | fuel + 1, i, start, chars, results =>
    if i < payload.length then do
      let lead ← index payload i
      let char := decodeAt payload i lead
      if keepChar isprintable char then
        utf8Loop payload minimum fuel (i + leadWidth lead) (some (start.getD i)) (chars ++ [char])
          results
      else
        utf8Loop payload minimum fuel (i + 1) none [] (flushRun minimum start chars results)
    else .ok (flushRun minimum start chars results)

def utf8Strings (payload : Bytes) (minimum : Nat) : Except Exc (List (Nat × PyStr)) :=
  utf8Loop isprintable payload minimum payload.length 0 none [] []

/-- The repetition count from which `re.compile` raises `OverflowError`. -/
def MAXREPEAT : Nat := 2 ^ 32 - 1

/-- `re.compile(rb"(?:[\x20-\x7e]\x00){%d,}" % minimum)`, represented by its count. -/
def utf16lePattern (minimum : Nat) : Except Exc Nat :=
  if MAXREPEAT ≤ minimum then .error .overflowError else .ok minimum

/-- Number of pairs `[\x20-\x7e]\x00` at the front. -/
def pairRun : Bytes → Nat
  | b :: z :: rest => if 0x20 ≤ b ∧ b ≤ 0x7E ∧ z = 0 then pairRun rest + 1 else 0
  | _ => 0

/-- Matches from `pos` on, `skip` of whose bytes belong to the match before. -/
def finditerFrom (pattern : Nat) : Nat → Nat → Bytes → List (Nat × Bytes)
  | _, _, [] => []
  | pos, skip + 1, _ :: bs => finditerFrom pattern (pos + 1) skip bs
  | pos, 0, b :: bs =>
    if pattern ≤ pairRun (b :: bs) then
      (pos, (b :: bs).take (2 * pairRun (b :: bs))) ::
        finditerFrom pattern (pos + 1) (2 * pairRun (b :: bs) - 1) bs
    else finditerFrom pattern (pos + 1) 0 bs

/-- `pattern.finditer(payload)` for a count of at least 1: `(start, group)` of each match. -/
def finditer (pattern : Nat) (payload : Bytes) : List (Nat × Bytes) := finditerFrom pattern 0 0 payload

/-- A row of the report. -/
def makeString (node : ArrayNode) (encoding : Encoding) (relativeOffset : Nat) (value : PyStr) :
    CarvedString :=
  ⟨node.offset + ARRAY_HEADER_SIZE + relativeOffset, node.offset, encoding, value, node.reachability⟩

/-- The row of a UTF-16LE match, `match.group().decode("utf-16le")` in it. -/
def matchRow (node : ArrayNode) (m : Nat × Bytes) : Except Exc CarvedString :=
  match decodeUtf16le m.2 with
  | some value => .ok (makeString node .utf16le m.1 value)
  | none => .error .unicodeError

/-- The loop body of `_extract_strings`. -/
def nodeStrings (data : Bytes) (pattern : Option Nat) (minimum : Nat) (node : ArrayNode) :
    Except Exc (List CarvedString) :=
  if node.hasRefs then .ok []
  else do
    let payloadStart := node.offset + ARRAY_HEADER_SIZE
    let payload := slice data payloadStart (payloadStart + node.payloadSize)
    let runs ← utf8Strings isprintable payload minimum
    let utf8 := runs.map fun r => makeString node .utf8 r.1 r.2
    match pattern with
    | none => .ok utf8
    | some pattern => do
      let utf16 ← (finditer pattern payload).mapM (matchRow node)
      .ok (utf8 ++ utf16)

def extractStrings (data : Bytes) (nodes : List ArrayNode) (minimum : Nat) :
    Except Exc (List CarvedString) := do
  let pattern ← if minimum ≤ data.length / 2 then (utf16lePattern minimum).map some else .ok none
  nodes.foldlM (fun strings node => do
    let rows ← nodeStrings isprintable data pattern minimum node
    .ok (strings ++ rows)) []

end

/-! ## UTF-8 runs -/

/-- `value` sits at `start` in `payload`, encoded as UTF-8, and is long enough. -/
structure Utf8Run (payload : Bytes) (minimum : Nat) (r : Nat × PyStr) : Prop where
  long : minimum ≤ r.2.length
  inside : r.1 + (encodeUtf8 r.2).length ≤ payload.length
  bytes : slice payload r.1 (r.1 + (encodeUtf8 r.2).length) = encodeUtf8 r.2

/-- The run being collected: single characters, encoded by `payload[start, i)`. -/
structure OpenRun (payload : Bytes) (i s : Nat) (chars : List PyStr) : Prop where
  le : s ≤ i
  single : ∀ c ∈ chars, c.length = 1
  bytes : slice payload s i = encodeUtf8 chars.flatten

structure RunInv (payload : Bytes) (minimum i : Nat) (start : Option Nat) (chars : List PyStr)
    (results : List (Nat × PyStr)) : Prop where
  le : i ≤ payload.length
  found : ∀ r ∈ results, Utf8Run payload minimum r
  sorted : results.Pairwise fun a b => a.1 < b.1
  below : ∀ r ∈ results, r.1 < start.getD i
  openRun : ∀ s, start = some s → OpenRun payload i s chars
  noRun : start = none → chars = []

theorem length_flatten_of_single (chars : List PyStr) (h : ∀ c ∈ chars, c.length = 1) :
    chars.flatten.length = chars.length := by
  induction chars with
  | nil => rfl
  | cons c chars ih =>
    rw [List.flatten_cons, List.length_append, h c List.mem_cons_self,
      ih (fun c hc => h c (List.mem_cons_of_mem _ hc)), List.length_cons]
    omega

theorem OpenRun.utf8Run {payload : Bytes} {minimum i s : Nat} {chars : List PyStr}
    (h : OpenRun payload i s chars) (hi : i ≤ payload.length) (hmin : minimum ≤ chars.length) :
    Utf8Run payload minimum (s, chars.flatten) := by
  have hle := h.le
  have hend : s + (encodeUtf8 chars.flatten).length = i := by
    rw [← h.bytes, length_slice_of_le _ _ _ hi]
    omega
  refine ⟨by rw [length_flatten_of_single chars h.single]; exact hmin, ?_, ?_⟩
  · rw [hend]; exact hi
  · rw [hend, h.bytes]

theorem RunInv.flush {payload : Bytes} {minimum i : Nat} {start : Option Nat} {chars : List PyStr}
    {results : List (Nat × PyStr)} (h : RunInv payload minimum i start chars results) :
    (∀ r ∈ flushRun minimum start chars results, Utf8Run payload minimum r) ∧
    (flushRun minimum start chars results).Pairwise (fun a b => a.1 < b.1) ∧
    ∀ r ∈ flushRun minimum start chars results, r.1 ≤ i := by
  cases start with
  | none => exact ⟨h.found, h.sorted, fun r hr => Nat.le_of_lt (h.below r hr)⟩
  | some s =>
    have ho := h.openRun s rfl
    have hold : ∀ r ∈ results, r.1 ≤ i := fun r hr => by
      have h1 := h.below r hr
      have h2 := ho.le
      simp only [Option.getD_some] at h1
      omega
    unfold flushRun
    simp only
    split
    · next hmin =>
      refine ⟨?_, ?_, ?_⟩
      · intro r hr
        rcases List.mem_append.mp hr with hr | hr
        · exact h.found r hr
        · rw [List.mem_singleton] at hr
          rw [hr]
          exact ho.utf8Run h.le hmin
      · rw [List.pairwise_append]
        refine ⟨h.sorted, List.pairwise_singleton _ _, fun a ha b hb => ?_⟩
        rw [List.mem_singleton] at hb
        rw [hb]
        exact h.below a ha
      · intro r hr
        rcases List.mem_append.mp hr with hr | hr
        · exact hold r hr
        · rw [List.mem_singleton] at hr
          rw [hr]
          exact ho.le
    · exact ⟨h.found, h.sorted, hold⟩

/-- A kept character is one code point, and the slice it was decoded from is
its encoding, whole. -/
theorem decodeAt_kept (isprintable : Char → Bool) (payload : Bytes) (i : Nat)
    (hi : i < payload.length)
    (hk : keepChar isprintable (decodeAt payload i (byteAt payload i)) = true) :
    i + leadWidth (byteAt payload i) ≤ payload.length ∧
    ∃ c, decodeAt payload i (byteAt payload i) = [c] ∧
      slice payload i (i + leadWidth (byteAt payload i)) = String.utf8EncodeChar c := by
  rw [keepChar, decide_eq_true_iff] at hk
  unfold decodeAt at hk ⊢
  have hw := leadWidth_pos (byteAt payload i)
  cases hd : decodeUtf8 (slice payload i (i + leadWidth (byteAt payload i))) with
  | none =>
    rw [hd] at hk
    exact absurd rfl hk.1
  | some s =>
    rw [hd, Option.getD_some] at hk
    rw [decodeUtf8_eq_some_iff] at hd
    cases s with
    | nil => exact absurd rfl hk.1
    | cons c s =>
      rw [encodeUtf8_cons] at hd
      -- the first byte of the slice is the lead byte
      obtain ⟨b, bs, hb⟩ := List.exists_cons_of_ne_nil (show String.utf8EncodeChar c ≠ [] by
        intro h
        have hl := congrArg List.length h
        rw [String.length_utf8EncodeChar] at hl
        have hp := c.utf8Size_pos
        simp at hl
        omega)
      have hlead : b.toNat = byteAt payload i := by
        have h0 := congrArg (fun l : Bytes => l[0]?) hd
        simp only [hb, List.cons_append, List.getElem?_cons_zero, getElem?_slice, Nat.add_zero] at h0
        rw [if_pos (by omega), List.getElem?_eq_getElem hi, Option.some.injEq] at h0
        rw [byteAt, List.getD_eq_getElem?_getD, List.getElem?_eq_getElem hi, Option.getD_some, ← h0]
      have hsize := leadWidth_encode c b bs hb
      rw [hlead] at hsize
      have hlen := congrArg List.length hd
      rw [List.length_append, String.length_utf8EncodeChar, length_slice] at hlen
      have hnil : encodeUtf8 s = [] := by
        apply List.eq_nil_of_length_eq_zero
        omega
      have hs : s = [] := by
        cases s with
        | nil => rfl
        | cons c' s =>
          have hp := c'.utf8Size_pos
          rw [encodeUtf8_cons] at hnil
          have hl := congrArg List.length hnil
          rw [List.length_append, String.length_utf8EncodeChar] at hl
          simp at hl
          omega
      subst hs
      refine ⟨by omega, c, rfl, ?_⟩
      rw [← hd, hnil, List.append_nil]

theorem RunInv.keep {payload : Bytes} {minimum i w : Nat} {start : Option Nat} {chars : List PyStr}
    {results : List (Nat × PyStr)} {c : Char} (h : RunInv payload minimum i start chars results)
    (hw : i + w ≤ payload.length) (hc : slice payload i (i + w) = String.utf8EncodeChar c) :
    RunInv payload minimum (i + w) (some (start.getD i)) (chars ++ [[c]]) results where
  le := hw
  found := h.found
  sorted := h.sorted
  below := h.below
  openRun := by
    rintro s hs
    rw [Option.some.injEq] at hs
    subst hs
    have hone : ∀ c' ∈ [[c]], c'.length = 1 := by simp
    cases start with
    | none =>
      rw [h.noRun rfl]
      exact ⟨Nat.le_add_right _ _, hone, by simp [hc, encodeUtf8]⟩
    | some s =>
      have ho := h.openRun s rfl
      have hle := ho.le
      refine ⟨by simp only [Option.getD_some]; omega, ?_, ?_⟩
      · intro c' hc'
        rcases List.mem_append.mp hc' with hc' | hc'
        · exact ho.single c' hc'
        · exact hone c' hc'
      · rw [Option.getD_some, ← slice_append payload s i (i + w) hle (by omega), ho.bytes, hc,
          List.flatten_append, encodeUtf8_append]
        simp [encodeUtf8]
  noRun := by simp

theorem RunInv.reject {payload : Bytes} {minimum i : Nat} {start : Option Nat} {chars : List PyStr}
    {results : List (Nat × PyStr)} (h : RunInv payload minimum i start chars results)
    (hi : i < payload.length) :
    RunInv payload minimum (i + 1) none [] (flushRun minimum start chars results) where
  le := hi
  found := h.flush.1
  sorted := h.flush.2.1
  below := fun r hr => Nat.lt_succ_of_le (h.flush.2.2 r hr)
  openRun := by simp
  noRun := fun _ => rfl

theorem RunInv.start (payload : Bytes) (minimum : Nat) : RunInv payload minimum 0 none [] [] :=
  ⟨Nat.zero_le _, by simp, List.Pairwise.nil, by simp, by simp, fun _ => rfl⟩

theorem RunInv.decoded {isprintable : Char → Bool} {payload : Bytes} {minimum i : Nat}
    {start : Option Nat} {chars : List PyStr} {results : List (Nat × PyStr)}
    (h : RunInv payload minimum i start chars results) (hi : i < payload.length)
    (hk : keepChar isprintable (decodeAt payload i (byteAt payload i)) = true) :
    RunInv payload minimum (i + leadWidth (byteAt payload i)) (some (start.getD i))
      (chars ++ [decodeAt payload i (byteAt payload i)]) results := by
  obtain ⟨hw, c, hc, hbytes⟩ := decodeAt_kept isprintable payload i hi hk
  rw [hc]
  exact h.keep hw hbytes

/-- **The loop ends**, and what its rounds keep holds there. -/
theorem utf8Loop_ends (isprintable : Char → Bool) {payload : Bytes} {minimum : Nat}
    (keeps : Nat → Option Nat → List PyStr → List (Nat × PyStr) → Prop)
    (hkept : ∀ i start chars results, i < payload.length → keeps i start chars results →
      keepChar isprintable (decodeAt payload i (byteAt payload i)) = true →
      keeps (i + leadWidth (byteAt payload i)) (some (start.getD i))
        (chars ++ [decodeAt payload i (byteAt payload i)]) results)
    (hrejected : ∀ i start chars results, i < payload.length → keeps i start chars results →
      ¬ keepChar isprintable (decodeAt payload i (byteAt payload i)) = true →
      keeps (i + 1) none [] (flushRun minimum start chars results)) :
    ∀ (fuel i : Nat) (start : Option Nat) (chars : List PyStr) (results : List (Nat × PyStr)),
      payload.length - i ≤ fuel → keeps i start chars results →
      ∃ i' start' chars' results', payload.length ≤ i' ∧ keeps i' start' chars' results' ∧
        utf8Loop isprintable payload minimum fuel i start chars results =
          .ok (flushRun minimum start' chars' results') := by
  intro fuel
  induction fuel with
  | zero =>
    intro i start chars results hf h
    exact ⟨i, start, chars, results, by omega, h, if_neg (by omega)⟩
  | succ fuel ih =>
    intro i start chars results hf h
    rw [utf8Loop]
    by_cases hi : i < payload.length
    · rw [if_pos hi, index_eq_byteAt payload i hi]
      simp only [ok_bind]
      have hpos := leadWidth_pos (byteAt payload i)
      by_cases hk : keepChar isprintable (decodeAt payload i (byteAt payload i)) = true
      · rw [if_pos hk]
        exact ih _ _ _ _ (by omega) (hkept i start chars results hi h hk)
      · rw [if_neg hk]
        exact ih _ _ _ _ (by omega) (hrejected i start chars results hi h hk)
    · rw [if_neg hi]
      exact ⟨i, start, chars, results, by omega, h, rfl⟩

/-- **Every run is text of the payload**, and the loop ends. -/
theorem utf8Strings_spec (isprintable : Char → Bool) (payload : Bytes) (minimum : Nat) :
    ∃ runs, utf8Strings isprintable payload minimum = .ok runs ∧
      (∀ r ∈ runs, Utf8Run payload minimum r) ∧ runs.Pairwise fun a b => a.1 < b.1 := by
  obtain ⟨i, start, chars, results, -, h, hrun⟩ :=
    utf8Loop_ends isprintable (RunInv payload minimum) (fun _ _ _ _ hi h hk => h.decoded hi hk)
      (fun _ _ _ _ hi h _ => h.reject hi) _ 0 none [] [] (Nat.le_refl _) (.start payload minimum)
  exact ⟨_, hrun, h.flush.1, h.flush.2.1⟩

/-! ## UTF-16LE matches -/

/-- `value` sits at `start` in `payload`, encoded as UTF-16LE, and is long enough. -/
structure Utf16Match (payload : Bytes) (minimum : Nat) (m : Nat × Bytes) (value : PyStr) : Prop where
  long : minimum ≤ value.length
  inside : m.1 + m.2.length ≤ payload.length
  bytes : slice payload m.1 (m.1 + m.2.length) = m.2
  encoded : m.2 = encodeUtf16le value

theorem two_mul_pairRun_le (bs : Bytes) : 2 * pairRun bs ≤ bs.length := by
  induction bs using pairRun.induct with
  | case1 b z rest h ih =>
    rw [pairRun, if_pos h, List.length_cons, List.length_cons]
    omega
  | case2 b z rest h =>
    rw [pairRun, if_neg h]
    omega
  | case3 bs h =>
    rw [pairRun]
    · omega
    · exact h

/-- A run of pairs is the encoding of as many characters. -/
theorem take_pairRun (bs : Bytes) :
    ∃ value : PyStr, value.length = pairRun bs ∧ bs.take (2 * pairRun bs) = encodeUtf16le value := by
  induction bs using pairRun.induct with
  | case1 b z rest h ih =>
    obtain ⟨value, hlen, hv⟩ := ih
    obtain ⟨h1, h2, rfl⟩ := h
    have hb1 : 32 ≤ b.toNat := UInt8.le_iff_toNat_le.mp h1
    have hb2 : b.toNat ≤ 126 := UInt8.le_iff_toNat_le.mp h2
    have hc : (Char.ofNat b.toNat).toNat = b.toNat := by
      have hv : b.toNat.isValidChar := Or.inl (by omega)
      rw [Char.ofNat, dif_pos hv]
      rfl
    refine ⟨Char.ofNat b.toNat :: value, ?_, ?_⟩
    · rw [pairRun, if_pos ⟨h1, h2, rfl⟩, List.length_cons, hlen]
    · rw [pairRun, if_pos ⟨h1, h2, rfl⟩, Nat.mul_add, List.take_succ_cons, List.take_succ_cons, hv,
        encodeUtf16le_cons, encodeCharUtf16le, hc, if_pos (by omega), unit16,
        Nat.mod_eq_of_lt (by omega), Nat.div_eq_of_lt (by omega), UInt8.ofNat_toNat]
      rfl
  | case2 b z rest h =>
    rw [pairRun, if_neg h]
    exact ⟨[], rfl, rfl⟩
  | case3 bs h =>
    have h0 : pairRun bs = 0 := by
      rw [pairRun]
      exact h
    rw [h0]
    exact ⟨[], rfl, rfl⟩

/-- What `finditerFrom` returns on the suffix of `payload` that starts at `pos`. -/
theorem finditerFrom_spec (payload : Bytes) (pattern : Nat) : ∀ (bs : Bytes) (pos skip : Nat),
    payload.drop pos = bs →
    (∀ m ∈ finditerFrom pattern pos skip bs, pos + skip ≤ m.1 ∧
      ∃ value, Utf16Match payload pattern m value) ∧
    (finditerFrom pattern pos skip bs).Pairwise fun a b => a.1 < b.1 := by
  intro bs
  induction bs with
  | nil =>
    intro pos skip _
    rw [finditerFrom]
    exact ⟨by simp, List.Pairwise.nil⟩
  | cons b bs ih =>
    intro pos skip hdrop
    have htail : payload.drop (pos + 1) = bs := by
      rw [← List.drop_drop, hdrop, List.drop_succ_cons, List.drop_zero]
    cases skip with
    | succ skip =>
      rw [finditerFrom]
      obtain ⟨h1, h2⟩ := ih (pos + 1) skip htail
      exact ⟨fun m hm => ⟨by have := (h1 m hm).1; omega, (h1 m hm).2⟩, h2⟩
    | zero =>
      rw [finditerFrom]
      split
      · next hp =>
        obtain ⟨h1, h2⟩ := ih (pos + 1) (2 * pairRun (b :: bs) - 1) htail
        obtain ⟨value, hlen, hv⟩ := take_pairRun (b :: bs)
        have hle := two_mul_pairRun_le (b :: bs)
        have hsub : (b :: bs).length = payload.length - pos := by rw [← hdrop, List.length_drop]
        have hpos : 0 < (b :: bs).length := by simp
        have htake : ((b :: bs).take (2 * pairRun (b :: bs))).length = 2 * pairRun (b :: bs) := by
          rw [List.length_take, Nat.min_eq_left hle]
        refine ⟨?_, ?_⟩
        · intro m hm
          rcases List.mem_cons.mp hm with rfl | hm
          · refine ⟨Nat.le_refl _, value, by rw [hlen]; exact hp, ?_, ?_, hv⟩
            · simp only [htake]
              omega
            · simp only [htake]
              rw [slice, List.drop_take, hdrop, Nat.add_sub_cancel_left]
          · exact ⟨by have := (h1 m hm).1; omega, (h1 m hm).2⟩
        · rw [List.pairwise_cons]
          refine ⟨fun m hm => ?_, h2⟩
          have := (h1 m hm).1
          simp only
          omega
      · obtain ⟨h1, h2⟩ := ih (pos + 1) 0 htail
        exact ⟨fun m hm => ⟨by have := (h1 m hm).1; omega, (h1 m hm).2⟩, h2⟩

/-- **Every match is text of the payload**, and no two start at one place. -/
theorem finditer_spec (payload : Bytes) (pattern : Nat) :
    (∀ m ∈ finditer pattern payload, ∃ value, Utf16Match payload pattern m value) ∧
    (finditer pattern payload).Pairwise fun a b => a.1 < b.1 := by
  obtain ⟨h1, h2⟩ := finditerFrom_spec payload pattern payload 0 0 rfl
  exact ⟨fun m hm => (h1 m hm).2, h2⟩

/-- A count the payload is too short for has no match. -/
theorem finditer_eq_nil (payload : Bytes) (pattern : Nat) (h : payload.length < 2 * pattern) :
    finditer pattern payload = [] := by
  apply List.eq_nil_iff_forall_not_mem.mpr
  intro m hm
  obtain ⟨value, hv⟩ := (finditer_spec payload pattern).1 m hm
  have hin := hv.inside
  have hlong := hv.long
  have hlen : ∀ v : PyStr, 2 * v.length ≤ (encodeUtf16le v).length := by
    intro v
    induction v with
    | nil => simp
    | cons c v ih =>
      rw [encodeUtf16le_cons, List.length_append, encodeCharUtf16le, List.length_cons]
      split
      · simp only [unit16, List.length_cons, List.length_nil]
        omega
      · simp only [unit16, List.length_append, List.length_cons, List.length_nil]
        omega
  have h2 := hlen value
  rw [← hv.encoded] at h2
  omega

/-! ## Rows -/

def encodeAs : Encoding → PyStr → Bytes
  | .utf8 => encodeUtf8
  | .utf16le => encodeUtf16le

/-- A row that describes bytes of the payload of `node`. -/
structure RowOf (data : Bytes) (minimum : Nat) (node : ArrayNode) (row : CarvedString) : Prop where
  noRefs : node.hasRefs = false
  array : row.arrayOffset = node.offset
  label : row.reachability = node.reachability
  long : minimum ≤ row.value.length
  start : node.offset + 8 ≤ row.fileOffset
  stop : row.fileOffset + (encodeAs row.encoding row.value).length ≤ node.offset + 8 + node.payloadSize
  bytes : slice data row.fileOffset (row.fileOffset + (encodeAs row.encoding row.value).length) =
    encodeAs row.encoding row.value

/-- The payload of an array, as `_extract_strings` slices it. -/
def payloadOf (data : Bytes) (node : ArrayNode) : Bytes :=
  slice data (node.offset + 8) (node.offset + 8 + node.payloadSize)

/-- Text inside the payload is text of the file. -/
theorem rowOf_makeString {data : Bytes} {minimum : Nat} {node : ArrayNode} {encoding : Encoding}
    {r : Nat} {value : PyStr} (hn : node.hasRefs = false) (hlong : minimum ≤ value.length)
    (hin : r + (encodeAs encoding value).length ≤ (payloadOf data node).length)
    (hbytes : slice (payloadOf data node) r (r + (encodeAs encoding value).length) =
      encodeAs encoding value) :
    RowOf data minimum node (makeString node encoding r value) := by
  have hlen : (payloadOf data node).length ≤ node.payloadSize := by
    rw [payloadOf, length_slice]
    omega
  refine ⟨hn, rfl, rfl, hlong, Nat.le_add_right _ _, ?_, ?_⟩
  · simp only [makeString, ARRAY_HEADER_SIZE]
    omega
  · simp only [makeString, ARRAY_HEADER_SIZE]
    rw [payloadOf, slice_slice _ _ _ _ _ (by omega)] at hbytes
    rw [Nat.add_assoc (node.offset + 8)]
    exact hbytes

section
variable (isprintable : Char → Bool)

theorem matchRow_finditer (data : Bytes) (pattern : Nat) (node : ArrayNode) :
    ∀ m ∈ finditer pattern (payloadOf data node),
      matchRow node m = .ok (makeString node .utf16le m.1 ((decodeUtf16le m.2).getD [])) := by
  intro m hm
  obtain ⟨value, hv⟩ := (finditer_spec (payloadOf data node) pattern).1 m hm
  rw [matchRow, hv.encoded, decodeUtf16le_encode]
  rfl

/-- The UTF-16LE rows of an array: every match decodes. -/
theorem utf16Rows_spec (data : Bytes) (pattern : Nat) (node : ArrayNode) (hn : node.hasRefs = false) :
    ∃ rows, (finditer pattern (payloadOf data node)).mapM (matchRow node) = .ok rows ∧
      (∀ row ∈ rows, row.encoding = .utf16le ∧ RowOf data pattern node row) ∧
      rows.Pairwise fun a b => a.fileOffset < b.fileOffset := by
  obtain ⟨h1, h2⟩ := finditer_spec (payloadOf data node) pattern
  refine ⟨_, mapM_eq_ok _ _ _ (matchRow_finditer data pattern node), ?_, ?_⟩
  · intro row hrow
    rw [List.mem_map] at hrow
    obtain ⟨m, hm, rfl⟩ := hrow
    obtain ⟨value, hv⟩ := h1 m hm
    refine ⟨rfl, ?_⟩
    have hin := hv.inside
    have hb := hv.bytes
    rw [hv.encoded] at hin hb ⊢
    rw [decodeUtf16le_encode, Option.getD_some]
    exact rowOf_makeString hn hv.long hin hb
  · rw [List.pairwise_map]
    exact h2.imp fun {a b} hab => by simp only [makeString]; omega

theorem utf8Rows_spec (data : Bytes) (minimum : Nat) (node : ArrayNode) (hn : node.hasRefs = false) :
    ∃ runs, utf8Strings isprintable (payloadOf data node) minimum = .ok runs ∧
      (∀ row ∈ runs.map (fun r => makeString node .utf8 r.1 r.2),
        row.encoding = .utf8 ∧ RowOf data minimum node row) ∧
      (runs.map fun r => makeString node .utf8 r.1 r.2).Pairwise
        fun a b => a.fileOffset < b.fileOffset := by
  obtain ⟨runs, hr, h1, h2⟩ := utf8Strings_spec isprintable (payloadOf data node) minimum
  refine ⟨runs, hr, ?_, ?_⟩
  · intro row hrow
    rw [List.mem_map] at hrow
    obtain ⟨r, hm, rfl⟩ := hrow
    have hu := h1 r hm
    exact ⟨rfl, rowOf_makeString hn hu.long hu.inside hu.bytes⟩
  · rw [List.pairwise_map]
    exact h2.imp fun {a b} hab => by simp only [makeString]; omega

/-- The key that tells two rows of one array apart. -/
def rowKey (row : CarvedString) : Nat × Encoding × Nat :=
  (row.arrayOffset, row.encoding, row.fileOffset)

theorem nodup_rowKey_of_pairwise (rows : List CarvedString)
    (h : rows.Pairwise fun a b => a.fileOffset < b.fileOffset) : (rows.map rowKey).Nodup := by
  rw [List.Nodup, List.pairwise_map]
  exact h.imp fun {a b} hab he => by
    simp only [rowKey, Prod.mk.injEq] at he
    omega

theorem nodeStrings_spec (data : Bytes) (pattern : Option Nat) (minimum : Nat) (node : ArrayNode)
    (hp : ∀ p, pattern = some p → p = minimum) :
    ∃ rows, nodeStrings isprintable data pattern minimum node = .ok rows ∧
      (∀ row ∈ rows, RowOf data minimum node row) ∧ (rows.map rowKey).Nodup := by
  unfold nodeStrings
  cases hn : node.hasRefs with
  | true => exact ⟨[], rfl, by simp, List.nodup_nil⟩
  | false =>
    obtain ⟨runs, hr, h1, h2⟩ := utf8Rows_spec isprintable data minimum node hn
    have hpay : slice data (node.offset + ARRAY_HEADER_SIZE)
        (node.offset + ARRAY_HEADER_SIZE + node.payloadSize) = payloadOf data node := rfl
    simp only [Bool.false_eq_true, if_false, hpay, hr, ok_bind]
    cases pattern with
    | none => exact ⟨_, rfl, fun row hrow => (h1 row hrow).2, nodup_rowKey_of_pairwise _ h2⟩
    | some p =>
      obtain rfl := hp p rfl
      obtain ⟨rows, hrows, h3, h4⟩ := utf16Rows_spec data p node hn
      simp only [hrows, ok_bind]
      refine ⟨_, rfl, ?_, ?_⟩
      · intro row hrow
        rcases List.mem_append.mp hrow with hrow | hrow
        · exact (h1 row hrow).2
        · exact (h3 row hrow).2
      · rw [List.map_append, List.nodup_append]
        refine ⟨nodup_rowKey_of_pairwise _ h2, nodup_rowKey_of_pairwise _ h4, ?_⟩
        -- the two halves differ in the encoding
        intro a ha b hb he
        obtain ⟨ra, hra, rfl⟩ := List.mem_map.mp ha
        obtain ⟨rb, hrb, rfl⟩ := List.mem_map.mp hb
        have hea := (h1 ra hra).1
        have heb := (h3 rb hrb).1
        simp only [rowKey, Prod.mk.injEq] at he
        rw [hea, heb] at he
        exact Encoding.noConfusion he.2.1

/-- The runs `_utf8_strings` returns. -/
def utf8Runs (payload : Bytes) (minimum : Nat) : List (Nat × PyStr) :=
  match utf8Strings isprintable payload minimum with
  | .ok runs => runs
  | .error _ => []

/-- The rows of one array, without the guard on the length of the file. -/
def nodeRows (data : Bytes) (minimum : Nat) (node : ArrayNode) : List CarvedString :=
  match nodeStrings isprintable data (some minimum) minimum node with
  | .ok rows => rows
  | .error _ => []

theorem nodeStrings_some (data : Bytes) (minimum : Nat) (node : ArrayNode) :
    nodeStrings isprintable data (some minimum) minimum node =
      .ok (nodeRows isprintable data minimum node) := by
  obtain ⟨rows, hr, -⟩ := nodeStrings_spec isprintable data (some minimum) minimum node
    (fun p hp => (Option.some.inj hp).symm)
  rw [nodeRows, hr]

/-- **The guard drops nothing**: a file too short for a match has none. -/
theorem nodeStrings_none (data : Bytes) (minimum : Nat) (node : ArrayNode)
    (h : data.length / 2 < minimum) :
    nodeStrings isprintable data none minimum node = .ok (nodeRows isprintable data minimum node) := by
  rw [← nodeStrings_some]
  unfold nodeStrings
  split
  · rfl
  · have hshort : finditer minimum (slice data (node.offset + ARRAY_HEADER_SIZE)
        (node.offset + ARRAY_HEADER_SIZE + node.payloadSize)) = [] := by
      apply finditer_eq_nil
      rw [length_slice]
      omega
    simp only [hshort]
    cases utf8Strings isprintable (slice data (node.offset + ARRAY_HEADER_SIZE)
        (node.offset + ARRAY_HEADER_SIZE + node.payloadSize)) minimum with
    | error e => rfl
    | ok runs =>
      simp only [ok_bind]
      show _ = Except.ok (_ ++ [])
      rw [List.append_nil]

theorem nodeRows_spec (data : Bytes) (minimum : Nat) (node : ArrayNode) :
    (∀ row ∈ nodeRows isprintable data minimum node, RowOf data minimum node row) ∧
    ((nodeRows isprintable data minimum node).map rowKey).Nodup := by
  obtain ⟨rows, hr, h1, h2⟩ := nodeStrings_spec isprintable data (some minimum) minimum node
    (fun p hp => (Option.some.inj hp).symm)
  rw [nodeStrings_some, Except.ok.injEq] at hr
  rw [hr]
  exact ⟨h1, h2⟩

/-- The rows of an array, spelled out. -/
theorem nodeRows_eq (data : Bytes) (minimum : Nat) (node : ArrayNode) :
    nodeRows isprintable data minimum node =
      if node.hasRefs then []
      else ((utf8Runs isprintable (payloadOf data node) minimum).map fun r =>
          makeString node .utf8 r.1 r.2) ++
        (finditer minimum (payloadOf data node)).map fun m =>
          makeString node .utf16le m.1 ((decodeUtf16le m.2).getD []) := by
  have h := nodeStrings_some isprintable data minimum node
  unfold nodeStrings at h
  cases hn : node.hasRefs with
  | true =>
    rw [hn, if_pos rfl, Except.ok.injEq] at h
    rw [← h, if_pos rfl]
  | false =>
    obtain ⟨runs, hr, -, -⟩ := utf8Strings_spec isprintable (payloadOf data node) minimum
    obtain ⟨rows, hrows, -, -⟩ := utf16Rows_spec data minimum node hn
    have hpay : slice data (node.offset + ARRAY_HEADER_SIZE)
        (node.offset + ARRAY_HEADER_SIZE + node.payloadSize) = payloadOf data node := rfl
    have hmap := hrows
    rw [mapM_eq_ok _ _ _ (matchRow_finditer data minimum node), Except.ok.injEq] at hmap
    simp only [hn, Bool.false_eq_true, if_false, hpay, hr, hrows, ok_bind, Except.ok.injEq] at h
    rw [← h, ← hmap, utf8Runs, hr, if_neg Bool.false_ne_true]

/-- What a row says, apart from the label. -/
def rowText (row : CarvedString) : Nat × Nat × Encoding × PyStr :=
  (row.fileOffset, row.arrayOffset, row.encoding, row.value)

/-- **The text of an array's rows depends on its payload only**, not on its label. -/
theorem nodeRows_rowText (data data' : Bytes) (minimum : Nat) (node node' : ArrayNode)
    (hoff : node'.offset = node.offset) (hrefs : node'.hasRefs = node.hasRefs)
    (hpay : payloadOf data' node' = payloadOf data node) :
    (nodeRows isprintable data' minimum node').map rowText =
      (nodeRows isprintable data minimum node).map rowText := by
  rw [nodeRows_eq, nodeRows_eq, hrefs, hpay]
  cases node.hasRefs with
  | true => rfl
  | false =>
    simp only [Bool.false_eq_true, if_false, List.map_append, List.map_map]
    have hrow : ∀ e r v, rowText (makeString node' e r v) = rowText (makeString node e r v) := by
      intro e r v
      simp only [rowText, makeString, hoff]
    congr 1
    · exact List.map_congr_left fun r _ => hrow .utf8 r.1 r.2
    · exact List.map_congr_left fun m _ => hrow .utf16le m.1 _

/-- The pattern does not compile: the guard lets through a count `re` rejects. -/
def Overflows (data : Bytes) (minimum : Nat) : Prop :=
  MAXREPEAT ≤ minimum ∧ minimum ≤ data.length / 2

instance (data : Bytes) (minimum : Nat) : Decidable (Overflows data minimum) :=
  inferInstanceAs (Decidable (_ ∧ _))

/-- **Extraction either overflows or returns the rows of the arrays in order.** -/
theorem extractStrings_eq (data : Bytes) (nodes : List ArrayNode) (minimum : Nat) :
    extractStrings isprintable data nodes minimum =
      if Overflows data minimum then .error .overflowError
      else .ok (nodes.flatMap (nodeRows isprintable data minimum)) := by
  have hloop : ∀ pattern, (∀ node, nodeStrings isprintable data pattern minimum node =
      .ok (nodeRows isprintable data minimum node)) →
      nodes.foldlM (fun strings node => do
        let rows ← nodeStrings isprintable data pattern minimum node
        .ok (strings ++ rows)) [] =
      (.ok (nodes.flatMap (nodeRows isprintable data minimum)) : Except Exc _) := by
    intro pattern hp
    rw [foldlM_eq_ok _ (fun strings node => strings ++ nodeRows isprintable data minimum node)]
    · rw [List.foldl_append_eq_append, List.nil_append, List.flatMap_def]
    · intro strings node _
      rw [hp node, ok_bind]
  unfold extractStrings
  by_cases hg : minimum ≤ data.length / 2
  · rw [if_pos hg, utf16lePattern]
    by_cases hm : MAXREPEAT ≤ minimum
    · rw [if_pos hm, if_pos ⟨hm, hg⟩]
      rfl
    · rw [if_neg hm, if_neg (fun h => hm h.1)]
      exact hloop (some minimum) fun node => nodeStrings_some isprintable data minimum node
  · rw [if_neg hg, if_neg (fun h => hg h.2), ok_bind]
    exact hloop none fun node => nodeStrings_none isprintable data minimum node (by omega)

end

end Pyrealm
