import Pyrealm.Pool.Chains
import Pyrealm.Pool.PyBytes

/-!
# Encoded text inside a byte string

Segments of a byte string that encode characters of some kind (`TextAt`), for
any encoding that synchronises itself: the first byte of a character tells how
many bytes it takes and is told apart from the others.

* `separate_charAt`: encoded characters do not overlap.
* `chain_iff_textAt`: text is a chain of adjacent characters.
* `maximalText_iff`: the maximal texts are the maximal chains.
* `textAt_unique`: a segment encodes one text; `MaximalText.apart`: two maximal
  texts are apart.
-/

namespace Py

open Chains

/-- `lead` tells the bytes that start a character of the kind `good`, `width`
how many bytes it takes. -/
structure SelfSync (enc : Char → Bytes) (good : Char → Prop) (lead : UInt8 → Prop)
    (width : UInt8 → Nat) : Prop where
  starts : ∀ c, good c → ∃ b bs, enc c = b :: bs ∧ lead b ∧ (∀ x ∈ bs, ¬ lead x) ∧
    (enc c).length = width b
  inj : ∀ c d, good c → good d → enc c = enc d → c = d

/-- A good character is encoded in `[a, e)`. -/
def CharAt (enc : Char → Bytes) (good : Char → Prop) (data : Bytes) (a e : Nat) : Prop :=
  ∃ c, good c ∧ e = a + (enc c).length ∧ slice data a e = enc c

/-- `[i, j)` encodes the text `s` of good characters. -/
structure TextAt (enc : Char → Bytes) (good : Char → Prop) (data : Bytes) (i j : Nat)
    (s : PyStr) : Prop where
  le : i ≤ j
  inside : j ≤ data.length
  bytes : slice data i j = s.flatMap enc
  good : ∀ c ∈ s, good c

/-- The text `s` starts at `i`, in a segment that no larger segment of good text contains. -/
def MaximalText (enc : Char → Bytes) (good : Char → Prop) (data : Bytes) (i : Nat) (s : PyStr) :
    Prop :=
  ∃ j, TextAt enc good data i j s ∧
    ∀ i' j' s', i' ≤ i → j ≤ j' → TextAt enc good data i' j' s' → i' = i ∧ j' = j

theorem TextAt.append {enc : Char → Bytes} {good : Char → Prop} {data : Bytes} {i j k : Nat}
    {s t : PyStr} (hs : TextAt enc good data i j s) (ht : TextAt enc good data j k t) :
    TextAt enc good data i k (s ++ t) where
  le := Nat.le_trans hs.le ht.le
  inside := ht.inside
  bytes := by rw [← slice_append data i j k hs.le ht.le, hs.bytes, ht.bytes, List.flatMap_append]
  good := by
    intro c hc
    rcases List.mem_append.mp hc with hc | hc
    · exact hs.good c hc
    · exact ht.good c hc

section
variable {enc : Char → Bytes} {good : Char → Prop} {lead : UInt8 → Prop} {width : UInt8 → Nat}
  (h : SelfSync enc good lead width)
include h

theorem SelfSync.length_pos {c : Char} (hc : good c) : 0 < (enc c).length := by
  obtain ⟨b, bs, he, -⟩ := h.starts c hc
  rw [he]
  exact Nat.succ_pos _

/-- The bytes of a good character, by their positions. -/
theorem charAt_bytes {data : Bytes} {a e : Nat} (ht : CharAt enc good data a e) :
    e ≤ data.length ∧ a < e ∧ (∃ b, data[a]? = some b ∧ lead b ∧ e = a + width b) ∧
    ∀ p, a < p → p < e → ∃ x, data[p]? = some x ∧ ¬ lead x := by
  obtain ⟨c, hc, he, hb⟩ := ht
  have hpos := h.length_pos hc
  have hlen := congrArg List.length hb
  rw [length_slice] at hlen
  have hget : ∀ k, k < (enc c).length → data[a + k]? = (enc c)[k]? := by
    intro k hk
    rw [← hb, getElem?_slice, if_pos (by omega)]
  obtain ⟨b, bs, henc, hlead, htail, hw⟩ := h.starts c hc
  refine ⟨by omega, by omega, ⟨b, ?_, hlead, by omega⟩, ?_⟩
  · rw [← Nat.add_zero a, hget 0 hpos, henc]
    rfl
  · intro p hap hpe
    obtain ⟨k, rfl⟩ : ∃ k, p = a + (k + 1) := ⟨p - a - 1, by omega⟩
    have hk : k < bs.length := by
      rw [henc, List.length_cons] at he
      omega
    refine ⟨bs[k], ?_, htail _ (List.getElem_mem hk)⟩
    rw [hget (k + 1) (by omega), henc, List.getElem?_cons_succ, List.getElem?_eq_getElem hk]

/-- **Encoded characters do not overlap.** -/
theorem separate_charAt (data : Bytes) : Separate (CharAt enc good data) where
  lt := fun ht => (charAt_bytes h ht).2.1
  unique := by
    intro a e e' ht ht'
    obtain ⟨-, -, ⟨b, hb, -, rfl⟩, -⟩ := charAt_bytes h ht
    obtain ⟨-, -, ⟨b', hb', -, rfl⟩, -⟩ := charAt_bytes h ht'
    rw [hb, Option.some.injEq] at hb'
    rw [hb']
  apart := by
    intro a e b f ht ht' hab
    by_contra hlt
    obtain ⟨x, hx, hnot⟩ := (charAt_bytes h ht).2.2.2 b hab (by omega)
    obtain ⟨-, -, ⟨y, hy, hlead, -⟩, -⟩ := charAt_bytes h ht'
    rw [hx, Option.some.injEq] at hy
    rw [hy] at hnot
    exact hnot hlead

/-- A segment that is not empty encodes a text that is not empty. -/
theorem TextAt.ne_nil_iff {data : Bytes} {i j : Nat} {s : PyStr} (hs : TextAt enc good data i j s) :
    s ≠ [] ↔ i < j := by
  have hlen := congrArg List.length hs.bytes
  rw [length_slice_of_le _ _ _ hs.inside] at hlen
  cases s with
  | nil =>
    rw [List.flatMap_nil, List.length_nil] at hlen
    simp only [ne_eq, not_true_eq_false, false_iff]
    omega
  | cons c s =>
    have hpos := h.length_pos (hs.good c List.mem_cons_self)
    rw [List.flatMap_cons, List.length_append] at hlen
    simp only [ne_eq, reduceCtorEq, not_false_eq_true, true_iff]
    omega

theorem flatMap_enc_inj {s t : PyStr} (hs : ∀ c ∈ s, good c) (ht : ∀ c ∈ t, good c)
    (he : s.flatMap enc = t.flatMap enc) : s = t := by
  induction s generalizing t with
  | nil =>
    cases t with
    | nil => rfl
    | cons d t =>
      have hpos := h.length_pos (ht d List.mem_cons_self)
      have hlen := congrArg List.length he
      rw [List.flatMap_nil, List.flatMap_cons, List.length_append, List.length_nil] at hlen
      omega
  | cons c s ih =>
    have hc := hs c List.mem_cons_self
    cases t with
    | nil =>
      have hpos := h.length_pos hc
      have hlen := congrArg List.length he
      rw [List.flatMap_nil, List.flatMap_cons, List.length_append, List.length_nil] at hlen
      omega
    | cons d t =>
      have hd := ht d List.mem_cons_self
      rw [List.flatMap_cons, List.flatMap_cons] at he
      -- the first byte decides how many bytes belong to the first character
      have hlen : (enc c).length = (enc d).length := by
        obtain ⟨b, bs, hb, -, -, hw⟩ := h.starts c hc
        obtain ⟨b', bs', hb', -, -, hw'⟩ := h.starts d hd
        have hfirst := congrArg List.head? he
        rw [hb, hb', List.cons_append, List.cons_append, List.head?_cons, List.head?_cons,
          Option.some.injEq] at hfirst
        rw [hw, hw', hfirst]
      obtain ⟨h1, h2⟩ := List.append_inj he hlen
      rw [h.inj c d hc hd h1, ih (fun c hc => hs c (List.mem_cons_of_mem _ hc))
        (fun c hc => ht c (List.mem_cons_of_mem _ hc)) h2]

/-- **A segment encodes one text.** -/
theorem textAt_unique {data : Bytes} {i j : Nat} {s t : PyStr} (hs : TextAt enc good data i j s)
    (ht : TextAt enc good data i j t) : s = t :=
  flatMap_enc_inj h hs.good ht.good (hs.bytes.symm.trans ht.bytes)

/-- **Text is a chain of adjacent characters.** -/
theorem chain_iff_textAt {data : Bytes} {i j : Nat} (hi : i ≤ data.length) :
    Chain (CharAt enc good data) i j ↔ ∃ s, TextAt enc good data i j s := by
  constructor
  · intro hc
    induction hc with
    | refl => exact ⟨[], Nat.le_refl i, hi, slice_eq_nil _ _ _ (Nat.le_refl i), by simp⟩
    | @tail m e _ ht ih =>
      obtain ⟨s, hs⟩ := ih
      have hb := charAt_bytes h ht
      obtain ⟨c, hc, -, hbytes⟩ := ht
      refine ⟨s ++ [c], hs.append ⟨by omega, hb.1, ?_, ?_⟩⟩
      · rw [hbytes, List.flatMap_singleton]
      · rw [List.forall_mem_singleton]
        exact hc
  · rintro ⟨s, hs⟩
    clear hi
    induction s generalizing i with
    | nil =>
      have heq : ¬ i < j := fun hlt => ((hs.ne_nil_iff h).mpr hlt) rfl
      obtain rfl : i = j := by
        have hle := hs.le
        omega
      exact .refl
    | cons c s ih =>
      have hc := hs.good c List.mem_cons_self
      have hle := hs.le
      have hin := hs.inside
      have hlen := congrArg List.length hs.bytes
      rw [length_slice_of_le _ _ _ hin, List.flatMap_cons, List.length_append] at hlen
      have hcut := slice_append data i (i + (enc c).length) j (by omega) (by omega)
      rw [hs.bytes, List.flatMap_cons] at hcut
      have hfirst : (slice data i (i + (enc c).length)).length = (enc c).length := by
        rw [length_slice_of_le _ _ _ (by omega)]
        omega
      obtain ⟨h1, h2⟩ := List.append_inj hcut hfirst
      exact .head ⟨c, hc, rfl, h1⟩
        (ih ⟨by omega, hin, h2, fun d hd => hs.good d (List.mem_cons_of_mem _ hd)⟩)

/-- **The maximal texts are the maximal chains.** -/
theorem maximalText_iff {data : Bytes} {i : Nat} {s : PyStr} (hs : s ≠ []) :
    MaximalText enc good data i s ↔
      ∃ j, i < j ∧ TextAt enc good data i j s ∧ Maximal (CharAt enc good data) i j := by
  constructor
  · rintro ⟨j, ht, hmost⟩
    have hij := (ht.ne_nil_iff h).mp hs
    have hin := ht.inside
    refine ⟨j, hij, ht, (chain_iff_textAt h (by omega)).mpr ⟨s, ht⟩, fun a b ha hb hab => ?_⟩
    obtain ⟨t, ht'⟩ := (chain_iff_textAt h (by omega)).mp hab
    exact hmost a b t ha hb ht'
  · rintro ⟨j, hij, ht, hm⟩
    refine ⟨j, ht, fun a b t ha hb ht' => ?_⟩
    have hin := ht'.inside
    exact hm.most a b ha hb ((chain_iff_textAt h (by have := ht'.le; omega)).mpr ⟨t, ht'⟩)

/-- **Maximal texts are apart**: a place that starts no good character lies between two. -/
theorem MaximalText.apart {data : Bytes} {i k : Nat} {s t : PyStr} (hs : s ≠ []) (ht : t ≠ [])
    (hms : MaximalText enc good data i s) (hmt : MaximalText enc good data k t) (hik : i < k) :
    i + (s.flatMap enc).length < k := by
  have hsep := separate_charAt h data
  obtain ⟨j, hij, htext, hmax⟩ := (maximalText_iff h hs).mp hms
  obtain ⟨l, hkl, -, hmax'⟩ := (maximalText_iff h ht).mp hmt
  have hlen := congrArg List.length htext.bytes
  rw [length_slice_of_le _ _ _ htext.inside] at hlen
  have hne : k ≠ j := by
    rintro rfl
    obtain ⟨e, htok⟩ := Chain.first hmax'.chain hkl
    exact ((maximal_iff hsep hij).mp hmax).2.2 e htok
  have hge : ¬ k < j := fun hlt => Maximal.not_inside hsep hmax' hkl hmax.chain hik hlt
  omega

/-- A text starts with a byte that starts a character. -/
theorem MaximalText.starts {data : Bytes} {i : Nat} {s : PyStr} (hs : s ≠ [])
    (hm : MaximalText enc good data i s) : ∃ b, data[i]? = some b ∧ lead b := by
  obtain ⟨j, hij, -, hmax⟩ := (maximalText_iff h hs).mp hm
  obtain ⟨e, ht⟩ := Chain.first hmax.chain hij
  obtain ⟨-, -, ⟨b, hb, hl, -⟩, -⟩ := charAt_bytes h ht
  exact ⟨b, hb, hl⟩

end

end Py
