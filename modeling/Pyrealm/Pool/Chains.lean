import Mathlib.Logic.Relation

/-!
# Maximal chains of tokens that do not overlap

A token occupies the positions `[a, e)` of some text.  Where tokens neither
overlap nor are ambiguous (`Separate`), a chain of adjacent tokens is cut in one
way only, and the maximal chains are the ones with no token at either end.

* `Chain.split`: a chain passes through every token that starts inside it.
* `maximal_iff`: what a scanner has to check at the two ends of a run.
* `Maximal.not_inside`: maximal chains do not overlap.
* `exists_maximal`: every token is part of a maximal chain.
-/

namespace Chains

/-- Tokens are not empty, one starts at most at a place, and none starts inside another. -/
structure Separate (Tok : Nat → Nat → Prop) : Prop where
  lt : ∀ {a e}, Tok a e → a < e
  unique : ∀ {a e e'}, Tok a e → Tok a e' → e = e'
  apart : ∀ {a e b f}, Tok a e → Tok b f → a < b → e ≤ b

/-- Adjacent tokens that cover `[i, j)`. -/
abbrev Chain (Tok : Nat → Nat → Prop) : Nat → Nat → Prop := Relation.ReflTransGen Tok

/-- A chain that no longer chain contains. -/
structure Maximal (Tok : Nat → Nat → Prop) (i j : Nat) : Prop where
  chain : Chain Tok i j
  most : ∀ a b, a ≤ i → j ≤ b → Chain Tok a b → a = i ∧ b = j

/-- No token that starts before `s` reaches it. -/
def Fresh (Tok : Nat → Nat → Prop) (s : Nat) : Prop := ∀ a e, Tok a e → a < s → e < s

section
variable {Tok : Nat → Nat → Prop}

/-- A chain that is not empty starts with a token. -/
theorem Chain.first {i j : Nat} (hc : Chain Tok i j) (hij : i < j) : ∃ e, Tok i e := by
  rcases Relation.ReflTransGen.cases_head hc with rfl | ⟨m, hm, -⟩
  · exact absurd hij (Nat.lt_irrefl i)
  · exact ⟨m, hm⟩

variable (h : Separate Tok)
include h

theorem Chain.le {i j : Nat} (hc : Chain Tok i j) : i ≤ j := by
  induction hc with
  | refl => exact Nat.le_refl i
  | tail _ ht ih => exact Nat.le_trans ih (Nat.le_of_lt (h.lt ht))

/-- **A chain passes through every token that starts inside it.** -/
theorem Chain.split {a b p e : Nat} (hc : Chain Tok a b) (ht : Tok p e) (hap : a ≤ p)
    (hpb : p < b) : Chain Tok a p ∧ Chain Tok e b := by
  induction hc using Relation.ReflTransGen.head_induction_on with
  | refl => omega
  | @head a m hm hrest ih =>
    rcases Nat.eq_or_lt_of_le hap with rfl | hlt
    · obtain rfl := h.unique ht hm
      exact ⟨.refl, hrest⟩
    · obtain ⟨h1, h2⟩ := ih (h.apart hm ht hlt)
      exact ⟨.head hm h1, h2⟩

/-- Of two chains with one start, one continues the other. -/
theorem Chain.continue {i j b : Nat} (hc : Chain Tok i j) (hb : Chain Tok i b) (hjb : j ≤ b) :
    Chain Tok j b := by
  induction hc with
  | refl => exact hb
  | @tail m j hm ht ih =>
    have hmj := h.lt ht
    have hcont := ih (by omega)
    exact (Chain.split h hcont ht (Nat.le_refl m) (by omega)).2

/-- A chain that is not empty ends with a token. -/
theorem Chain.last {i j : Nat} (hc : Chain Tok i j) (hij : i < j) : ∃ a, i ≤ a ∧ Tok a j := by
  rcases Relation.ReflTransGen.cases_tail hc with rfl | ⟨m, hm, ht⟩
  · exact absurd hij (Nat.lt_irrefl j)
  · exact ⟨m, Chain.le h hm, ht⟩

/-- **The maximal chains are those with no token at either end.** -/
theorem maximal_iff {i j : Nat} (hij : i < j) :
    Maximal Tok i j ↔ Chain Tok i j ∧ (∀ a, ¬ Tok a i) ∧ ∀ e, ¬ Tok j e := by
  constructor
  · intro hm
    refine ⟨hm.chain, fun a ht => ?_, fun e ht => ?_⟩
    · have hlt := h.lt ht
      have heq := (hm.most a j (by omega) (Nat.le_refl j) (.head ht hm.chain)).1
      omega
    · have hlt := h.lt ht
      have heq := (hm.most i e (Nat.le_refl i) (by omega) (.tail hm.chain ht)).2
      omega
  · rintro ⟨hc, hbefore, hafter⟩
    refine ⟨hc, fun a b hai hjb hab => ?_⟩
    obtain ⟨m, hm⟩ := Chain.first hc hij
    obtain ⟨hleft, hright⟩ := Chain.split h hab hm hai (by omega)
    have hstart : a = i := by
      rcases Nat.eq_or_lt_of_le hai with rfl | hlt
      · rfl
      · obtain ⟨a', -, ht⟩ := Chain.last h hleft hlt
        exact absurd ht (hbefore a')
    refine ⟨hstart, ?_⟩
    rcases Nat.eq_or_lt_of_le hjb with rfl | hlt
    · rfl
    · obtain ⟨e, ht⟩ := Chain.first (Chain.continue h hc (.head hm hright) hjb) hlt
      exact absurd ht (hafter e)

/-- A chain from the same start that no token continues is the maximal one. -/
theorem Maximal.stop_eq {i j b : Nat} (hm : Maximal Tok i j) (hc : Chain Tok i b)
    (hno : ∀ e, ¬ Tok b e) : b = j := by
  rcases Nat.lt_or_ge b j with hlt | hge
  · obtain ⟨e, ht⟩ := Chain.first (Chain.continue h hc hm.chain (by omega)) hlt
    exact absurd ht (hno e)
  · exact (hm.most i b (Nat.le_refl i) hge hc).2

/-- No maximal chain starts inside a chain. -/
theorem Maximal.not_inside {i j s b : Nat} (hm : Maximal Tok i j) (hij : i < j)
    (hc : Chain Tok s b) (hsi : s < i) (hib : i < b) : False := by
  obtain ⟨e, ht⟩ := Chain.first hm.chain hij
  obtain ⟨a, -, hta⟩ := Chain.last h (Chain.split h hc ht (by omega) hib).1 hsi
  exact ((maximal_iff h hij).mp hm).2.1 a hta

/-- A place that no token reaches stays so behind a chain and a place without token. -/
theorem Fresh.succ {s i : Nat} (hf : Fresh Tok s) (hc : Chain Tok s i) (hno : ∀ e, ¬ Tok i e) :
    Fresh Tok (i + 1) := by
  intro a e ht ha
  have hne : a ≠ i := by
    rintro rfl
    exact hno e ht
  have hle := Chain.le h hc
  rcases Nat.lt_or_ge a s with hlt | hge
  · have := hf a e ht hlt
    omega
  · have := Chain.le h (Chain.split h hc ht hge (by omega)).2
    omega

/-- **Every token is part of a maximal chain**, where the text is bounded. -/
theorem exists_maximal {n p e : Nat} (hn : ∀ {a e}, Tok a e → e ≤ n) (ht : Tok p e) :
    ∃ i j, Maximal Tok i j ∧ i ≤ p ∧ e ≤ j := by
  have hleft : ∀ p e, Tok p e → ∃ i, i ≤ p ∧ Chain Tok i p ∧ ∀ a, ¬ Tok a i := by
    intro p
    induction p using Nat.strongRecOn with
    | ind p ih =>
      intro e _
      by_cases hp : ∃ a, Tok a p
      · obtain ⟨a, ha⟩ := hp
        have hlt := h.lt ha
        obtain ⟨i, hi, hc, hno⟩ := ih a hlt p ha
        exact ⟨i, by omega, .tail hc ha, hno⟩
      · exact ⟨p, Nat.le_refl p, .refl, fun a ha => hp ⟨a, ha⟩⟩
  have hright : ∀ k p e, n - e ≤ k → Tok p e → ∃ j, Chain Tok e j ∧ ∀ f, ¬ Tok j f := by
    intro k
    induction k with
    | zero =>
      intro p e hk ht
      refine ⟨e, .refl, fun f hf => ?_⟩
      have h1 := h.lt hf
      have h2 := hn hf
      omega
    | succ k ih =>
      intro p e hk ht
      by_cases he : ∃ f, Tok e f
      · obtain ⟨f, hf⟩ := he
        have h1 := h.lt hf
        have h2 := hn hf
        obtain ⟨j, hc, hno⟩ := ih e f (by omega) hf
        exact ⟨j, .head hf hc, hno⟩
      · exact ⟨e, .refl, fun f hf => he ⟨f, hf⟩⟩
  obtain ⟨i, hi, hci, hbefore⟩ := hleft p e ht
  obtain ⟨j, hcj, hafter⟩ := hright _ p e (Nat.le_refl _) ht
  have hlt := h.lt ht
  have hle := Chain.le h hcj
  refine ⟨i, j, (maximal_iff h (by omega)).mpr ⟨hci.trans (.head ht hcj), hbefore, hafter⟩, hi, hle⟩

end

end Chains
