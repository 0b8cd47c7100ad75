import Mathlib.Algebra.BigOperators.Group.Finset.Basic
import Mathlib.Logic.Relation
import Mathlib.Order.Bounds.Basic

/-!
# Worklist traversals

A traversal keeps a set `seen` of visited vertices and a list `pending` of
vertices to look at; it takes one vertex at a time, skips it if it was seen,
else visits it and puts its unseen successors in front of the list (in any
order, repeated or not).

* `Inv`: everything seen or pending is reachable from the root, and a
  successor of a seen vertex is seen or pending.  Kept by the two steps
  (`Inv.skip`, `Inv.visit`); with nothing pending, `seen` is the set of
  reachable vertices (`Inv.mem_iff`) and the least closed set (`Inv.least`).
* `Traverses`: the runs of such a traversal, the list rearranged and repeated at
  will.  All end with the least closed set (`Traverses.isLeast`, `Traverses.unique`).
* `path_of_edges`: chains of a graph are chains of a larger one.
* `budget`: pending vertices plus the out-degrees not yet spent.  Each step
  lowers it (`budget_skip`, `budget_visit`), so it bounds the number of steps.
-/

namespace Worklist

variable {α : Type}

/-- A finite chain of edges, possibly empty. -/
abbrev Path (edge : α → α → Prop) : α → α → Prop := Relation.ReflTransGen edge

structure Inv (edge : α → α → Prop) (root : α) (seen : Finset α) (pending : List α) : Prop where
  root_mem : root ∈ seen ∨ root ∈ pending
  path : ∀ x, x ∈ seen ∨ x ∈ pending → Path edge root x
  closed : ∀ x ∈ seen, ∀ y, edge x y → y ∈ seen ∨ y ∈ pending

section
variable {edge : α → α → Prop} {root x : α} {seen : Finset α} {pending new : List α}

theorem Inv.start (edge : α → α → Prop) (root : α) : Inv edge root ∅ [root] where
  root_mem := Or.inr List.mem_cons_self
  path := by
    rintro y (hy | hy)
    · simp at hy
    · rw [List.mem_singleton] at hy
      rw [hy]
  closed := by simp

theorem Inv.skip (h : Inv edge root seen (x :: pending)) (hx : x ∈ seen) :
    Inv edge root seen pending := by
  have drop : ∀ y, y ∈ seen ∨ y ∈ x :: pending → y ∈ seen ∨ y ∈ pending := by
    rintro y (hy | hy)
    · exact Or.inl hy
    · rcases List.mem_cons.mp hy with rfl | hy
      · exact Or.inl hx
      · exact Or.inr hy
  exact ⟨drop _ h.root_mem, fun y hy => h.path y (hy.imp_right (List.mem_cons_of_mem _)),
    fun y hy z hz => drop z (h.closed y hy z hz)⟩

theorem Inv.visit [DecidableEq α] (h : Inv edge root seen (x :: pending)) (hnew : ∀ y ∈ new, edge x y)
    (hall : ∀ y, edge x y → y ∈ insert x seen ∨ y ∈ new) :
    Inv edge root (insert x seen) (new ++ pending) := by
  have hx : Path edge root x := h.path x (Or.inr List.mem_cons_self)
  have shift : ∀ y, y ∈ seen ∨ y ∈ x :: pending → y ∈ insert x seen ∨ y ∈ new ++ pending := by
    rintro y (hy | hy)
    · exact Or.inl (Finset.mem_insert_of_mem hy)
    · rcases List.mem_cons.mp hy with rfl | hy
      · exact Or.inl (Finset.mem_insert_self _ _)
      · exact Or.inr (List.mem_append_right _ hy)
  refine ⟨shift _ h.root_mem, ?_, ?_⟩
  · rintro y (hy | hy)
    · rcases Finset.mem_insert.mp hy with rfl | hy
      · exact hx
      · exact h.path y (Or.inl hy)
    · rcases List.mem_append.mp hy with hy | hy
      · exact hx.tail (hnew y hy)
      · exact h.path y (Or.inr (List.mem_cons_of_mem _ hy))
  · intro y hy z hz
    rcases Finset.mem_insert.mp hy with rfl | hy
    · exact (hall z hz).imp_right (List.mem_append_left _)
    · exact shift z (h.closed y hy z hz)

/-- **Exactness.**  With nothing pending, `seen` is what the root reaches. -/
theorem Inv.mem_iff (h : Inv edge root seen []) (y : α) : y ∈ seen ↔ Path edge root y := by
  constructor
  · intro hy; exact h.path y (Or.inl hy)
  · intro hp
    induction hp with
    | refl => simpa using h.root_mem
    | tail _ hyz ih => simpa using h.closed _ ih _ hyz

/-- `seen` is the least set that holds the root and is closed under edges. -/
theorem Inv.least (h : Inv edge root seen []) (s : Set α) (hroot : root ∈ s)
    (hs : ∀ a ∈ s, ∀ b, edge a b → b ∈ s) : ∀ y ∈ seen, y ∈ s := by
  intro y hy
  have hp := (h.mem_iff y).mp hy
  induction hp with
  | refl => exact hroot
  | tail hab hbc ih => exact hs _ (ih ((h.mem_iff _).mpr hab)) _ hbc

end

/-! ## Any order -/

/-- Traversals by any worklist: after each vertex the list may be in any order and
name a vertex any number of times, successors seen before included. -/
inductive Traverses [DecidableEq α] (edge : α → α → Prop) : Finset α → List α → Finset α → Prop
  | done (seen : Finset α) : Traverses edge seen [] seen
  | skip {seen s : Finset α} {x : α} {pending next : List α} (hx : x ∈ seen)
      (hnext : ∀ y, y ∈ next ↔ y ∈ pending) (h : Traverses edge seen next s) :
      Traverses edge seen (x :: pending) s
  | visit {seen s : Finset α} {x : α} {pending next : List α} (hx : x ∉ seen)
      (hold : pending ⊆ next) (hall : ∀ y, edge x y → y ∈ insert x seen ∨ y ∈ next)
      (hnew : ∀ y ∈ next, y ∈ pending ∨ edge x y) (h : Traverses edge (insert x seen) next s) :
      Traverses edge seen (x :: pending) s

section
variable {edge : α → α → Prop} {root : α} {seen s : Finset α} {pending next : List α}

theorem Inv.congr (h : Inv edge root seen pending) (hnext : ∀ y, y ∈ next ↔ y ∈ pending) :
    Inv edge root seen next where
  root_mem := h.root_mem.imp_right (hnext _).mpr
  path := fun x hx => h.path x (hx.imp_right (hnext x).mp)
  closed := fun x hx y hy => (h.closed x hx y hy).imp_right (hnext y).mpr

/-- **Every traversal keeps the invariant to its end.** -/
theorem Traverses.inv [DecidableEq α] (h : Traverses edge seen pending s)
    (hi : Inv edge root seen pending) : Inv edge root s [] := by
  induction h with
  | done seen => exact hi
  | skip hx hnext _ ih => exact ih ((hi.skip hx).congr hnext)
  | @visit seen s x pending next hx hold hall hnew _ ih =>
    -- the successors are what is new in the list
    classical
    have hvisit : Inv edge root (insert x seen) (next.filter (edge x) ++ pending) :=
      hi.visit (fun y hy => of_decide_eq_true (List.mem_filter.mp hy).2) fun y hy =>
        (hall y hy).imp_right fun hm => List.mem_filter.mpr ⟨hm, decide_eq_true hy⟩
    refine ih (hvisit.congr fun y => ?_)
    rw [List.mem_append, List.mem_filter, decide_eq_true_eq]
    constructor
    · intro hy
      exact (hnew y hy).symm.imp_left fun he => ⟨hy, he⟩
    · rintro (⟨hy, -⟩ | hy)
      · exact hy
      · exact hold hy

/-- The sets that hold the root and are closed under edges. -/
def Closed (edge : α → α → Prop) (root : α) : Set (Set α) :=
  {t | root ∈ t ∧ ∀ a ∈ t, ∀ b, edge a b → b ∈ t}

theorem Inv.isLeast (h : Inv edge root s []) : IsLeast (Closed edge root) (s : Set α) := by
  have hmem : ∀ y, y ∈ s ∨ y ∈ ([] : List α) → y ∈ s := fun y hy => by simpa using hy
  refine ⟨⟨hmem root h.root_mem, fun a ha b hb => hmem b (h.closed a ha b hb)⟩, ?_⟩
  rintro t ⟨hroot, ht⟩ y hy
  exact h.least t hroot ht y hy

/-- **Every traversal from the root ends with the least closed set.** -/
theorem Traverses.isLeast [DecidableEq α] (h : Traverses edge ∅ [root] s) :
    IsLeast (Closed edge root) (s : Set α) :=
  (h.inv (.start edge root)).isLeast

theorem Traverses.unique [DecidableEq α] {s' : Finset α} (h : Traverses edge ∅ [root] s)
    (h' : Traverses edge ∅ [root] s') : s' = s :=
  Finset.coe_injective (h'.isLeast.unique h.isLeast)

end

/-! ## Subgraphs -/

/-- A chain in a graph all of whose edges from reached vertices another graph
has is a chain there. -/
theorem path_of_edges {edge edge' : α → α → Prop} {root y : α} (h : Path edge root y)
    (hsub : ∀ a b, Path edge root a → edge a b → edge' a b) : Path edge' root y := by
  induction h with
  | refl => exact Relation.ReflTransGen.refl
  | tail hab hbc ih => exact ih.tail (hsub _ _ hab hbc)

/-! ## Termination -/

variable [DecidableEq α]

def budget (U : Finset α) (deg : α → Nat) (seen : Finset α) (pending : List α) : Nat :=
  pending.length + ∑ x ∈ U \ seen, deg x

theorem budget_skip (U : Finset α) (deg : α → Nat) (seen : Finset α) (x : α) (pending : List α) :
    budget U deg seen (x :: pending) = budget U deg seen pending + 1 := by
  simp only [budget, List.length_cons]
  omega

theorem budget_visit (U : Finset α) (deg : α → Nat) (seen : Finset α) (x : α)
    (pending new : List α) (hU : x ∈ U) (hx : x ∉ seen) (hnew : new.length ≤ deg x) :
    budget U deg (insert x seen) (new ++ pending) + 1 ≤ budget U deg seen (x :: pending) := by
  have hsplit : ∑ y ∈ U \ seen, deg y = deg x + ∑ y ∈ U \ insert x seen, deg y := by
    rw [Finset.sdiff_insert, Finset.add_sum_erase]
    exact Finset.mem_sdiff.mpr ⟨hU, hx⟩
  simp only [budget, List.length_cons, List.length_append, hsplit]
  omega

theorem budget_start (U : Finset α) (deg : α → Nat) (root : α) :
    budget U deg ∅ [root] = 1 + ∑ x ∈ U, deg x := by
  simp [budget]

end Worklist
