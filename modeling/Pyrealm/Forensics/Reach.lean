import Mathlib.Data.List.Sort
import Pyrealm.Pool.Worklist
import Pyrealm.Forensics.Refs

/-!
# `_reachable`, `_classify_nodes`, `_top_reference_warning`

On any nodes whose child references are nodes (`ClosedNodes`), the traversal
ends within one step per edge and returns what the root reaches
(`reachable_spec`): the least closed set, as every other worklist does
(`reachable_least`).  The labels of `_classify_nodes` are then those of the two
reachability relations (`classifyNodes_eq`, `labelOf`).
-/

namespace Pyrealm

open Py

/-! ## Algorithm -/

/-- `while pending`; the head of `pending` is the top of the stack, so
`pending.extend(refs)` puts `refs` there in reverse. -/
def reachableLoop (nodes : Dict Nat ArrayNode) : Nat → Finset Nat → List Nat → Except Exc (Finset Nat)
  | _, seen, [] => .ok seen
  | 0, _, _ :: _ => .error .outOfFuel
  | fuel + 1, seen, current :: pending =>
    if current ∈ seen then reachableLoop nodes fuel seen pending
    else do
      let seen := insert current seen
      let node ← nodes.getItem current
      reachableLoop nodes fuel seen ((node.childRefs.filter (· ∉ seen)).reverse ++ pending)

def edgeCount (nodes : Dict Nat ArrayNode) : Nat :=
  (nodes.items.map fun e => e.2.childRefs.length).sum

def reachable (nodes : Dict Nat ArrayNode) (root : Nat) : Except Exc (Finset Nat) :=
  if root ∉ nodes then .ok ∅
  else reachableLoop nodes (1 + edgeCount nodes) ∅ [root]

/-- The `if`/`elif` chain of `_classify_nodes`. -/
def labelOf (active inactive : Finset Nat) (offset : Nat) : Reachability :=
  if offset ∈ active ∧ offset ∈ inactive then .shared
  else if offset ∈ active then .active
  else if offset ∈ inactive then .inactive
  else .orphan

def classifyNodes (nodes : Dict Nat ArrayNode) (header : RealmHeader) :
    Except Exc (List ArrayNode) := do
  let active ← reachable nodes header.activeTopRef
  let inactive ← reachable nodes header.inactiveTopRef
  (nodes.keys.insertionSort (· ≤ ·)).mapM fun offset => do
    let node ← nodes.getItem offset
    .ok { node with reachability := labelOf active inactive offset }

def topReferenceWarning (label : String) (reference fileSize : Nat) : Option String :=
  if reference = 0 then none
  else
    let warning := fun reason => some ("The " ++ label ++ " top reference " ++ reason ++
      "; the file is damaged or incomplete. " ++
      "Preserve the source and try carving orphan arrays or obtaining another copy.")
    if reference % 8 ≠ 0 then warning "is not 8-byte aligned"
    else if reference < FILE_HEADER_SIZE then warning "points inside the file header"
    else if reference ≥ fileSize then warning "points beyond the end of the file"
    else none

/-! ## The traversal -/

def Edge (nodes : Dict Nat ArrayNode) (p c : Nat) : Prop :=
  ∃ node, nodes.get? p = some node ∧ c ∈ node.childRefs

/-- Every child reference is a node. -/
def ClosedNodes (nodes : Dict Nat ArrayNode) : Prop := ∀ p c, Edge nodes p c → c ∈ nodes

def outDegree (nodes : Dict Nat ArrayNode) (p : Nat) : Nat :=
  match nodes.get? p with
  | some node => node.childRefs.length
  | none => 0

theorem sum_outDegree (nodes : Dict Nat ArrayNode) :
    ∑ p ∈ nodes.keys.toFinset, outDegree nodes p = edgeCount nodes := by
  rw [List.sum_toFinset _ nodes.nodup_keys, edgeCount, Dict.keys, List.map_map]
  congr 1
  apply List.map_congr_left
  intro e he
  have hg : nodes.get? e.1 = some e.2 := (nodes.get?_eq_some_iff _ _).mpr he
  simp only [Function.comp, outDegree, hg]

/-- **The loop ends**, and is a traversal: it skips what was seen and pushes unseen children. -/
theorem reachableLoop_traverses (nodes : Dict Nat ArrayNode) (hcl : ClosedNodes nodes) :
    ∀ (fuel : Nat) (seen : Finset Nat) (pending : List Nat), (∀ p ∈ pending, p ∈ nodes) →
      Worklist.budget nodes.keys.toFinset (outDegree nodes) seen pending ≤ fuel →
      ∃ s, reachableLoop nodes fuel seen pending = .ok s ∧
        Worklist.Traverses (Edge nodes) seen pending s := by
  intro fuel
  induction fuel with
  | zero =>
    intro seen pending hmem hb
    cases pending with
    | nil => exact ⟨seen, rfl, .done seen⟩
    | cons current pending =>
      rw [Worklist.budget, List.length_cons] at hb
      omega
  | succ fuel ih =>
    intro seen pending hmem hb
    cases pending with
    | nil => exact ⟨seen, rfl, .done seen⟩
    | cons current pending =>
      have htail : ∀ p ∈ pending, p ∈ nodes := fun p hp => hmem p (List.mem_cons_of_mem _ hp)
      rw [reachableLoop]
      by_cases hseen : current ∈ seen
      · rw [if_pos hseen]
        rw [Worklist.budget_skip] at hb
        obtain ⟨s, hs, htrav⟩ := ih seen pending htail (by omega)
        exact ⟨s, hs, .skip hseen (fun _ => Iff.rfl) htrav⟩
      · have hcur : current ∈ nodes := hmem current List.mem_cons_self
        obtain ⟨node, hnode⟩ := (nodes.mem_iff_get? current).mp hcur
        rw [if_neg hseen, Dict.getItem_of_get? hnode]
        simp only [ok_bind]
        have hchild : ∀ c, Edge nodes current c ↔ c ∈ node.childRefs := by
          intro c
          unfold Edge
          rw [hnode]
          simp
        have hnew : ∀ c ∈ (node.childRefs.filter (· ∉ insert current seen)).reverse,
            Edge nodes current c := by
          intro c hc
          rw [List.mem_reverse, List.mem_filter] at hc
          exact (hchild c).mpr hc.1
        have hnext : ∀ p ∈ (node.childRefs.filter (· ∉ insert current seen)).reverse ++ pending,
            p ∈ nodes := by
          intro p hp
          rcases List.mem_append.mp hp with hp | hp
          · exact hcl current p (hnew p hp)
          · exact htail p hp
        have hdeg : (node.childRefs.filter (· ∉ insert current seen)).reverse.length ≤
            outDegree nodes current := by
          rw [List.length_reverse, outDegree, hnode]
          exact List.length_filter_le _ _
        have hv := Worklist.budget_visit nodes.keys.toFinset (outDegree nodes) seen current
          pending _ (List.mem_toFinset.mpr hcur) hseen hdeg
        obtain ⟨s, hs, htrav⟩ := ih (insert current seen) _ hnext (by omega)
        refine ⟨s, hs, .visit hseen (List.subset_append_right _ _) (fun c hc => ?_)
          (fun c hc => (List.mem_append.mp hc).symm.imp_right (hnew c)) htrav⟩
        by_cases hs : c ∈ insert current seen
        · exact Or.inl hs
        · refine Or.inr (List.mem_append_left _ ?_)
          rw [List.mem_reverse, List.mem_filter]
          exact ⟨(hchild c).mp hc, decide_eq_true hs⟩

/-- The fuel is enough, and more makes no difference. -/
theorem reachableLoop_root {nodes : Dict Nat ArrayNode} (hcl : ClosedNodes nodes) {root : Nat}
    (hroot : root ∈ nodes) {fuel : Nat} (hf : 1 + edgeCount nodes ≤ fuel) :
    ∃ s, reachableLoop nodes fuel ∅ [root] = .ok s ∧
      Worklist.Traverses (Edge nodes) ∅ [root] s := by
  refine reachableLoop_traverses nodes hcl fuel ∅ [root] (by simpa using hroot) ?_
  rwa [Worklist.budget_start, sum_outDegree]

/-- **The traversal ends and returns exactly what the root reaches.** -/
theorem reachable_spec (nodes : Dict Nat ArrayNode) (hcl : ClosedNodes nodes) (root : Nat) :
    ∃ s, reachable nodes root = .ok s ∧
      ∀ x, x ∈ s ↔ root ∈ nodes ∧ Worklist.Path (Edge nodes) root x := by
  unfold reachable
  by_cases hroot : root ∈ nodes
  · rw [if_neg (not_not_intro hroot)]
    obtain ⟨s, hs, htrav⟩ := reachableLoop_root hcl hroot (Nat.le_refl _)
    refine ⟨s, hs, fun x => ?_⟩
    rw [(htrav.inv (.start _ root)).mem_iff]
    exact ⟨fun h => ⟨hroot, h⟩, And.right⟩
  · rw [if_pos hroot]
    exact ⟨∅, rfl, fun x => by simp [hroot]⟩

/-- **The traversal ends with the least set that holds the root and is closed under
child references**, as every other worklist with the same children does: in any
order, with any repetitions. -/
theorem reachable_least (nodes : Dict Nat ArrayNode) (hcl : ClosedNodes nodes) (root : Nat) :
    ∃ s, reachable nodes root = .ok s ∧ (root ∉ nodes → s = ∅) ∧
      (root ∈ nodes →
        IsLeast {t : Set Nat | root ∈ t ∧ ∀ p ∈ t, ∀ c, Edge nodes p c → c ∈ t} s ∧
        (∀ fuel, 1 + edgeCount nodes ≤ fuel → reachableLoop nodes fuel ∅ [root] = .ok s) ∧
        ∀ s', Worklist.Traverses (Edge nodes) ∅ [root] s' ↔ s' = s) ∧
      ∀ nodes' : Dict Nat ArrayNode, (∀ o, o ∈ nodes' ↔ o ∈ nodes) →
        (∀ p c, Edge nodes' p c ↔ Edge nodes p c) → reachable nodes' root = .ok s := by
  obtain ⟨s, hs, hmem⟩ := reachable_spec nodes hcl root
  refine ⟨s, hs, fun hno => ?_, fun hroot => ?_, fun nodes' hkeys hedges => ?_⟩
  · exact Finset.eq_empty_of_forall_notMem fun x hx => hno ((hmem x).mp hx).1
  · have hloop : ∀ fuel, 1 + edgeCount nodes ≤ fuel → ∃ s',
        reachableLoop nodes fuel ∅ [root] = .ok s' ∧
          Worklist.Traverses (Edge nodes) ∅ [root] s' :=
      fun fuel hf => reachableLoop_root hcl hroot hf
    obtain ⟨s', hs', htrav⟩ := hloop _ (Nat.le_refl _)
    rw [reachable, if_neg (not_not_intro hroot), hs'] at hs
    cases hs
    refine ⟨htrav.isLeast, fun fuel hf => ?_, fun s'' => ⟨fun h => htrav.unique h, ?_⟩⟩
    · obtain ⟨s'', hs'', htrav'⟩ := hloop fuel hf
      rw [hs'', htrav.unique htrav']
    · rintro rfl
      exact htrav
  · have hcl' : ClosedNodes nodes' := fun p c h => (hkeys c).mpr (hcl p c ((hedges p c).mp h))
    obtain ⟨s', hs', hmem'⟩ := reachable_spec nodes' hcl' root
    have hedge : Edge nodes' = Edge nodes := by
      funext p c
      exact propext (hedges p c)
    have hsame : s' = s := by
      ext x
      rw [hmem', hmem, hkeys, hedge]
    rw [hs', hsame]

/-- Two arrays that refer to each other, one of them twice, and a third. -/
def cycleNodes : Dict Nat ArrayNode :=
  let node (offset : Nat) (refs : List Nat) : ArrayNode :=
    ⟨offset, 8, 0, 0, 0, 0, true, false, false, refs, .orphan⟩
  ((Dict.empty.set 8 (node 8 [16, 16])).set 16 (node 16 [8, 24])).set 24 (node 24 [])

theorem reachable_least_cycle : reachable cycleNodes 8 = .ok {24, 16, 8} ∧
    IsLeast {t : Set Nat | 8 ∈ t ∧ ∀ p ∈ t, ∀ c, Edge cycleNodes p c → c ∈ t}
      (({24, 16, 8} : Finset Nat) : Set Nat) := by
  have hclosed : ∀ e ∈ cycleNodes.items, ∀ c ∈ e.2.childRefs, c ∈ cycleNodes := by decide
  have hcl : ClosedNodes cycleNodes := by
    rintro p c ⟨node, hnode, hc⟩
    exact hclosed (p, node) ((cycleNodes.get?_eq_some_iff p node).mp hnode) c hc
  have hrun : reachable cycleNodes 8 = .ok {24, 16, 8} := by rfl
  obtain ⟨s, hs, -, hleast, -⟩ := reachable_least cycleNodes hcl 8
  rw [hrun] at hs
  cases hs
  exact ⟨hrun, (hleast (by decide)).1⟩

/-! ## The labels -/

/-- Labels of nodes already sorted by offset: no look-up fails. -/
theorem classifyNodes_eq (nodes : Dict Nat ArrayNode) (header : RealmHeader)
    (hsorted : nodes.keys.Pairwise (· ≤ ·)) (active inactive : Finset Nat)
    (ha : reachable nodes header.activeTopRef = .ok active)
    (hi : reachable nodes header.inactiveTopRef = .ok inactive) :
    classifyNodes nodes header =
      .ok (nodes.items.map fun e => { e.2 with reachability := labelOf active inactive e.1 }) := by
  rw [classifyNodes, ha, hi, hsorted.insertionSort_eq]
  simp only [ok_bind]
  have hmap : ∀ l : List (Nat × ArrayNode), (∀ e ∈ l, nodes.get? e.1 = some e.2) →
      (l.map Prod.fst).mapM (fun offset => nodes.getItem offset >>= fun node =>
        .ok { node with reachability := labelOf active inactive offset }) =
      (.ok (l.map fun e => { e.2 with reachability := labelOf active inactive e.1 }) :
        Except Exc (List ArrayNode)) := by
    intro l
    induction l with
    | nil => intro _; rfl
    | cons e l ih =>
      intro h
      rw [List.map_cons, List.mapM_cons, Dict.getItem_of_get? (h e List.mem_cons_self), ok_bind,
        ok_bind, ih (fun e he => h e (List.mem_cons_of_mem _ he)), ok_bind]
      rfl
  exact hmap nodes.items fun e he => (nodes.get?_eq_some_iff _ _).mpr he

/-! ## The candidates of a file -/

theorem edge_linked_iff (data : Bytes) (p c : Nat) : Edge (linked data) p c ↔ ChildRef data p c :=
  (childRef_iff data p c).symm

theorem closedNodes_linked (data : Bytes) : ClosedNodes (linked data) := by
  intro p c h
  obtain ⟨-, -, -, -, hc, -⟩ := (edge_linked_iff data p c).mp h
  exact (mem_linked data c).mpr hc

theorem scanned_keys_pairwise (data : Bytes) : (scanned data).keys.Pairwise (· < ·) := by
  rw [Dict.keys, List.pairwise_map]
  exact arraysBelow_pairwise data _

theorem linked_keys_sorted (data : Bytes) : (linked data).keys.Pairwise (· ≤ ·) := by
  rw [linked, Dict.keys_mapVals]
  exact (scanned_keys_pairwise data).imp fun h => Nat.le_of_lt h

/-- `o` is reachable from `root` in the on-disk graph; a root that is no
candidate's offset reaches nothing. -/
def Reaches (data : Bytes) (root o : Nat) : Prop :=
  root ∈ scanned data ∧ Worklist.Path (ChildRef data) root o

theorem reachable_linked (data : Bytes) (root : Nat) :
    ∃ s, reachable (linked data) root = .ok s ∧ ∀ x, x ∈ s ↔ Reaches data root x := by
  obtain ⟨s, hs, hm⟩ := reachable_spec (linked data) (closedNodes_linked data) root
  refine ⟨s, hs, fun x => ?_⟩
  have he : Edge (linked data) = ChildRef data := by
    funext p c
    exact propext (edge_linked_iff data p c)
  rw [hm, mem_linked, he, Reaches]

theorem Reaches.mem_scanned {data : Bytes} {root o : Nat} (h : Reaches data root o) :
    o ∈ scanned data := by
  obtain ⟨hr, hp⟩ := h
  cases hp with
  | refl => exact hr
  | tail _ hc =>
    obtain ⟨-, -, -, -, hm, -⟩ := hc
    exact hm

end Pyrealm
