import Pyrealm.Forensics.Analyze

/-!
# The warnings of a recognised file

`_analyze` looks at each root twice: `_top_reference_warning` compares it with
the header and the end of the file, and a second check asks whether the scanner
found an array there.

* `damageOf_of_mem`: the first check passes wherever the second does.
* `warnings_spec`: when there are no warnings, and which come together.
-/

namespace Pyrealm

open Py

/-! ## The texts -/

/-- The roots of a header, as the warnings call them. -/
inductive Root where
  | active | inactive
deriving DecidableEq, Repr

def Root.label : Root → String
  | .active => "active"
  | .inactive => "inactive"

def Root.ref (header : RealmHeader) : Root → Nat
  | .active => header.activeTopRef
  | .inactive => header.inactiveTopRef

/-- The warning that the scanner found no array there. -/
def Root.unresolved : Root → String
  | .active => "The active top reference did not resolve to a recognized array; the file " ++
      "may use an unsupported format or be damaged."
  | .inactive => "The inactive top reference did not resolve to a recognized array."

/-- What makes a reference impossible. -/
inductive Damage where
  | misaligned | insideHeader | beyondEnd
deriving DecidableEq, Repr

def Damage.reason : Damage → String
  | .misaligned => "is not 8-byte aligned"
  | .insideHeader => "points inside the file header"
  | .beyondEnd => "points beyond the end of the file"

/-- The warning that a root is impossible. -/
def Root.impossible (root : Root) (damage : Damage) : String :=
  "The " ++ root.label ++ " top reference " ++ damage.reason ++
    "; the file is damaged or incomplete. " ++
    "Preserve the source and try carving orphan arrays or obtaining another copy."

def damageOf (reference fileSize : Nat) : Option Damage :=
  if reference = 0 then none
  else if reference % 8 ≠ 0 then some .misaligned
  else if reference < FILE_HEADER_SIZE then some .insideHeader
  else if reference ≥ fileSize then some .beyondEnd
  else none

theorem topReferenceWarning_eq (root : Root) (reference fileSize : Nat) :
    topReferenceWarning root.label reference fileSize =
      (damageOf reference fileSize).map root.impossible := by
  unfold topReferenceWarning damageOf
  by_cases h0 : reference = 0
  · rw [if_pos h0, if_pos h0]
    rfl
  · rw [if_neg h0, if_neg h0]
    split
    · rfl
    · split
      · rfl
      · split
        · rfl
        · rfl

theorem impossible_inj {root root' : Root} {damage damage' : Damage}
    (h : root.impossible damage = root'.impossible damage') : root = root' := by
  revert h
  cases root <;> cases root' <;> cases damage <;> cases damage' <;> decide +kernel

theorem impossible_ne_unresolved (root root' : Root) (damage : Damage) :
    root.impossible damage ≠ root'.unresolved := by
  cases root <;> cases root' <;> cases damage <;> decide +kernel

theorem unresolved_inj {root root' : Root} (h : root.unresolved = root'.unresolved) :
    root = root' := by
  revert h
  cases root <;> cases root' <;> decide +kernel

def reservedWarning : String := "The reserved Realm header byte is non-zero."

theorem reservedWarning_ne (root : Root) :
    reservedWarning ≠ root.unresolved ∧ ∀ damage, reservedWarning ≠ root.impossible damage := by
  constructor
  · cases root <;> decide +kernel
  · intro damage
    cases root <;> cases damage <;> decide +kernel

/-! ## Membership -/

/-- The second check fails: a second root that is not there is not looked for. -/
def Unresolved (header : RealmHeader) (nodes : Dict Nat ArrayNode) : Root → Prop
  | .active => header.activeTopRef ∉ nodes
  | .inactive => header.inactiveTopRef ≠ 0 ∧ header.inactiveTopRef ∉ nodes

theorem mem_ite_singleton (p : Prop) [Decidable p] (text w : String) :
    w ∈ (if p then [text] else []) ↔ p ∧ w = text := by
  by_cases hp : p
  · simp [hp]
  · simp [hp]

theorem mem_headerWarnings (header : RealmHeader) (nodes : Dict Nat ArrayNode) (fileSize : Nat)
    (w : String) : w ∈ headerWarnings header nodes fileSize ↔
      (∃ (root : Root) (damage : Damage),
        damageOf (root.ref header) fileSize = some damage ∧ w = root.impossible damage) ∨
      (∃ root : Root, Unresolved header nodes root ∧ w = root.unresolved) ∨
      (header.reserved ≠ 0 ∧ w = reservedWarning) := by
  have himp : w ∈ [("active", header.activeTopRef), ("inactive", header.inactiveTopRef)].filterMap
      (fun e => topReferenceWarning e.1 e.2 fileSize) ↔
      ∃ (root : Root) (damage : Damage),
        damageOf (root.ref header) fileSize = some damage ∧ w = root.impossible damage := by
    have hone : ∀ root : Root, topReferenceWarning root.label (root.ref header) fileSize = some w ↔
        ∃ damage, damageOf (root.ref header) fileSize = some damage ∧ w = root.impossible damage := by
      intro root
      rw [topReferenceWarning_eq, Option.map_eq_some_iff]
      simp only [eq_comm]
    rw [List.mem_filterMap]
    constructor
    · rintro ⟨e, he, hw⟩
      rcases List.mem_cons.mp he with rfl | he
      · exact ⟨.active, (hone .active).mp hw⟩
      · rw [List.mem_singleton] at he
        subst he
        exact ⟨.inactive, (hone .inactive).mp hw⟩
    · rintro ⟨root, hw⟩
      cases root with
      | active => exact ⟨_, List.mem_cons_self, (hone .active).mpr hw⟩
      | inactive => exact ⟨_, List.mem_cons_of_mem _ (List.mem_singleton_self _), (hone .inactive).mpr hw⟩
  have hroots : (∃ root : Root, Unresolved header nodes root ∧ w = root.unresolved) ↔
      (header.activeTopRef ∉ nodes ∧ w = Root.active.unresolved) ∨
      ((header.inactiveTopRef ≠ 0 ∧ header.inactiveTopRef ∉ nodes) ∧ w = Root.inactive.unresolved) := by
    constructor
    · rintro ⟨root, h, hw⟩
      cases root with
      | active => exact Or.inl ⟨h, hw⟩
      | inactive => exact Or.inr ⟨h, hw⟩
    · rintro (⟨h, hw⟩ | ⟨h, hw⟩)
      · exact ⟨.active, h, hw⟩
      · exact ⟨.inactive, h, hw⟩
  rw [hroots, ← himp, headerWarnings]
  simp only [List.mem_append, mem_ite_singleton, or_assoc]
  rfl

/-! ## The two checks -/

/-- **The offset of an array is a possible root.** -/
theorem damageOf_of_mem {data : Bytes} {reference : Nat} (h : reference ∈ scanned data) :
    damageOf reference data.length = none := by
  obtain ⟨node, hn⟩ := (mem_scanned data reference).mp h
  have hge := hn.ge
  have haligned := hn.aligned
  have hbound := hn.bound
  have hsize := hn.byteSize_eq
  rw [damageOf, if_neg (by omega), if_neg (by omega), FILE_HEADER_SIZE, if_neg (by omega),
    if_neg (by omega)]

/-- An impossible root did not resolve. -/
theorem unresolved_of_damage {data : Bytes} {header : RealmHeader} {root : Root} {damage : Damage}
    (h : damageOf (root.ref header) data.length = some damage) :
    Unresolved header (scanned data) root := by
  have hno : root.ref header ∉ scanned data := by
    intro hm
    rw [damageOf_of_mem hm] at h
    cases h
  cases root with
  | active => exact hno
  | inactive =>
    refine ⟨fun hzero => ?_, hno⟩
    rw [show Root.inactive.ref header = 0 from hzero] at h
    cases h

/-- What the warnings say of the candidates. -/
structure WarningLaw (data : Bytes) (header : RealmHeader) (candidates : Dict Nat ArrayNode)
    (warnings : List String) : Prop where
  none_iff : warnings = [] ↔ header.activeTopRef ∈ candidates ∧
    (header.inactiveTopRef = 0 ∨ header.inactiveTopRef ∈ candidates) ∧ byteAt data 22 = 0
  together : ∀ (root : Root) damage, root.impossible damage ∈ warnings → root.unresolved ∈ warnings
  resolved : ∀ root : Root, root.ref header ∈ candidates →
    root.unresolved ∉ warnings ∧ ∀ damage, root.impossible damage ∉ warnings

theorem headerWarnings_law {data : Bytes} {header : RealmHeader} {nodes : Dict Nat ArrayNode}
    (h : Recognised data header) (hn : ∀ o, o ∈ nodes ↔ o ∈ scanned data) :
    WarningLaw data header (scanned data) (headerWarnings header nodes data.length) := by
  have hunres : ∀ root, Unresolved header nodes root ↔ Unresolved header (scanned data) root := by
    intro root
    cases root with
    | active => exact not_congr (hn _)
    | inactive => exact and_congr_right fun _ => not_congr (hn _)
  have hmem := fun w => mem_headerWarnings header nodes data.length w
  simp only [hunres] at hmem
  have hof : ∀ root : Root, Unresolved header (scanned data) root →
      root.unresolved ∈ headerWarnings header nodes data.length :=
    fun root hu => (hmem _).mpr (Or.inr (Or.inl ⟨root, hu, rfl⟩))
  have hback : ∀ (root : Root) damage, root.impossible damage ∈ headerWarnings header nodes data.length →
      Unresolved header (scanned data) root := by
    intro root damage hw
    rcases (hmem _).mp hw with ⟨root', damage', hd, he⟩ | ⟨root', -, he⟩ | ⟨-, he⟩
    · rw [impossible_inj he]
      exact unresolved_of_damage hd
    · exact absurd he (impossible_ne_unresolved _ _ _)
    · exact absurd he.symm ((reservedWarning_ne root).2 damage)
  refine ⟨?_, fun root damage hw => hof root (hback root damage hw), ?_⟩
  · have hreserved : header.reserved = byteAt data 22 := by rw [h.eq]
    rw [List.eq_nil_iff_forall_not_mem]
    constructor
    · intro hnone
      refine ⟨?_, ?_, ?_⟩
      · by_contra hno
        exact hnone _ (hof .active hno)
      · by_contra hno
        exact hnone _ (hof .inactive (not_or.mp hno))
      · by_contra hno
        exact hnone reservedWarning ((hmem _).mpr (Or.inr (Or.inr ⟨hreserved ▸ hno, rfl⟩)))
    · rintro ⟨ha, hi, hr⟩ w hw
      have hno : ∀ root, ¬ Unresolved header (scanned data) root := by
        intro root hu
        cases root with
        | active => exact hu ha
        | inactive =>
          rcases hi with hi | hi
          · exact hu.1 hi
          · exact hu.2 hi
      rcases (hmem w).mp hw with ⟨root, damage, hd, -⟩ | ⟨root, hu, -⟩ | ⟨hne, -⟩
      · exact hno root (unresolved_of_damage hd)
      · exact hno root hu
      · exact hne (hreserved.trans hr)
  · intro root hm
    have hno : ¬ Unresolved header (scanned data) root := by
      intro hu
      cases root with
      | active => exact hu hm
      | inactive => exact hu.2 hm
    refine ⟨fun hw => ?_, fun damage hw => hno (hback root damage hw)⟩
    rcases (hmem _).mp hw with ⟨root', damage, -, he⟩ | ⟨root', hu, he⟩ | ⟨-, he⟩
    · exact impossible_ne_unresolved _ _ _ he.symm
    · exact hno (unresolved_inj he ▸ hu)
    · exact (reservedWarning_ne root).1 he.symm

section
variable {ε : Type} (m : Measures ε) (isprintable : Char → Bool) (resolved digest : String)

/-- **The warnings of a recognised file never contradict each other**, for its
inspection, which returns, and for every extraction that returns. -/
theorem warnings_spec {data : Bytes} {header : RealmHeader}
    (h : parseHeader data = .ok (some header)) :
    (∃ analysis, analyzeMapping m isprintable resolved digest data none = .ok (analysis, [])) ∧
    ∀ minimumString analysis strings,
      analyzeMapping m isprintable resolved digest data minimumString = .ok (analysis, strings) →
      ∃ candidates, scanArrayCandidates data = .ok candidates ∧
        WarningLaw data header candidates analysis.warnings := by
  refine ⟨⟨_, analyzeMapping_inspect m isprintable resolved digest h⟩, ?_⟩
  intro minimumString analysis strings hrun
  refine ⟨_, scanArrayCandidates_eq data, ?_⟩
  rw [(analyzeMapping_ok m isprintable resolved digest h hrun).1]
  exact headerWarnings_law ((parseHeader_eq_some_iff data header).mp h) (mem_linked data)

/-- The tiny file has no warnings. -/
theorem warnings_spec_tiny :
    ∃ analysis, analyzeMapping ⟨(), fun _ => (), fun _ => false⟩ Char.isAlpha "/a.realm" "" tinyRealm
        none = .ok (analysis, []) ∧ analysis.warnings = [] := by
  obtain ⟨⟨analysis, hrun⟩, hall⟩ := warnings_spec ⟨(), fun _ => (), fun _ => false⟩
    Char.isAlpha "/a.realm" "" parseHeader_tinyRealm
  obtain ⟨candidates, hscan, hlaw⟩ := hall _ _ _ hrun
  cases hscan
  exact ⟨analysis, hrun, hlaw.none_iff.mpr (by decide +kernel)⟩

end

end Pyrealm
