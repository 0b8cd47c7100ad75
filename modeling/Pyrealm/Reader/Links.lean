import Mathlib.Logic.Relation
import Pyrealm.Reader.Record

/-!
# Equality of links

`RealmLink.__eq__` and `__hash__` over histories in which Realms are opened and
released and links are made and forgotten.  A released Realm's weak references
all give `None`.

    a == b  ↔  the same Realm and keys, for all links    ↔  Separate      (linkLaw_iff)

* `links_equal_stable`: in histories of safe releases, `==` is that relation, and
  its answers never change.
-/

namespace Pyrealm.Reader

/-! ## Data -/

/-- The Realm a link was created by stays in the weak reference as an address;
whether it still refers to anything depends on the moment. -/
structure RealmLink where
  realmRef : Nat
  tableKey : Int
  objectKey : Int
deriving DecidableEq, Repr

structure World where
  /-- How many Realms were opened so far: the address of the next. -/
  opened : Nat
  alive : List Nat
  links : List RealmLink

def World.initial : World := ⟨0, [], []⟩

/-! ## Algorithm -/

/-- `self._realm_ref()` -/
def World.deref (s : World) (realmRef : Nat) : Option Nat :=
  if realmRef ∈ s.alive then some realmRef else none

/-- `RealmLink.__eq__` of two links; `is` compares the objects referred to, and
`None` is `None`. -/
def RealmLink.eq (s : World) (a b : RealmLink) : Bool :=
  decide (s.deref a.realmRef = s.deref b.realmRef) && decide (a.tableKey = b.tableKey) &&
    decide (a.objectKey = b.objectKey)

section
/- `hash` of a tuple of the class and two integers. -/
variable (hashTuple : Int × Int → Int)

/-- `RealmLink.__hash__` -/
def RealmLink.hash (a : RealmLink) : Int := hashTuple (a.tableKey, a.objectKey)

end

/-! ## Histories -/

inductive Event where
  | opened
  | linked (link : RealmLink)
  | released (realm : Nat)
  | forgot (kept : List RealmLink)

inductive Step : World → Event → World → Prop
  | opened (s : World) :
      Step s .opened { s with opened := s.opened + 1, alive := s.opened :: s.alive }
  | linked (s : World) (link : RealmLink) (h : link.realmRef ∈ s.alive) :
      Step s (.linked link) { s with links := link :: s.links }
  | released (s : World) (realm : Nat) (h : realm ∈ s.alive) :
      Step s (.released realm) { s with alive := s.alive.filter (· ≠ realm) }
  | forgot (s : World) (kept : List RealmLink) (h : kept ⊆ s.links) :
      Step s (.forgot kept) { s with links := kept }

def RealmLink.SameKeys (a b : RealmLink) : Prop :=
  a.tableKey = b.tableKey ∧ a.objectKey = b.objectKey

/-- No link of a Realm released before has the keys of a link of this one. -/
def Safe (s : World) : Event → Prop
  | .released realm => ∀ a ∈ s.links, a.realmRef = realm → ∀ b ∈ s.links, b.realmRef ∉ s.alive →
      ¬ a.SameKeys b
  | _ => True

def SafeStep (s t : World) : Prop := ∃ e, Safe s e ∧ Step s e t

/-! ## The law -/

/-- Created by the same Realm with equal keys. -/
def RealmLink.SameOrigin (a b : RealmLink) : Prop := a.realmRef = b.realmRef ∧ a.SameKeys b

/-- What `==` should be. -/
def LinkLaw (s : World) : Prop := ∀ a ∈ s.links, ∀ b ∈ s.links, a.eq s b ↔ a.SameOrigin b

/-- Two links of different Realms, both released, never have equal keys. -/
def Separate (s : World) : Prop :=
  ∀ a ∈ s.links, ∀ b ∈ s.links, a.realmRef ∉ s.alive → b.realmRef ∉ s.alive → a.SameKeys b →
    a.realmRef = b.realmRef

theorem deref_eq_iff (s : World) (r r' : Nat) :
    s.deref r = s.deref r' ↔ r = r' ∨ r ∉ s.alive ∧ r' ∉ s.alive := by
  unfold World.deref
  by_cases h : r ∈ s.alive <;> by_cases h' : r' ∈ s.alive
  · simp [h, h']
  · rw [if_pos h, if_neg h']
    simp only [reduceCtorEq, false_iff, not_or]
    exact ⟨fun he => h' (he ▸ h), fun hn => hn.1 h⟩
  · rw [if_neg h, if_pos h']
    simp only [reduceCtorEq, false_iff, not_or]
    exact ⟨fun he => h (he ▸ h'), fun hn => hn.2 h'⟩
  · simp [h, h']

theorem eq_iff (s : World) (a b : RealmLink) :
    a.eq s b ↔ (a.realmRef = b.realmRef ∨ a.realmRef ∉ s.alive ∧ b.realmRef ∉ s.alive) ∧
      a.SameKeys b := by
  rw [RealmLink.eq, Bool.and_eq_true, Bool.and_eq_true, decide_eq_true_iff, decide_eq_true_iff,
    decide_eq_true_iff, deref_eq_iff, and_assoc]
  rfl

/-- **When `==` is right, in one state.** -/
theorem linkLaw_iff (s : World) : LinkLaw s ↔ Separate s := by
  constructor
  · intro h a ha b hb hda hdb hk
    exact ((h a ha b hb).mp ((eq_iff s a b).mpr ⟨Or.inr ⟨hda, hdb⟩, hk⟩)).1
  · intro h a ha b hb
    rw [eq_iff]
    constructor
    · rintro ⟨hr | ⟨hda, hdb⟩, hk⟩
      · exact ⟨hr, hk⟩
      · exact ⟨h a ha b hb hda hdb hk, hk⟩
    · rintro ⟨hr, hk⟩
      exact ⟨Or.inl hr, hk⟩

theorem separate_initial : Separate World.initial := nofun

theorem RealmLink.SameKeys.symm {a b : RealmLink} (h : a.SameKeys b) : b.SameKeys a :=
  ⟨h.1.symm, h.2.symm⟩

theorem not_mem_filter_ne {l : List Nat} {r r' : Nat} :
    r' ∉ l.filter (· ≠ r) ↔ r' = r ∨ r' ∉ l := by
  rw [List.mem_filter, decide_eq_true_iff, not_and, not_not]
  constructor
  · intro h
    by_cases hm : r' ∈ l
    · exact Or.inl (h hm)
    · exact Or.inr hm
  · rintro (rfl | hm) hm'
    · rfl
    · exact absurd hm' hm

/-- A release keeps links apart exactly when it is safe. -/
theorem separate_release_iff {s : World} (hs : Separate s) (realm : Nat) (h : realm ∈ s.alive) :
    Separate { s with alive := s.alive.filter (· ≠ realm) } ↔ Safe s (.released realm) := by
  constructor
  · intro ht a ha hr b hb hdb hk
    have hd : a.realmRef ∉ s.alive.filter (· ≠ realm) := not_mem_filter_ne.mpr (Or.inl hr)
    have he := ht a ha b hb hd (not_mem_filter_ne.mpr (Or.inr hdb)) hk
    rw [← he, hr] at hdb
    exact hdb h
  · intro hsafe a ha b hb hda hdb hk
    rcases not_mem_filter_ne.mp hda with hra | hda
    · rcases not_mem_filter_ne.mp hdb with hrb | hdb
      · exact hra.trans hrb.symm
      · exact absurd hk (hsafe a ha hra b hb hdb)
    · rcases not_mem_filter_ne.mp hdb with hrb | hdb
      · exact absurd hk.symm (hsafe b hb hrb a ha hda)
      · exact hs a ha b hb hda hdb hk

theorem Step.separate {s t : World} {e : Event} (h : Step s e t) (hs : Separate s)
    (hsafe : Safe s e) : Separate t := by
  cases h with
  | opened =>
    intro a ha b hb hda hdb
    rw [List.mem_cons, not_or] at hda hdb
    exact hs a ha b hb hda.2 hdb.2
  | linked link hl =>
    -- the new link's Realm is alive
    intro a ha b hb hda hdb
    rcases List.mem_cons.mp ha with rfl | ha
    · exact absurd hl hda
    · rcases List.mem_cons.mp hb with rfl | hb
      · exact absurd hl hdb
      · exact hs a ha b hb hda hdb
  | released realm hr => exact (separate_release_iff hs realm hr).mpr hsafe
  | forgot kept hk => exact fun a ha b hb => hs a (hk ha) b (hk hb)

theorem separate_of_safeSteps {s t : World} (hs : Separate s)
    (h : Relation.ReflTransGen SafeStep s t) : Separate t := by
  induction h with
  | refl => exact hs
  | tail _ hstep ih =>
    obtain ⟨e, hsafe, hstep⟩ := hstep
    exact hstep.separate ih hsafe

/-! ## Equivalence and hash, in every state -/

theorem eq_refl (s : World) (a : RealmLink) : a.eq s a :=
  (eq_iff s a a).mpr ⟨Or.inl rfl, rfl, rfl⟩

theorem eq_symm {s : World} {a b : RealmLink} (h : a.eq s b) : b.eq s a := by
  rw [eq_iff] at h ⊢
  exact ⟨h.1.imp Eq.symm And.symm, h.2.symm⟩

theorem eq_trans {s : World} {a b c : RealmLink} (h : a.eq s b) (h' : b.eq s c) : a.eq s c := by
  rw [eq_iff] at h h' ⊢
  refine ⟨?_, h.2.1.trans h'.2.1, h.2.2.trans h'.2.2⟩
  rcases h.1 with hr | ⟨hda, hdb⟩
  · rw [hr]
    exact h'.1
  · rcases h'.1 with hr | ⟨-, hdc⟩
    · exact Or.inr ⟨hda, hr ▸ hdb⟩
    · exact Or.inr ⟨hda, hdc⟩

theorem hash_eq_of_eq (hashTuple : Int × Int → Int) {s : World} {a b : RealmLink} (h : a.eq s b) :
    a.hash hashTuple = b.hash hashTuple := by
  rw [eq_iff] at h
  rw [RealmLink.hash, RealmLink.hash, h.2.1, h.2.2]

/-- **Link equality in histories of safe releases**: the law, an equivalence
consistent with `hash`, and answers that no later event changes. -/
theorem links_equal_stable (hashTuple : Int × Int → Int) {s t : World}
    (hs : Relation.ReflTransGen SafeStep World.initial s)
    (ht : Relation.ReflTransGen SafeStep s t) :
    LinkLaw s ∧
    (∀ a b c : RealmLink, a.eq s a ∧ (a.eq s b → b.eq s a) ∧ (a.eq s b → b.eq s c → a.eq s c) ∧
      (a.eq s b → a.hash hashTuple = b.hash hashTuple)) ∧
    ∀ a ∈ s.links, ∀ b ∈ s.links, a ∈ t.links → b ∈ t.links → a.eq t b = a.eq s b := by
  have hsep := separate_of_safeSteps separate_initial hs
  have hlaw := (linkLaw_iff s).mpr hsep
  have hlaw' := (linkLaw_iff t).mpr (separate_of_safeSteps hsep ht)
  refine ⟨hlaw, fun a b c => ⟨eq_refl s a, eq_symm, eq_trans, hash_eq_of_eq hashTuple⟩, ?_⟩
  intro a ha b hb ha' hb'
  rw [Bool.eq_iff_iff, hlaw' a ha' b hb', hlaw a ha b hb]

/-! ## Two Realms with links to the same keys -/

def bothAlive : World := ⟨2, [1, 0], [⟨1, 5, 3⟩, ⟨0, 5, 3⟩]⟩

def oneReleased : World := { bothAlive with alive := [1] }

def bothReleased : World := { bothAlive with alive := [] }

theorem safeSteps_bothAlive : Relation.ReflTransGen SafeStep World.initial bothAlive :=
  .tail (.tail (.tail (.tail .refl ⟨.opened, trivial, .opened _⟩) ⟨.opened, trivial, .opened _⟩)
    ⟨.linked ⟨0, 5, 3⟩, trivial, .linked _ _ (by decide)⟩)
    ⟨.linked ⟨1, 5, 3⟩, trivial, .linked _ _ (by decide)⟩

theorem safeStep_oneReleased : SafeStep bothAlive oneReleased := by
  refine ⟨.released 0, fun a _ _ b hb hdb => ?_, .released _ 0 (by decide)⟩
  have halive : ∀ b ∈ bothAlive.links, b.realmRef ∈ bothAlive.alive := by decide
  exact absurd (halive b hb) hdb

theorem links_equal_stable_tiny :
    LinkLaw bothAlive ∧ RealmLink.eq oneReleased ⟨0, 5, 3⟩ ⟨1, 5, 3⟩ = false := by
  obtain ⟨hlaw, -, hsame⟩ := links_equal_stable (fun _ => 0) safeSteps_bothAlive
    (.single safeStep_oneReleased)
  refine ⟨hlaw, ?_⟩
  rw [hsame _ (by decide) _ (by decide) (by decide) (by decide)]
  decide

/-- The second release makes links of the two Realms equal. -/
theorem links_equal_after_release :
    Relation.ReflTransGen SafeStep World.initial oneReleased ∧
    Step oneReleased (.released 1) bothReleased ∧
    RealmLink.eq oneReleased ⟨0, 5, 3⟩ ⟨1, 5, 3⟩ = false ∧
    RealmLink.eq bothReleased ⟨0, 5, 3⟩ ⟨1, 5, 3⟩ = true ∧ ¬ LinkLaw bothReleased := by
  refine ⟨safeSteps_bothAlive.tail safeStep_oneReleased, .released _ 1 (by decide), by decide,
    by decide, fun hlaw => ?_⟩
  have ho := (hlaw ⟨0, 5, 3⟩ (by decide) ⟨1, 5, 3⟩ (by decide)).mp (by decide)
  exact absurd ho.1 (by decide)

end Pyrealm.Reader
