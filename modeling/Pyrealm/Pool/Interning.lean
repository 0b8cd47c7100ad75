import Mathlib.Logic.Function.Basic
import Mathlib.Logic.Relation
import Pyrealm.Pool.PyDict

/-!
# Objects interned in a weak table

Objects live at addresses that are never used twice; a table maps keys to
addresses without keeping the objects alive.  Collection frees objects nobody
holds and drops table entries whose object is gone, in any order, at any time.

    live r = some o  →  table[key o] = r        (Interned.listed)

* `Shrunk`: all that collection can do (`shrunk_of_collected`).
* `Interned.unique`: one live object a key.
* `Interned.lookup_eq_some_iff`: look-up finds the live object of a key.
* `Kept`: what held objects keep from one heap to a later one.
* `Older`: what any object of the later heap that was there before has kept.
-/

namespace Interning

open Py

structure Heap (κ ω : Type) where
  live : Nat → Option ω
  fresh : Nat
  table : Dict κ Nat
  /-- The addresses somebody holds. -/
  roots : List Nat

variable {κ ω φ : Type}

namespace Heap

def empty : Heap κ ω := ⟨fun _ => none, 0, Dict.empty, []⟩

def hold (h : Heap κ ω) (r : Nat) : Heap κ ω := { h with roots := r :: h.roots }

/-- A new object, at an address of its own. -/
def allocate (h : Heap κ ω) (o : ω) : Heap κ ω where
  live := Function.update h.live h.fresh (some o)
  fresh := h.fresh + 1
  table := h.table
  roots := h.fresh :: h.roots

def update (h : Heap κ ω) (r : Nat) (o : ω) : Heap κ ω :=
  { h with live := Function.update h.live r (some o) }

def release (h : Heap κ ω) (roots : List Nat) : Heap κ ω := { h with roots := roots }

def free (h : Heap κ ω) (r : Nat) : Heap κ ω := { h with live := Function.update h.live r none }

theorem live_free (h : Heap κ ω) (r r' : Nat) :
    (h.free r).live r' = if r' = r then none else h.live r' := Function.update_apply _ _ _ _

theorem live_allocate (h : Heap κ ω) (o : ω) (r : Nat) :
    (h.allocate o).live r = if r = h.fresh then some o else h.live r := Function.update_apply _ _ _ _

theorem live_update (h : Heap κ ω) (r : Nat) (o : ω) (r' : Nat) :
    (h.update r o).live r' = if r' = r then some o else h.live r' := Function.update_apply _ _ _ _

/-- Where a heap with one more object has an object. -/
theorem live_allocate_cases {h : Heap κ ω} {o : ω} {r : Nat} {o' : ω} (hr : (h.allocate o).live r = some o') :
    (r = h.fresh ∧ o' = o) ∨ (r ≠ h.fresh ∧ h.live r = some o') := by
  rw [live_allocate] at hr
  split at hr
  · next he => exact Or.inl ⟨he, (Option.some.inj hr).symm⟩
  · next hne => exact Or.inr ⟨hne, hr⟩

theorem live_update_cases {h : Heap κ ω} {r : Nat} {o : ω} {r' : Nat} {o' : ω}
    (hr : (h.update r o).live r' = some o') :
    (r' = r ∧ o' = o) ∨ (r' ≠ r ∧ h.live r' = some o') := by
  rw [live_update] at hr
  split at hr
  · next he => exact Or.inl ⟨he, (Option.some.inj hr).symm⟩
  · next hne => exact Or.inr ⟨hne, hr⟩

variable [DecidableEq κ]

/-- `table.get(k)`: the object, unless it is gone. -/
def lookup (h : Heap κ ω) (k : κ) : Option Nat :=
  (h.table.get? k).filter fun r => (h.live r).isSome

def assign (h : Heap κ ω) (k : κ) (r : Nat) : Heap κ ω := { h with table := h.table.set k r }

def purge (h : Heap κ ω) (k : κ) : Heap κ ω := { h with table := h.table.erase k }

theorem lookup_eq_some (h : Heap κ ω) (k : κ) (r : Nat) :
    h.lookup k = some r ↔ h.table.get? k = some r ∧ ∃ o, h.live r = some o := by
  rw [lookup, Option.filter_eq_some_iff, Option.isSome_iff_exists]

end Heap

/-! ## Collection -/

section
variable [DecidableEq κ]

inductive Collects (h : Heap κ ω) : Heap κ ω → Prop
  | free (r : Nat) (hr : r ∉ h.roots) : Collects h (h.free r)
  | purge (k : κ) (hk : h.lookup k = none) : Collects h (h.purge k)

def Collected : Heap κ ω → Heap κ ω → Prop := Relation.ReflTransGen Collects

/-- All that collection can do. -/
structure Shrunk (h h' : Heap κ ω) : Prop where
  roots : h'.roots = h.roots
  fresh : h'.fresh = h.fresh
  held : ∀ r ∈ h.roots, h'.live r = h.live r
  live : ∀ r o, h'.live r = some o → h.live r = some o
  table : ∀ k r, h'.table.get? k = some r → h.table.get? k = some r
  entry : ∀ k r o, h.table.get? k = some r → h'.live r = some o → h'.table.get? k = some r

theorem Shrunk.refl (h : Heap κ ω) : Shrunk h h :=
  ⟨rfl, rfl, fun _ _ => rfl, fun _ _ => id, fun _ _ => id, fun _ _ _ hk _ => hk⟩

theorem Shrunk.trans {h h' h'' : Heap κ ω} (h1 : Shrunk h h') (h2 : Shrunk h' h'') :
    Shrunk h h'' where
  roots := h2.roots.trans h1.roots
  fresh := h2.fresh.trans h1.fresh
  held := fun r hr => (h2.held r (h1.roots ▸ hr)).trans (h1.held r hr)
  live := fun r o hr => h1.live r o (h2.live r o hr)
  table := fun k r hk => h1.table k r (h2.table k r hk)
  entry := fun k r o hk hr => h2.entry k r o (h1.entry k r o hk (h2.live r o hr)) hr

theorem Collects.shrunk {h h' : Heap κ ω} (hc : Collects h h') : Shrunk h h' := by
  cases hc with
  | free r hr =>
    refine ⟨rfl, rfl, ?_, ?_, fun _ _ => id, fun _ _ _ hk _ => hk⟩
    · intro r' hr'
      rw [Heap.live_free, if_neg]
      rintro rfl
      exact hr hr'
    · intro r' o ho
      rw [Heap.live_free] at ho
      split at ho
      · cases ho
      · exact ho
  | purge k hk =>
    refine ⟨rfl, rfl, fun _ _ => rfl, fun _ _ => id, ?_, ?_⟩
    · intro k' r hk'
      rw [Heap.purge, Dict.get?_erase] at hk'
      split at hk'
      · cases hk'
      · exact hk'
    · intro k' r o hk' ho
      rw [Heap.purge, Dict.get?_erase, if_neg]
      · exact hk'
      · rintro rfl
        rw [(h.lookup_eq_some _ r).mpr ⟨hk', o, ho⟩] at hk
        cases hk

theorem shrunk_of_collected {h h' : Heap κ ω} (hc : Collected h h') : Shrunk h h' := by
  induction hc with
  | refl => exact Shrunk.refl h
  | tail _ hstep ih => exact ih.trans hstep.shrunk

end

/-! ## The invariant -/

section
variable [DecidableEq κ] (key : ω → κ)

/-- Every live object but the pending one is listed under its key. -/
structure Interned (pending : Option Nat) (h : Heap κ ω) : Prop where
  listed : ∀ r o, h.live r = some o → some r ≠ pending → h.table.get? (key o) = some r
  own : ∀ k r o, h.table.get? k = some r → h.live r = some o → key o = k
  liveOld : ∀ r o, h.live r = some o → r < h.fresh
  tableOld : ∀ k r, h.table.get? k = some r → r < h.fresh
  held : ∀ r ∈ h.roots, ∃ o, h.live r = some o

/-- No live object but at `r` has the key. -/
def VacantBut (h : Heap κ ω) (k : κ) (r : Nat) : Prop :=
  ∀ r' o, h.live r' = some o → r' ≠ r → key o ≠ k

variable {key} {pending : Option Nat} {h : Heap κ ω}

/-- **One live object a key.** -/
theorem Interned.unique (hi : Interned key none h) {r r' : Nat} {o o' : ω} (ho : h.live r = some o)
    (ho' : h.live r' = some o') (hk : key o = key o') : r = r' := by
  have h1 := hi.listed r o ho nofun
  have h2 := hi.listed r' o' ho' nofun
  rw [hk, h2] at h1
  exact (Option.some.inj h1).symm

theorem Interned.lookup_eq_some_iff (hi : Interned key none h) (k : κ) (r : Nat) :
    h.lookup k = some r ↔ ∃ o, h.live r = some o ∧ key o = k := by
  rw [h.lookup_eq_some]
  constructor
  · rintro ⟨hk, o, ho⟩
    exact ⟨o, ho, hi.own k r o hk ho⟩
  · rintro ⟨o, ho, rfl⟩
    exact ⟨hi.listed r o ho nofun, o, ho⟩

theorem Interned.vacant_of_lookup (hi : Interned key none h) {k : κ} (hk : h.lookup k = none)
    (r : Nat) : VacantBut key h k r := by
  intro r' o ho _ hko
  rw [(hi.lookup_eq_some_iff k r').mpr ⟨o, ho, hko⟩] at hk
  cases hk

theorem interned_empty (key : ω → κ) : Interned key none (Heap.empty : Heap κ ω) :=
  ⟨nofun, nofun, nofun, nofun, nofun⟩

theorem Interned.shrunk (hi : Interned key pending h) {h' : Heap κ ω} (hs : Shrunk h h') :
    Interned key pending h' where
  listed := fun r o ho hp => hs.entry _ r o (hi.listed r o (hs.live r o ho) hp) ho
  own := fun k r o hk ho => hi.own k r o (hs.table k r hk) (hs.live r o ho)
  liveOld := fun r o ho => hs.fresh ▸ hi.liveOld r o (hs.live r o ho)
  tableOld := fun k r hk => hs.fresh ▸ hi.tableOld k r (hs.table k r hk)
  held := fun r hr => by
    rw [hs.roots] at hr
    rw [hs.held r hr]
    exact hi.held r hr

theorem VacantBut.shrunk {k : κ} {r : Nat} (hv : VacantBut key h k r) {h' : Heap κ ω}
    (hs : Shrunk h h') : VacantBut key h' k r :=
  fun r' o ho => hv r' o (hs.live r' o ho)

theorem Interned.hold (hi : Interned key pending h) {r : Nat} {o : ω} (ho : h.live r = some o) :
    Interned key pending (h.hold r) where
  listed := hi.listed
  own := hi.own
  liveOld := hi.liveOld
  tableOld := hi.tableOld
  held := List.forall_mem_cons.mpr ⟨⟨o, ho⟩, hi.held⟩

theorem Interned.release (hi : Interned key pending h) {roots : List Nat}
    (hr : roots ⊆ h.roots) : Interned key pending (h.release roots) where
  listed := hi.listed
  own := hi.own
  liveOld := hi.liveOld
  tableOld := hi.tableOld
  held := fun r hm => hi.held r (hr hm)

theorem Interned.allocate (hi : Interned key none h) (o : ω) :
    Interned key (some h.fresh) (h.allocate o) where
  listed := by
    intro r o' ho hp
    rcases Heap.live_allocate_cases ho with ⟨rfl, -⟩ | ⟨-, ho⟩
    · exact absurd rfl hp
    · exact hi.listed r o' ho nofun
  own := by
    intro k r o' hk ho
    rcases Heap.live_allocate_cases ho with ⟨rfl, -⟩ | ⟨-, ho⟩
    · exact absurd (hi.tableOld k _ hk) (Nat.lt_irrefl _)
    · exact hi.own k r o' hk ho
  liveOld := by
    intro r o' ho
    show r < h.fresh + 1
    rcases Heap.live_allocate_cases ho with ⟨rfl, -⟩ | ⟨-, ho⟩
    · omega
    · exact Nat.lt_succ_of_lt (hi.liveOld r o' ho)
  tableOld := fun k r hk => Nat.lt_succ_of_lt (hi.tableOld k r hk)
  held := by
    refine List.forall_mem_cons.mpr ⟨⟨o, by rw [Heap.live_allocate, if_pos rfl]⟩, fun r hr => ?_⟩
    obtain ⟨o', ho⟩ := hi.held r hr
    exact ⟨o', by rw [Heap.live_allocate, if_neg (Nat.ne_of_lt (hi.liveOld r o' ho)), ho]⟩

omit [DecidableEq κ] in
theorem VacantBut.allocate {k : κ} (hv : VacantBut key h k h.fresh) (o : ω) :
    VacantBut key (h.allocate o) k h.fresh := by
  intro r o' ho hne
  rcases Heap.live_allocate_cases ho with ⟨rfl, -⟩ | ⟨-, ho⟩
  · exact absurd rfl hne
  · exact hv r o' ho hne

/-- The pending object takes the entry of its key, which no live object has. -/
theorem Interned.assign {r : Nat} {o : ω} (hi : Interned key (some r) h) (ho : h.live r = some o)
    (hv : VacantBut key h (key o) r) : Interned key none (h.assign (key o) r) where
  listed := by
    intro r' o' (ho' : h.live r' = some o') _
    show (h.table.set (key o) r).get? (key o') = some r'
    rw [Dict.get?_set]
    by_cases hr : r' = r
    · subst hr
      rw [ho] at ho'
      cases ho'
      rw [if_pos rfl]
    · rw [if_neg (hv r' o' ho' hr), hi.listed r' o' ho' (fun he => hr (Option.some.inj he))]
  own := by
    intro k r' o' hk ho'
    rw [Heap.assign, Dict.get?_set] at hk
    split at hk
    · next he =>
      cases hk
      rw [show h.live r = some o' from ho'] at ho
      cases ho
      exact he.symm
    · exact hi.own k r' o' hk ho'
  liveOld := hi.liveOld
  tableOld := by
    intro k r' hk
    rw [Heap.assign, Dict.get?_set] at hk
    split at hk
    · cases hk
      exact hi.liveOld r o ho
    · exact hi.tableOld k r' hk
  held := hi.held

/-- Writing to an object without changing its key. -/
theorem Interned.update (hi : Interned key pending h) {r : Nat} {o o' : ω} (ho : h.live r = some o)
    (hk : key o' = key o) : Interned key pending (h.update r o') where
  listed := by
    intro r₁ o₁ h1 hp
    rcases Heap.live_update_cases h1 with ⟨rfl, rfl⟩ | ⟨-, h1⟩
    · rw [hk]
      exact hi.listed r₁ o ho hp
    · exact hi.listed r₁ o₁ h1 hp
  own := by
    intro k r₁ o₁ hk₁ h1
    rcases Heap.live_update_cases h1 with ⟨rfl, rfl⟩ | ⟨-, h1⟩
    · rw [hk]
      exact hi.own k r₁ o hk₁ ho
    · exact hi.own k r₁ o₁ hk₁ h1
  liveOld := by
    intro r₁ o₁ h1
    rcases Heap.live_update_cases h1 with ⟨rfl, rfl⟩ | ⟨-, h1⟩
    · exact hi.liveOld r₁ o ho
    · exact hi.liveOld r₁ o₁ h1
  tableOld := hi.tableOld
  held := by
    intro r₁ hr₁
    rw [Heap.live_update]
    split
    · exact ⟨o', rfl⟩
    · exact hi.held r₁ hr₁

end

/-! ## What held objects keep -/

section
variable (grows : ω → ω → Prop)

/-- Held objects stay held and alive, each as what it has grown to. -/
structure Kept (h h' : Heap κ ω) : Prop where
  roots : h.roots ⊆ h'.roots
  live : ∀ r ∈ h.roots, ∀ o, h.live r = some o → ∃ o', h'.live r = some o' ∧ grows o o'

variable {grows} {h h' : Heap κ ω}

theorem Kept.refl [IsPreorder ω grows] (h : Heap κ ω) : Kept grows h h :=
  ⟨fun _ => id, fun _ _ o ho => ⟨o, ho, refl_of grows o⟩⟩

theorem Kept.trans [IsPreorder ω grows] {h'' : Heap κ ω} (h1 : Kept grows h h')
    (h2 : Kept grows h' h'') : Kept grows h h'' where
  roots := fun _ hr => h2.roots (h1.roots hr)
  live := by
    intro r hr o ho
    obtain ⟨o', ho', he⟩ := h1.live r hr o ho
    obtain ⟨o'', ho'', he'⟩ := h2.live r (h1.roots hr) o' ho'
    exact ⟨o'', ho'', trans_of grows he he'⟩

theorem Kept.hold (hk : Kept grows h h') (r : Nat) : Kept grows h (h'.hold r) :=
  ⟨fun _ hr => List.mem_cons_of_mem _ (hk.roots hr), hk.live⟩

theorem Kept.update [IsPreorder ω grows] (hk : Kept grows h h') {r : Nat} {o o' : ω}
    (ho : h'.live r = some o) (hg : grows o o') : Kept grows h (h'.update r o') where
  roots := hk.roots
  live := by
    intro r₁ hr₁ o₁ ho₁
    obtain ⟨o₂, ho₂, he⟩ := hk.live r₁ hr₁ o₁ ho₁
    rw [Heap.live_update]
    split
    · next hr =>
      subst hr
      rw [ho] at ho₂
      cases ho₂
      exact ⟨o', rfl, trans_of grows he hg⟩
    · exact ⟨o₂, ho₂, he⟩

variable [DecidableEq κ]

theorem Kept.shrunk (hk : Kept grows h h') {h'' : Heap κ ω} (hs : Shrunk h' h'') :
    Kept grows h h'' where
  roots := hs.roots ▸ hk.roots
  live := fun r hr o ho => by
    rw [hs.held r (hk.roots hr)]
    exact hk.live r hr o ho

theorem Kept.assign (hk : Kept grows h h') (k : κ) (r : Nat) : Kept grows h (h'.assign k r) :=
  ⟨hk.roots, hk.live⟩

theorem Kept.allocate {key : ω → κ} {pending : Option Nat} (hk : Kept grows h h')
    (hi : Interned key pending h') (o : ω) : Kept grows h (h'.allocate o) where
  roots := fun _ hr => List.mem_cons_of_mem _ (hk.roots hr)
  live := by
    intro r hr o₁ ho₁
    obtain ⟨o', ho', he⟩ := hk.live r hr o₁ ho₁
    exact ⟨o', by rw [Heap.live_allocate, if_neg (Nat.ne_of_lt (hi.liveOld r o' ho')), ho'], he⟩

end

/-! ## What is left of a heap -/

section
variable (fixed : ω → φ)

/-- An address given out before has the object it had, or none. -/
structure Older (h h' : Heap κ ω) : Prop where
  fresh : h.fresh ≤ h'.fresh
  live : ∀ r o', r < h.fresh → h'.live r = some o' → ∃ o, h.live r = some o ∧ fixed o' = fixed o

variable {fixed} {h h' : Heap κ ω}

theorem Older.refl (h : Heap κ ω) : Older fixed h h := ⟨Nat.le_refl _, fun _ o _ ho => ⟨o, ho, rfl⟩⟩

theorem Older.hold (hk : Older fixed h h') (r : Nat) : Older fixed h (h'.hold r) :=
  ⟨hk.fresh, hk.live⟩

theorem Older.allocate (hk : Older fixed h h') (o : ω) : Older fixed h (h'.allocate o) where
  fresh := Nat.le_succ_of_le hk.fresh
  live := by
    intro r o' hr ho
    rcases Heap.live_allocate_cases ho with ⟨rfl, -⟩ | ⟨-, ho⟩
    · exact absurd hr (Nat.not_lt.mpr hk.fresh)
    · exact hk.live r o' hr ho

theorem Older.update (hk : Older fixed h h') {r : Nat} {o o' : ω} (ho : h'.live r = some o)
    (hf : fixed o' = fixed o) : Older fixed h (h'.update r o') where
  fresh := hk.fresh
  live := by
    intro r₁ o₁ hr₁ ho₁
    rcases Heap.live_update_cases ho₁ with ⟨rfl, rfl⟩ | ⟨-, ho₁⟩
    · obtain ⟨o₂, ho₂, he⟩ := hk.live r₁ o hr₁ ho
      exact ⟨o₂, ho₂, hf.trans he⟩
    · exact hk.live r₁ o₁ hr₁ ho₁

variable [DecidableEq κ]

theorem Older.assign (hk : Older fixed h h') (k : κ) (r : Nat) : Older fixed h (h'.assign k r) :=
  ⟨hk.fresh, hk.live⟩

theorem Older.shrunk (hk : Older fixed h h') {h'' : Heap κ ω} (hs : Shrunk h' h'') :
    Older fixed h h'' where
  fresh := hs.fresh ▸ hk.fresh
  live := fun r o hr ho => hk.live r o hr (hs.live r o ho)

end

end Interning
