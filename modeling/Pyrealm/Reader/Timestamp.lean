import Mathlib.Algebra.Order.Group.Unbundled.Int

/-!
# `RealmTimestamp.datetime`

The `timedelta` and `datetime` of the standard library, with the two range
checks that raise `OverflowError`.  A `datetime` is an exact number of
microseconds, so both are compared with the exact instant, in nanoseconds:

    0001-01-01 ≤ instant < 10000-01-01   ↔  a datetime is returned     (datetime_spec)
    it is a closest one                  ↔  `RoundsDown`               (datetime_closest_iff)

* `datetime_eq_ok`: the datetime returned is the instant, rounded down to a
  microsecond.
-/

namespace Pyrealm.Reader

/-! ## Data -/

/-- `RealmTimestamp` -/
structure RealmTimestamp where
  seconds : Int
  nanoseconds : Int
deriving DecidableEq, Repr

/-- The exceptions of `RealmTimestamp.datetime` and of the `datetime` module. -/
inductive TimestampError where
  | overflowError
  /-- `timestamp is outside the datetime range: seconds={…}, nanoseconds={…}` -/
  | realmError (seconds nanoseconds : Int)
deriving DecidableEq, Repr

/-- The days before January 1 of a year. -/
def daysBeforeYear (year : Int) : Int :=
  (year - 1) * 365 + (year - 1) / 4 - (year - 1) / 100 + (year - 1) / 400

/-- `date(year, 1, 1).toordinal()` -/
def newYear (year : Int) : Int := daysBeforeYear year + 1

/-- `date.max.toordinal()`, the day before January 1 of the year 10000. -/
def MAXORDINAL : Int := newYear 10000 - 1

/-- A `timedelta`, normalized as its constructor does. -/
structure Timedelta where
  days : Int
  seconds : Int
  microseconds : Int
  days_range : -999999999 ≤ days ∧ days ≤ 999999999
  seconds_range : 0 ≤ seconds ∧ seconds < 86400
  microseconds_range : 0 ≤ microseconds ∧ microseconds < 1000000
deriving DecidableEq

/-- A UTC `datetime`: its date by ordinal, its time by seconds and microseconds. -/
structure DateTime where
  ordinal : Int
  seconds : Int
  microseconds : Int
  ordinal_range : 1 ≤ ordinal ∧ ordinal ≤ MAXORDINAL
  seconds_range : 0 ≤ seconds ∧ seconds < 86400
  microseconds_range : 0 ≤ microseconds ∧ microseconds < 1000000
deriving DecidableEq

/-! ## Algorithm -/

/-- `dt.timedelta(seconds=seconds, microseconds=microseconds)` -/
def timedelta (seconds microseconds : Int) : Except TimestampError Timedelta :=
  let total := seconds * 1000000 + microseconds
  let days := total / 86400000000
  if h : -999999999 ≤ days ∧ days ≤ 999999999 then
    .ok
      { days := days
        seconds := total % 86400000000 / 1000000
        microseconds := total % 1000000
        days_range := h
        seconds_range := by omega
        microseconds_range := by omega }
  else .error .overflowError

/-- `_EPOCH + delta`; the epoch is at midnight. -/
def addEpoch (delta : Timedelta) : Except TimestampError DateTime :=
  let ordinal := newYear 1970 + delta.days
  if h : 1 ≤ ordinal ∧ ordinal ≤ MAXORDINAL then
    .ok
      { ordinal := ordinal
        seconds := delta.seconds
        microseconds := delta.microseconds
        ordinal_range := h
        seconds_range := delta.seconds_range
        microseconds_range := delta.microseconds_range }
  else .error .overflowError

/-- The `try` block of `RealmTimestamp.datetime`. -/
def RealmTimestamp.closest (t : RealmTimestamp) : Except TimestampError DateTime := do
  let delta ← timedelta t.seconds (t.nanoseconds / 1000)
  addEpoch delta

/-- `RealmTimestamp.datetime` -/
def RealmTimestamp.datetime (t : RealmTimestamp) : Except TimestampError DateTime :=
  match t.closest with
  | .ok d => .ok d
  | .error .overflowError => .error (.realmError t.seconds t.nanoseconds)
  | .error e => .error e

/-! ## Instants -/

/-- The exact instant, in nanoseconds after the epoch. -/
def RealmTimestamp.instant (t : RealmTimestamp) : Int := t.seconds * 1000000000 + t.nanoseconds

/-- The exact instant of a datetime, in nanoseconds after the epoch. -/
def DateTime.instant (d : DateTime) : Int :=
  ((d.ordinal - newYear 1970) * 86400 + d.seconds) * 1000000000 + d.microseconds * 1000

/-- The start of a year, in nanoseconds after the epoch. -/
def startOfYear (year : Int) : Int := (newYear year - newYear 1970) * 86400 * 1000000000

/-- The instant of `datetime.max`. -/
def lastInstant : Int := startOfYear 10000 - 1000

/-- No other datetime is strictly nearer to the instant. -/
def Closest (instant : Int) (d : DateTime) : Prop :=
  ∀ d' : DateTime, |d.instant - instant| ≤ |d'.instant - instant|

/-- The microsecond below is no farther than the one above, if there is one above. -/
def RoundsDown (t : RealmTimestamp) : Prop := t.nanoseconds % 1000 ≤ 500 ∨ lastInstant ≤ t.instant

theorem newYear_epoch : newYear 1970 = 719163 := by decide

theorem maxordinal_eq : MAXORDINAL = 3652059 := by decide

theorem startOfYear_one : startOfYear 1 = -62135596800000000000 := by decide

theorem startOfYear_tenThousand : startOfYear 10000 = 253402300800000000000 := by decide

/-- Instants of datetimes are whole microseconds. -/
theorem DateTime.instant_mod (d : DateTime) : d.instant % 1000 = 0 := by
  unfold DateTime.instant
  omega

theorem DateTime.instant_range (d : DateTime) :
    startOfYear 1 ≤ d.instant ∧ d.instant ≤ lastInstant := by
  have h1 := d.ordinal_range
  have h2 := d.seconds_range
  have h3 := d.microseconds_range
  rw [maxordinal_eq] at h1
  rw [lastInstant, startOfYear_one, startOfYear_tenThousand, DateTime.instant, newYear_epoch]
  omega

/-- A datetime is determined by its instant. -/
theorem DateTime.instant_inj {d d' : DateTime} (h : d.instant = d'.instant) : d = d' := by
  obtain ⟨o, s, us, h1, h2, h3⟩ := d
  obtain ⟨o', s', us', h1', h2', h3'⟩ := d'
  simp only [DateTime.instant] at h
  have ho : o = o' := by omega
  have hs : s = s' := by omega
  have hus : us = us' := by omega
  subst ho hs hus
  rfl

/-- Every whole microsecond in range is a datetime. -/
theorem exists_dateTime {instant : Int} (hmod : instant % 1000 = 0)
    (hlo : startOfYear 1 ≤ instant) (hhi : instant ≤ lastInstant) :
    ∃ d : DateTime, d.instant = instant := by
  rw [startOfYear_one] at hlo
  rw [lastInstant, startOfYear_tenThousand] at hhi
  refine ⟨⟨instant / 86400000000000 + 719163, instant % 86400000000000 / 1000000000,
    instant % 1000000000 / 1000, ?_, by omega, by omega⟩, ?_⟩
  · rw [maxordinal_eq]
    omega
  · unfold DateTime.instant
    simp only [newYear_epoch]
    omega

/-! ## What is returned -/

theorem timedelta_eq_ok {seconds microseconds : Int} {delta : Timedelta}
    (h : timedelta seconds microseconds = .ok delta) :
    (delta.days * 86400 + delta.seconds) * 1000000 + delta.microseconds =
      seconds * 1000000 + microseconds := by
  unfold timedelta at h
  simp only at h
  split at h
  · cases h
    show (_ / _ * 86400 + _ % _ / 1000000) * 1000000 + _ % 1000000 = _
    omega
  · cases h

/-- **The instant, rounded down to a microsecond.** -/
theorem datetime_eq_ok {t : RealmTimestamp} {d : DateTime} (h : t.datetime = .ok d) :
    d.instant = t.instant - t.nanoseconds % 1000 := by
  have hc : t.closest = .ok d := by
    unfold RealmTimestamp.datetime at h
    split at h
    · next d' hc =>
      cases h
      exact hc
    · cases h
    · cases h
  unfold RealmTimestamp.closest at hc
  cases hdelta : timedelta t.seconds (t.nanoseconds / 1000) with
  | error e =>
    rw [hdelta] at hc
    cases hc
  | ok delta =>
    rw [hdelta] at hc
    change addEpoch delta = .ok d at hc
    unfold addEpoch at hc
    simp only at hc
    split at hc
    · cases hc
      have htotal := timedelta_eq_ok hdelta
      rw [DateTime.instant, RealmTimestamp.instant]
      show ((newYear 1970 + delta.days - newYear 1970) * 86400 + delta.seconds) * 1000000000 +
        delta.microseconds * 1000 = _
      omega
    · cases hc

/-- The two range checks together. -/
theorem closest_cases (t : RealmTimestamp) :
    (∃ d, t.closest = .ok d ∧ startOfYear 1 ≤ t.instant ∧ t.instant < startOfYear 10000) ∨
      (t.closest = .error .overflowError ∧
        (t.instant < startOfYear 1 ∨ startOfYear 10000 ≤ t.instant)) := by
  rw [startOfYear_one, startOfYear_tenThousand, RealmTimestamp.instant]
  unfold RealmTimestamp.closest timedelta
  simp only
  split
  · next hdays =>
    show (∃ d, addEpoch _ = .ok d ∧ _) ∨ (addEpoch _ = _ ∧ _)
    unfold addEpoch
    simp only [newYear_epoch, maxordinal_eq]
    split
    · exact Or.inl ⟨_, rfl, by omega⟩
    · exact Or.inr ⟨rfl, by omega⟩
  · -- more days than a `timedelta` has are more than a `datetime` reaches
    exact Or.inr ⟨rfl, by omega⟩

/-- **The range is the years 1 to 9999, to the nanosecond**: `RealmError` is raised
outside it and nothing else ever is; inside, the datetime is a monotone function of the
exact instant alone. -/
theorem datetime_spec (t : RealmTimestamp) :
    (t.datetime = .error (.realmError t.seconds t.nanoseconds) ↔
      ¬(startOfYear 1 ≤ t.instant ∧ t.instant < startOfYear 10000)) ∧
    (∀ e, t.datetime = .error e → e = .realmError t.seconds t.nanoseconds) ∧
    ∀ (t' : RealmTimestamp) (d d' : DateTime), t.datetime = .ok d → t'.datetime = .ok d' →
      (t.instant = t'.instant → d = d') ∧ (t.instant ≤ t'.instant → d.instant ≤ d'.instant) := by
  refine ⟨?_, ?_, ?_⟩
  · rcases closest_cases t with ⟨d, hd, hrange⟩ | ⟨he, hrange⟩
    · simp [RealmTimestamp.datetime, hd, hrange]
    · simp only [RealmTimestamp.datetime, he, true_iff]
      omega
  · intro e h
    rcases closest_cases t with ⟨d, hd, -⟩ | ⟨he, -⟩
    · simp [RealmTimestamp.datetime, hd] at h
    · simp only [RealmTimestamp.datetime, he] at h
      cases h
      rfl
  · intro t' d d' hd hd'
    have h := datetime_eq_ok hd
    have h' := datetime_eq_ok hd'
    have hr : t.nanoseconds % 1000 = t.instant % 1000 := by
      unfold RealmTimestamp.instant
      omega
    have hr' : t'.nanoseconds % 1000 = t'.instant % 1000 := by
      unfold RealmTimestamp.instant
      omega
    constructor
    · intro he
      apply DateTime.instant_inj
      rw [h, h', hr, hr', he]
    · intro hle
      omega

/-- The last microsecond of the year 9999. -/
def latest : DateTime := ⟨MAXORDINAL, 86399, 999999, by decide, by decide, by decide⟩

/-- Just past the last instant, and the last one written in two ways. -/
theorem datetime_spec_last :
    RealmTimestamp.datetime ⟨253402300800, 0⟩ = .error (.realmError 253402300800 0) ∧
      RealmTimestamp.datetime ⟨253402300800, -1⟩ = .ok latest ∧
      ∀ d, RealmTimestamp.datetime ⟨253402300799, 999999999⟩ = .ok d → latest = d := by
  refine ⟨(datetime_spec _).1.mpr (by decide), rfl, fun d hd => ?_⟩
  exact ((datetime_spec ⟨253402300800, -1⟩).2.2 _ _ d rfl hd).1 rfl

/-! ## The closest datetime -/

/-- The epoch and the microsecond before it. -/
def epochDateTime : DateTime := ⟨719163, 0, 0, by decide, by decide, by decide⟩
def beforeEpoch : DateTime := ⟨719162, 86399, 999999, by decide, by decide, by decide⟩

/-- **The datetime returned is a closest one in exactly the case that rounding down is.** -/
theorem datetime_closest_iff {t : RealmTimestamp} {d : DateTime} (h : t.datetime = .ok d) :
    Closest t.instant d ↔ RoundsDown t := by
  have hd := datetime_eq_ok h
  have hmod := d.instant_mod
  obtain ⟨hlo, hhi⟩ := d.instant_range
  have hlast : lastInstant % 1000 = 0 := by decide
  have hr : 0 ≤ t.nanoseconds % 1000 ∧ t.nanoseconds % 1000 < 1000 := by omega
  unfold RoundsDown
  constructor
  · intro hclosest
    by_contra hno
    rw [not_or, not_le, not_le] at hno
    -- the next microsecond is a datetime, and nearer
    obtain ⟨next, hnext⟩ : ∃ next : DateTime, next.instant = d.instant + 1000 :=
      exists_dateTime (by omega) (by omega) (by omega)
    have hle := hclosest next
    rw [abs_of_nonpos (by omega), abs_of_nonneg (by omega)] at hle
    omega
  · intro hdown d'
    have hmod' := d'.instant_mod
    have hhi' := d'.instant_range.2
    rw [abs_of_nonpos (by omega)]
    rcases le_or_gt d'.instant d.instant with hle | hgt
    · rw [abs_of_nonpos (by omega)]
      omega
    · rw [abs_of_nonneg (by omega)]
      omega

/-- Half a microsecond before the epoch: both neighbours are closest. -/
theorem datetime_closest_iff_half :
    RealmTimestamp.datetime ⟨0, -500⟩ = .ok beforeEpoch ∧
      Closest (RealmTimestamp.instant ⟨0, -500⟩) beforeEpoch :=
  ⟨rfl, (datetime_closest_iff (t := ⟨0, -500⟩) rfl).mpr (Or.inl (by decide))⟩

/-- The last nanosecond of a microsecond: the datetime returned is 999 ns away, the next 1 ns. -/
theorem datetime_not_closest : RealmTimestamp.datetime ⟨0, 999⟩ = .ok epochDateTime ∧
    ¬ Closest (RealmTimestamp.instant ⟨0, 999⟩) epochDateTime := by
  refine ⟨rfl, fun h => ?_⟩
  have hle := h ⟨719163, 0, 1, by decide, by decide, by decide⟩
  revert hle
  decide

end Pyrealm.Reader
