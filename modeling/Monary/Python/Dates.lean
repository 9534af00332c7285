import Mathlib

/-!
# Dates

`datehelper.py` on timedeltas and naive datetimes as the `datetime` module keeps them:

* `Timedelta`, `Datetime` : the normal forms, and `micros`, the microseconds they stand for;
* `Timedelta.new`, `Datetime.add`, `Datetime.sub` : the constructor, the sum and the difference;
* `Division` : `/` between two integers, of Python 2 and of Python 3;
* `mongodateToDatetime`, `datetimeToMongodate`, `mongodeltaToTimedelta`, `timedeltaToMongodelta`;
* `floors_iff` : which dates come out as integers, rounded down;
* `mongodate_roundTrip` : integer dates come back, in their order.

A mongo date is a rational number here, of which the integers are `int`s.
-/

namespace Monary

inductive DateError where
  | valueError (message : String)
  | typeError (message : String)
  | overflowError (message : String)
  deriving DecidableEq, Repr

/-! ## Timedeltas -/

/-- `datetime.timedelta` in its normal form. -/
structure Timedelta where
  days : Int
  seconds : Int
  microseconds : Int
  days_bound : -999999999 ≤ days ∧ days ≤ 999999999
  seconds_bound : 0 ≤ seconds ∧ seconds < 86400
  microseconds_bound : 0 ≤ microseconds ∧ microseconds < 1000000
  deriving DecidableEq, Repr

namespace Timedelta

def micros (td : Timedelta) : Int := (td.days * 86400 + td.seconds) * 1000000 + td.microseconds

/-- `timedelta(days, seconds, microseconds)`. -/
def new (days seconds microseconds : Int) : Except DateError Timedelta :=
  let s := seconds + microseconds / 1000000
  let d := days + s / 86400
  if h : -999999999 ≤ d ∧ d ≤ 999999999 then
    .ok ⟨d, s % 86400, microseconds % 1000000, h, by omega, by omega⟩
  else .error (.overflowError "days=%d; must have magnitude <= 999999999")

/-- A number of microseconds whose days are in the range is a timedelta. -/
theorem new_ok {days seconds microseconds total : Int}
    (h : (days * 86400 + seconds) * 1000000 + microseconds = total) (hlo : -999999999 * 86400000000 ≤ total)
    (hhi : total < 1000000000 * 86400000000) :
    ∃ td, new days seconds microseconds = .ok td ∧ td.micros = total := by
  unfold new
  dsimp only
  have hd : -999999999 ≤ days + (seconds + microseconds / 1000000) / 86400 ∧
      days + (seconds + microseconds / 1000000) / 86400 ≤ 999999999 := by omega
  rw [dif_pos hd]
  refine ⟨_, rfl, ?_⟩
  unfold micros
  dsimp only
  omega

theorem micros_bound (td : Timedelta) :
    -999999999 * 86400000000 ≤ td.micros ∧ td.micros < 1000000000 * 86400000000 := by
  obtain ⟨d, s, u, hd, hs, hu⟩ := td
  unfold micros
  dsimp only
  omega

end Timedelta

/-! ## Datetimes -/

def isLeap (y : Nat) : Bool := y % 4 = 0 ∧ (y % 100 ≠ 0 ∨ y % 400 = 0)

/-- `_days_before_year`. -/
def daysBeforeYear (y : Nat) : Int :=
  let y : Int := y - 1
  y * 365 + y / 4 - y / 100 + y / 400

/-- `_days_before_month`. -/
def daysBeforeMonth (y m : Nat) : Nat :=
  [0, 31, 59, 90, 120, 151, 181, 212, 243, 273, 304, 334].getD (m - 1) 0 + if m > 2 ∧ isLeap y then 1 else 0

/-- `_ymd2ord` : January 1 of year 1 is day 1. -/
def ymdToOrd (y m d : Nat) : Int := daysBeforeYear y + daysBeforeMonth y m + d

/-- `_MAXORDINAL`, December 31 of year 9999. -/
def maxOrdinal : Int := 3652059

/-- A naive `datetime.datetime`, with the ordinal of its date. -/
structure Datetime where
  ordinal : Int
  second : Int
  microsecond : Int
  ordinal_bound : 1 ≤ ordinal ∧ ordinal ≤ maxOrdinal
  second_bound : 0 ≤ second ∧ second < 86400
  microsecond_bound : 0 ≤ microsecond ∧ microsecond < 1000000
  deriving DecidableEq, Repr

namespace Datetime

def min : Datetime := ⟨ymdToOrd 1 1 1, 0, 0, by decide, by decide, by decide⟩
def max : Datetime := ⟨ymdToOrd 9999 12 31, 86399, 999999, by decide, by decide, by decide⟩

def micros (dt : Datetime) : Int := (dt.ordinal * 86400 + dt.second) * 1000000 + dt.microsecond

/-- The fields are compared from the date on. -/
instance : LT Datetime where
  lt a b := a.ordinal < b.ordinal ∨ a.ordinal = b.ordinal ∧
    (a.second < b.second ∨ a.second = b.second ∧ a.microsecond < b.microsecond)

/-- `dt + td`. -/
def add (dt : Datetime) (td : Timedelta) : Except DateError Datetime :=
  let u := dt.microsecond + td.microseconds
  let s := dt.second + td.seconds + u / 1000000
  let d := dt.ordinal + td.days + s / 86400
  if h : 1 ≤ d ∧ d ≤ maxOrdinal then .ok ⟨d, s % 86400, u % 1000000, h, by omega, by omega⟩
  else .error (.overflowError "date value out of range")

/-- `a - b`. -/
def sub (a b : Datetime) : Except DateError Timedelta :=
  Timedelta.new (a.ordinal - b.ordinal) (a.second - b.second) (a.microsecond - b.microsecond)

theorem lt_iff {a b : Datetime} : a < b ↔ a.micros < b.micros := by
  obtain ⟨d, s, u, hd, hs, hu⟩ := a
  obtain ⟨d', s', u', hd', hs', hu'⟩ := b
  show (d < d' ∨ d = d' ∧ (s < s' ∨ s = s' ∧ u < u')) ↔ _
  unfold micros
  dsimp only
  omega

theorem add_ok {dt : Datetime} {td : Timedelta} (hlo : min.micros ≤ dt.micros + td.micros)
    (hhi : dt.micros + td.micros ≤ max.micros) : ∃ dt', dt.add td = .ok dt' ∧ dt'.micros = dt.micros + td.micros := by
  have hmin : min.micros = 86400000000 := by decide
  have hmax : max.micros = 3652059 * 86400000000 + 86399999999 := by decide
  rw [hmin] at hlo
  rw [hmax] at hhi
  obtain ⟨d, s, u, hd, hs, hu⟩ := dt
  obtain ⟨d', s', u', hd', hs', hu'⟩ := td
  unfold micros Timedelta.micros at hlo hhi ⊢
  unfold add
  dsimp only at hlo hhi ⊢
  have hday : 1 ≤ d + d' + (s + s' + (u + u') / 1000000) / 86400 ∧
      d + d' + (s + s' + (u + u') / 1000000) / 86400 ≤ maxOrdinal := by
    unfold maxOrdinal
    omega
  rw [dif_pos hday]
  refine ⟨_, rfl, ?_⟩
  dsimp only
  omega

theorem sub_ok (a b : Datetime) : ∃ td, a.sub b = .ok td ∧ td.micros = a.micros - b.micros := by
  obtain ⟨d, s, u, hd, hs, hu⟩ := a
  obtain ⟨d', s', u', hd', hs', hu'⟩ := b
  unfold maxOrdinal at hd hd'
  unfold sub micros
  dsimp only
  apply Timedelta.new_ok
  · ring
  · omega
  · omega

end Datetime

/-! ## `datehelper.py` -/

/-- `/` between two integers: of Python 2, which rounds down, and of Python 3, with the quotient exact. -/
inductive Division where
  | floor
  | exact
  deriving DecidableEq, Repr

def Division.div : Division → Int → Int → ℚ
  | .floor, a, b => (a.fdiv b : Int)
  | .exact, a, b => a / b

/-- `int(q)`. -/
def truncate (q : ℚ) : Int := if 0 ≤ q then ⌊q⌋ else ⌈q⌉

/-- What the functions are called with. -/
inductive TimeValue where
  | timedelta (td : Timedelta)
  | datetime (dt : Datetime)
  | date (ordinal : Int)
  | other

def mongoDateEpoch : Datetime := ⟨ymdToOrd 1970 1 1, 0, 0, by decide, by decide, by decide⟩

/-- `mongodelta_to_timedelta` of a number. -/
def mongodeltaToTimedelta (mongodelta : ℚ) : Except DateError Timedelta :=
  let mongodelta := truncate mongodelta
  let secs := mongodelta.fdiv 1000
  let millis := mongodelta.fmod 1000
  Timedelta.new 0 secs (millis * 1000)

/-- `mongodate_to_datetime` of a number. -/
def mongodateToDatetime (mongodate : ℚ) : Except DateError Datetime := do
  mongoDateEpoch.add (← mongodeltaToTimedelta mongodate)

/-- `timedelta_to_mongodelta`. -/
def timedeltaToMongodelta (d : Division) : TimeValue → Except DateError ℚ
  | .timedelta td =>
    .ok (d.div td.microseconds 1000 + ((td.seconds + td.days * 24 * 3600) * 1000 : Int))
  | _ => .error (.valueError "requires a timedelta value")

/-- `datetime_to_mongodate`. -/
def datetimeToMongodate (d : Division) : TimeValue → Except DateError ℚ
  | .datetime dt => do timedeltaToMongodelta d (.timedelta (← dt.sub mongoDateEpoch))
  | .date _ => .error (.typeError "unsupported operand type(s) for -: 'datetime.date' and 'datetime.datetime'")
  | _ => .error (.valueError "requires a date or datetime value")

/-! ## The numbers behind them -/

@[simp] theorem truncate_intCast (n : Int) : truncate n = n := by
  unfold truncate
  split <;> simp

theorem mongodeltaToTimedelta_int {n : Int} (hlo : -999999999 * 86400000000 ≤ n * 1000)
    (hhi : n * 1000 < 1000000000 * 86400000000) :
    ∃ td, mongodeltaToTimedelta n = .ok td ∧ td.micros = n * 1000 := by
  unfold mongodeltaToTimedelta
  rw [truncate_intCast]
  dsimp only
  rw [Int.fdiv_eq_ediv_of_nonneg _ (by decide), Int.fmod_eq_emod_of_nonneg _ (by decide)]
  apply Timedelta.new_ok
  · omega
  · exact hlo
  · exact hhi

theorem mongodateToDatetime_int {n : Int} (hlo : Datetime.min.micros ≤ mongoDateEpoch.micros + n * 1000)
    (hhi : mongoDateEpoch.micros + n * 1000 ≤ Datetime.max.micros) :
    ∃ dt, mongodateToDatetime n = .ok dt ∧ dt.micros = mongoDateEpoch.micros + n * 1000 := by
  have hmin : Datetime.min.micros = 86400000000 := by decide
  have hmax : Datetime.max.micros = 3652059 * 86400000000 + 86399999999 := by decide
  have hepoch : mongoDateEpoch.micros = 719163 * 86400000000 := by decide
  obtain ⟨td, htd, hmicros⟩ : ∃ td, mongodeltaToTimedelta n = .ok td ∧ td.micros = n * 1000 :=
    mongodeltaToTimedelta_int (by omega) (by omega)
  rw [← hmicros] at hlo hhi ⊢
  obtain ⟨dt, hdt, hsum⟩ := Datetime.add_ok hlo hhi
  refine ⟨dt, ?_, hsum⟩
  unfold mongodateToDatetime
  rw [htd]
  exact hdt

/-- The quotient of Python 2 rounds down. -/
theorem timedeltaToMongodelta_floor (td : Timedelta) :
    timedeltaToMongodelta .floor (.timedelta td) = .ok ((td.micros / 1000 : Int) : ℚ) := by
  unfold timedeltaToMongodelta Division.div Timedelta.micros
  dsimp only
  rw [Int.fdiv_eq_ediv_of_nonneg _ (by decide), ← Int.cast_add]
  congr 2
  omega

/-- The quotient of Python 3 is not rounded. -/
theorem timedeltaToMongodelta_exact (td : Timedelta) :
    timedeltaToMongodelta .exact (.timedelta td) = .ok ((td.micros : ℚ) / 1000) := by
  unfold timedeltaToMongodelta Division.div Timedelta.micros
  dsimp only
  congr 1
  push_cast
  ring

theorem datetimeToMongodate_datetime (d : Division) (dt : Datetime) :
    ∃ td, datetimeToMongodate d (.datetime dt) = timedeltaToMongodelta d (.timedelta td) ∧
      td.micros = dt.micros - mongoDateEpoch.micros := by
  obtain ⟨td, htd, hmicros⟩ := dt.sub_ok mongoDateEpoch
  refine ⟨td, ?_, hmicros⟩
  unfold datetimeToMongodate
  dsimp only
  rw [htd]
  rfl

/-- A whole number of milliseconds is one under both divisions. -/
theorem timedeltaToMongodelta_int (d : Division) {td : Timedelta} {n : Int} (h : td.micros = n * 1000) :
    timedeltaToMongodelta d (.timedelta td) = .ok (n : ℚ) := by
  cases d with
  | floor =>
    rw [timedeltaToMongodelta_floor, h, Int.mul_ediv_cancel _ (by decide)]
  | exact =>
    rw [timedeltaToMongodelta_exact, h]
    push_cast
    congr 1
    ring

/-! ## Rounding down -/

/-- The timedelta comes out as the integer number of milliseconds below it, and comes back rounded down. -/
def FloorsDelta (d : Division) (td : Timedelta) : Prop :=
  ∃ n : Int, timedeltaToMongodelta d (.timedelta td) = .ok (n : ℚ) ∧ n * 1000 ≤ td.micros ∧
    td.micros < (n + 1) * 1000 ∧
    ∃ td', timedeltaToMongodelta d (.timedelta td) >>= mongodeltaToTimedelta = .ok td' ∧
      td'.micros = td.micros / 1000 * 1000

/-- The same for a datetime, counted from the epoch. -/
def FloorsDate (d : Division) (dt : Datetime) : Prop :=
  ∃ n : Int, datetimeToMongodate d (.datetime dt) = .ok (n : ℚ) ∧ mongoDateEpoch.micros + n * 1000 ≤ dt.micros ∧
    dt.micros < mongoDateEpoch.micros + (n + 1) * 1000 ∧
    ∃ dt', datetimeToMongodate d (.datetime dt) >>= mongodateToDatetime = .ok dt' ∧
      dt'.micros = dt.micros / 1000 * 1000

/-- A number of milliseconds that is not whole is no integer in Python 3. -/
theorem micros_mod_of_exact {td : Timedelta} {n : Int}
    (h : timedeltaToMongodelta .exact (.timedelta td) = .ok (n : ℚ)) : td.micros % 1000 = 0 := by
  rw [timedeltaToMongodelta_exact] at h
  have hq : (td.micros : ℚ) / 1000 = n := Except.ok.inj h
  have hmul : (td.micros : ℚ) = ((n * 1000 : Int) : ℚ) := by
    rw [Int.cast_mul, ← hq]
    push_cast
    ring
  have hint : td.micros = n * 1000 := by exact_mod_cast hmul
  omega

/-- What comes out when the division rounds down, or has nothing to round. -/
theorem timedeltaToMongodelta_of_whole {d : Division} {td : Timedelta} (h : d = .floor ∨ td.micros % 1000 = 0) :
    timedeltaToMongodelta d (.timedelta td) = .ok ((td.micros / 1000 : Int) : ℚ) := by
  rcases h with rfl | h
  · exact timedeltaToMongodelta_floor td
  · exact timedeltaToMongodelta_int d (by omega)

/-- What comes out as an integer was rounded down, or there was nothing to round. -/
theorem whole_of_integer {d : Division} {td : Timedelta} {n : Int}
    (h : timedeltaToMongodelta d (.timedelta td) = .ok (n : ℚ)) : d = .floor ∨ td.micros % 1000 = 0 := by
  cases d with
  | floor => exact Or.inl rfl
  | exact => exact Or.inr (micros_mod_of_exact h)

theorem floorsDelta_iff (d : Division) (td : Timedelta) :
    FloorsDelta d td ↔ d = .floor ∨ td.microseconds % 1000 = 0 := by
  have hmod : td.micros % 1000 = td.microseconds % 1000 := by
    unfold Timedelta.micros
    omega
  rw [← hmod]
  constructor
  · rintro ⟨n, hn, -⟩
    exact whole_of_integer hn
  · intro h
    have hn := timedeltaToMongodelta_of_whole h
    obtain ⟨hlo, hhi⟩ := td.micros_bound
    obtain ⟨td', htd', hmicros⟩ : ∃ td', mongodeltaToTimedelta ((td.micros / 1000 : Int) : ℚ) = .ok td' ∧
        td'.micros = td.micros / 1000 * 1000 := mongodeltaToTimedelta_int (by omega) (by omega)
    refine ⟨td.micros / 1000, hn, by omega, by omega, td', ?_, hmicros⟩
    rw [hn]
    exact htd'

theorem Datetime.micros_bound (dt : Datetime) :
    86400000000 ≤ dt.micros ∧ dt.micros ≤ 3652059 * 86400000000 + 86399999999 := by
  obtain ⟨d, s, u, hd, hs, hu⟩ := dt
  unfold maxOrdinal at hd
  unfold micros
  dsimp only
  omega

theorem floorsDate_iff (d : Division) (dt : Datetime) :
    FloorsDate d dt ↔ d = .floor ∨ dt.microsecond % 1000 = 0 := by
  have hepoch : mongoDateEpoch.micros = 719163 * 86400000000 := by decide
  obtain ⟨td, htd, hmicros⟩ := datetimeToMongodate_datetime d dt
  have hmod : td.micros % 1000 = dt.microsecond % 1000 := by
    rw [hmicros, hepoch]
    unfold Datetime.micros
    omega
  unfold FloorsDate
  rw [htd, ← hmod]
  constructor
  · rintro ⟨n, hn, -⟩
    exact whole_of_integer hn
  · intro h
    have hn := timedeltaToMongodelta_of_whole h
    obtain ⟨hlo, hhi⟩ := dt.micros_bound
    have hmin : Datetime.min.micros = 86400000000 := by decide
    have hmax : Datetime.max.micros = 3652059 * 86400000000 + 86399999999 := by decide
    obtain ⟨dt', hdt', hsum⟩ : ∃ dt', mongodateToDatetime ((td.micros / 1000 : Int) : ℚ) = .ok dt' ∧
        dt'.micros = mongoDateEpoch.micros + td.micros / 1000 * 1000 := mongodateToDatetime_int (by omega) (by omega)
    refine ⟨td.micros / 1000, hn, by omega, by omega, dt', ?_, by omega⟩
    rw [hn]
    exact hdt'

/-- A date comes out as an integer, rounded down, exactly under the division of Python 2 or when its microseconds
are whole milliseconds. -/
theorem floors_iff (d : Division) :
    (∀ td, FloorsDelta d td ↔ d = .floor ∨ td.microseconds % 1000 = 0) ∧
      ∀ dt, FloorsDate d dt ↔ d = .floor ∨ dt.microsecond % 1000 = 0 :=
  ⟨floorsDelta_iff d, floorsDate_iff d⟩

/-- In Python 3, the microsecond before the epoch comes out as no integer. -/
theorem not_forall_floors :
    ¬ ∀ d : Division, (∀ td, FloorsDelta d td) ∧ ∀ dt, FloorsDate d dt := by
  intro h
  let td : Timedelta := ⟨-1, 86399, 999999, by decide, by decide, by decide⟩
  have hmod := (floorsDelta_iff .exact td).mp ((h .exact).1 td)
  exact absurd hmod (by decide)

/-! ## Integer dates -/

/-- The number of milliseconds since the epoch is that of a datetime. -/
def InDatetimeRange (n : Int) : Prop :=
  Datetime.min.micros ≤ mongoDateEpoch.micros + n * 1000 ∧ mongoDateEpoch.micros + n * 1000 ≤ Datetime.max.micros

/-- Integer dates go to their instants and come back, and keep their order. -/
theorem mongodate_roundTrip (d : Division) :
    (∀ n, InDatetimeRange n → ∃ dt, mongodateToDatetime n = .ok dt ∧ dt.micros = mongoDateEpoch.micros + n * 1000 ∧
      datetimeToMongodate d (.datetime dt) = .ok (n : ℚ)) ∧
    ∀ n m, InDatetimeRange n → InDatetimeRange m → n < m →
      ∃ dt dt', mongodateToDatetime n = .ok dt ∧ mongodateToDatetime m = .ok dt' ∧ dt < dt' := by
  refine ⟨?_, ?_⟩
  · intro n hn
    obtain ⟨dt, hdt, hmicros⟩ := mongodateToDatetime_int hn.1 hn.2
    refine ⟨dt, hdt, hmicros, ?_⟩
    obtain ⟨td, htd, hdiff⟩ := datetimeToMongodate_datetime d dt
    rw [htd]
    apply timedeltaToMongodelta_int
    omega
  · intro n m hn hm hlt
    obtain ⟨dt, hdt, hmicros⟩ := mongodateToDatetime_int hn.1 hn.2
    obtain ⟨dt', hdt', hmicros'⟩ := mongodateToDatetime_int hm.1 hm.2
    refine ⟨dt, dt', hdt, hdt', Datetime.lt_iff.mpr ?_⟩
    omega

/-- The millisecond before the epoch and the epoch. -/
theorem mongodate_roundTrip_epoch :
    (∃ dt, mongodateToDatetime (-1 : Int) = .ok dt ∧ dt.micros = mongoDateEpoch.micros + -1 * 1000 ∧
      datetimeToMongodate .exact (.datetime dt) = .ok ((-1 : Int) : ℚ)) ∧
    ∃ dt dt', mongodateToDatetime (-1 : Int) = .ok dt ∧ mongodateToDatetime (0 : Int) = .ok dt' ∧ dt < dt' := by
  have hbefore : InDatetimeRange (-1) := by unfold InDatetimeRange; decide
  have hepoch : InDatetimeRange 0 := by unfold InDatetimeRange; decide
  exact ⟨(mongodate_roundTrip .exact).1 (-1) hbefore, (mongodate_roundTrip .exact).2 (-1) 0 hbefore hepoch (by decide)⟩

end Monary
