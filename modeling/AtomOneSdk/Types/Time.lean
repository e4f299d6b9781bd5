import AtomOneSdk.Lib.Bytes

/-!
Contract: times as bytes that sort like the times.

Owns: the dates of the Gregorian calendar, `FormatTimeBytes` for the years 1 to 9999, and
that its texts have one length and the order of the times.

Does **not** own: time zones; every time is in UTC.
-/

namespace AtomOneSdk.Types

open Lib List

/-! ## Calendar -/

/-- The last of the parts of a range that starts at a position or before it. -/
def partAt (start : Nat → Nat) (last position : Nat) : Nat :=
  Nat.findGreatest (fun i => start i ≤ position) last

/-- The days of the first years. -/
def daysOfYears (years : Nat) : Nat := 365 * years + years / 4 - years / 100 + years / 400

def isLeap (year : Nat) : Bool := year % 4 = 0 && (year % 100 ≠ 0 || year % 400 = 0)

/-- The days of the first months of a year. -/
def daysOfMonths (leap : Bool) (months : Nat) : Nat :=
  ([31, if leap then 29 else 28, 31, 30, 31, 30, 31, 31, 30, 31, 30, 31].take months).sum

theorem partAt_le (start : Nat → Nat) (last position : Nat) : partAt start last position ≤ last :=
  Nat.findGreatest_le last

/-- Positions are compared by their parts and then by their distances from the start. -/
theorem lt_iff_partAt {start : Nat → Nat} (zero : start 0 = 0) (last : Nat) {n m : Nat} :
    n < m ↔ partAt start last n < partAt start last m ∨ partAt start last n = partAt start last m
      ∧ n - start (partAt start last n) < m - start (partAt start last m) := by
  have mono : ∀ {k l}, k ≤ l → partAt start last k ≤ partAt start last l :=
    fun below => Nat.findGreatest_mono (fun _ early => early.trans below) (le_refl _)
  have started : ∀ k, start (partAt start last k) ≤ k := fun k =>
    Nat.findGreatest_spec (P := fun i => start i ≤ k) (Nat.zero_le last) (by omega)
  constructor
  · intro below
    rcases (mono below.le).lt_or_eq with less | same
    · exact .inl less
    · have := started n
      rw [same] at this ⊢
      exact .inr ⟨rfl, by omega⟩
  · rintro (less | ⟨same, less⟩)
    · by_contra above
      exact absurd (mono (not_lt.mp above)) (not_le.mpr less)
    · have := started n
      rw [same] at this less
      omega

/-- The years after the first that have passed by a day of the years 1 to 9999. -/
def yearOf (day : Nat) : Nat := partAt daysOfYears 9998 day

def dayOfYear (day : Nat) : Nat := day - daysOfYears (yearOf day)

def monthStart (day : Nat) : Nat → Nat := daysOfMonths (isLeap (yearOf day + 1))

def monthOf (day : Nat) : Nat := partAt (monthStart day) 11 (dayOfYear day)

def dayOfMonth (day : Nat) : Nat := dayOfYear day - monthStart day (monthOf day)

theorem dayOfYear_lt {day : Nat} (early : day < 3652059) : dayOfYear day < 366 := by
  have next : day < daysOfYears (yearOf day + 1) := by
    by_cases last : yearOf day = 9998
    · rw [last]
      exact early
    · have atMost : yearOf day ≤ 9998 := partAt_le daysOfYears 9998 day
      have later := Nat.findGreatest_is_greatest (P := fun i => daysOfYears i ≤ day)
        (Nat.lt_succ_self (yearOf day)) (by omega)
      exact not_le.mp later
  have leapDay : ∀ year : Nat, (year + 1) / 400 + year / 100 ≤ year / 400 + (year + 1) / 100 := by
    intro year
    by_cases cycle : (year + 1) % 400 = 0
    · omega
    · omega
  have := leapDay (yearOf day)
  unfold dayOfYear
  unfold daysOfYears at next ⊢
  omega

theorem dayOfMonth_lt {day : Nat} (early : day < 3652059) : dayOfMonth day < 32 := by
  have short : ∀ leap : Bool, ∀ position < 366,
      position - daysOfMonths leap (partAt (daysOfMonths leap) 11 position) < 32 := by
    decide +kernel
  exact short _ _ (dayOfYear_lt early)

/-- Days are compared by year, month and day of the month. -/
theorem day_lt_iff {n m : Nat} : n < m ↔ yearOf n < yearOf m ∨ yearOf n = yearOf m
    ∧ (monthOf n < monthOf m ∨ monthOf n = monthOf m ∧ dayOfMonth n < dayOfMonth m) := by
  rw [@lt_iff_partAt daysOfYears rfl 9998 n m]
  apply or_congr Iff.rfl
  apply and_congr_right
  intro same
  have sameStart : monthStart n = monthStart m := by
    unfold monthStart
    rw [show yearOf n = yearOf m from same]
  show dayOfYear n < dayOfYear m ↔ _
  rw [@lt_iff_partAt (monthStart m) rfl 11 (dayOfYear n)]
  unfold monthOf dayOfMonth monthOf
  rw [sameStart]

/-! ## FormatTimeBytes -/

/-- A day as in `2006-01-02`. -/
def dateBytes (day : Nat) : List (Fin 256) :=
  paddedDecimal 4 (yearOf day + 1) ++ (45 :: (paddedDecimal 2 (monthOf day + 1)
    ++ (45 :: paddedDecimal 2 (dayOfMonth day + 1))))

/-- Nanoseconds of a day as in `15:04:05.000000000`. -/
def clockBytes (nanos : Nat) : List (Fin 256) :=
  paddedDecimal 2 (nanos / 3600000000000) ++ (58 :: (paddedDecimal 2 (nanos / 60000000000 % 60)
    ++ (58 :: (paddedDecimal 2 (nanos / 1000000000 % 60)
      ++ (46 :: paddedDecimal 9 (nanos % 1000000000))))))

/-- `FormatTimeBytes`: a time in nanoseconds since 1970 in `SortableTimeFormat`. -/
def formatTimeBytes (time : Int) : List (Fin 256) :=
  let nanos := (time + 62135596800000000000).toNat
  dateBytes (nanos / 86400000000000) ++ (84 :: clockBytes (nanos % 86400000000000))

example : formatTimeBytes 1709210096000000007
    = "2024-02-29T12:34:56.000000007".toList.map (Fin.ofNat 256 ·.toNat) := by decide +kernel

theorem length_formatTimeBytes (time : Int) : (formatTimeBytes time).length = 29 := by
  simp [formatTimeBytes, dateBytes, clockBytes]

theorem dateBytes_append_lt_iff {n m : Nat} (left right : List (Fin 256)) (nEarly : n < 3652059)
    (mEarly : m < 3652059) :
    dateBytes n ++ left < dateBytes m ++ right ↔ n < m ∨ n = m ∧ left < right := by
  have years : ∀ day, yearOf day + 1 < 10 ^ 4 := by
    intro day
    have : yearOf day ≤ 9998 := partAt_le _ _ _
    omega
  have months : ∀ day, monthOf day + 1 < 10 ^ 2 := by
    intro day
    have : monthOf day ≤ 11 := partAt_le _ _ _
    omega
  have nDay := dayOfMonth_lt nEarly
  have mDay := dayOfMonth_lt mEarly
  have same : n = m ↔ ¬ n < m ∧ ¬ m < n := by omega
  rw [same, @day_lt_iff n m, @day_lt_iff m n]
  simp only [dateBytes, append_assoc, cons_append]
  rw [paddedDecimal_append_lt_iff 4 _ _ (years n) (years m), cons_lt_cons_iff,
    paddedDecimal_append_lt_iff 2 _ _ (months n) (months m), cons_lt_cons_iff,
    paddedDecimal_append_lt_iff 2 _ _ (by omega) (by omega)]
  by_cases later : left < right
  · simp only [later, lt_irrefl, false_or, true_and, and_true]
    omega
  · simp only [later, lt_irrefl, false_or, true_and, and_false, or_false]
    omega

theorem clockBytes_lt_iff {n m : Nat} (nEarly : n < 86400000000000) (mEarly : m < 86400000000000) :
    clockBytes n < clockBytes m ↔ n < m := by
  have whole : clockBytes n < clockBytes m ↔ clockBytes n ++ [] < clockBytes m ++ [] := by simp
  rw [whole]
  simp only [clockBytes, append_assoc, cons_append]
  rw [paddedDecimal_append_lt_iff 2 _ _ (by omega) (by omega), cons_lt_cons_iff,
    paddedDecimal_append_lt_iff 2 _ _ (by omega) (by omega), cons_lt_cons_iff,
    paddedDecimal_append_lt_iff 2 _ _ (by omega) (by omega), cons_lt_cons_iff,
    paddedDecimal_append_lt_iff 9 _ _ (by omega) (by omega)]
  simp only [lt_irrefl, false_or, true_and, and_false, or_false]
  omega

/-- The texts of the years 1 to 9999 are in the order of the times. -/
theorem formatTimeBytes_lt_iff {first second : Int} (firstYear : -62135596800000000000 ≤ first)
    (firstEarly : first < 253402300800000000000) (secondYear : -62135596800000000000 ≤ second)
    (secondEarly : second < 253402300800000000000) :
    formatTimeBytes first < formatTimeBytes second ↔ first < second := by
  have days : ∀ {time : Int}, time < 253402300800000000000 →
      (time + 62135596800000000000).toNat / 86400000000000 < 3652059 := by
    intro time early
    omega
  rw [formatTimeBytes, formatTimeBytes,
    dateBytes_append_lt_iff _ _ (days firstEarly) (days secondEarly), cons_lt_cons_iff,
    clockBytes_lt_iff (Nat.mod_lt _ (by decide)) (Nat.mod_lt _ (by decide))]
  have order := @lt_iff_div_mod 86400000000000 (first + 62135596800000000000).toNat
    (second + 62135596800000000000).toNat
  simp only [lt_irrefl, false_or, true_and]
  rw [← order]
  omega

end AtomOneSdk.Types
