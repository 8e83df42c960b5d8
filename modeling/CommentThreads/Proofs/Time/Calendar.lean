/-
CommentThreads.Proofs.Time.Calendar — a day number and its date determine
each other.

* `daysBeforeYear_findYear` — the year that a day falls in begins as many
  days before it as `findYear` says, and the year is long enough for it.
* `findMonth_eq` — the same for the months of a year.
* `dayNumber_ofDayNumber`, `isValid_ofDayNumber` — so the date of a day is
  one that the calendar has, and it has the number of that day again.
-/
import CommentThreads.Time.Calendar

namespace CommentThreads.Time.Date

/-! ## The year of a day -/

/-- The number of days of a year. -/
def daysInYear (year : Nat) : Nat := daysBeforeMonth 13 (monthLengths (isLeapYear year))

theorem daysInYear_eq (year : Nat) :
    daysInYear year = if isLeapYear year then 366 else 365 := by
  unfold daysInYear
  cases isLeapYear year <;> rfl

/-- The days before a year that lies some centuries, some fours of years
and some single years after the start of a cycle. -/
theorem daysBeforeYear_parts {cycle century four one : Nat} (hcentury : century ≤ 3)
    (hfour : four ≤ 24) (hone : one ≤ 3) :
    daysBeforeYear (cycle * 400 + century * 100 + four * 4 + one + 1) =
      cycle * 146097 + century * 36524 + four * 1461 + one * 365 := by
  simp only [daysBeforeYear]
  omega

/-- A year that ends its four years is a leap year, unless it ends a
century and not the cycle. -/
theorem daysInYear_parts {cycle century four one : Nat} (hcentury : century ≤ 3)
    (hfour : four ≤ 24) (hone : one ≤ 3) :
    daysInYear (cycle * 400 + century * 100 + four * 4 + one + 1) =
      if one = 3 ∧ (four = 24 → century = 3) then 366 else 365 := by
  have hleap : isLeapYear (cycle * 400 + century * 100 + four * 4 + one + 1) = true ↔
      one = 3 ∧ (four = 24 → century = 3) := by
    simp only [isLeapYear, Bool.and_eq_true, Bool.or_eq_true, decide_eq_true_eq]
    omega
  rw [daysInYear_eq]
  simp only [hleap]

/-- The year of a day has begun that many days before it, and is not over. -/
theorem daysBeforeYear_findYear (n : Nat) :
    daysBeforeYear (findYear n).1 + (findYear n).2 = n ∧
      (findYear n).2 < daysInYear (findYear n).1 := by
  obtain ⟨cycle, hcycle⟩ : ∃ cycle, cycle = n / 146097 := ⟨_, rfl⟩
  obtain ⟨inCycle, hinCycle⟩ : ∃ inCycle, inCycle = n % 146097 := ⟨_, rfl⟩
  obtain ⟨century, hcentury⟩ : ∃ century, century = min (inCycle / 36524) 3 := ⟨_, rfl⟩
  obtain ⟨inCentury, hinCentury⟩ : ∃ inCentury, inCentury = inCycle - century * 36524 := ⟨_, rfl⟩
  obtain ⟨four, hfour⟩ : ∃ four, four = inCentury / 1461 := ⟨_, rfl⟩
  obtain ⟨inFour, hinFour⟩ : ∃ inFour, inFour = inCentury % 1461 := ⟨_, rfl⟩
  obtain ⟨one, hone⟩ : ∃ one, one = min (inFour / 365) 3 := ⟨_, rfl⟩
  have hyear : findYear n =
      (cycle * 400 + century * 100 + four * 4 + one + 1, inFour - one * 365) := by
    subst_vars; rfl
  have hcentury3 : century ≤ 3 := by omega
  have hinCentury_le : inCentury ≤ 36524 := by omega
  have hfour24 : four ≤ 24 := by omega
  have hone3 : one ≤ 3 := by omega
  rw [hyear, daysBeforeYear_parts hcentury3 hfour24 hone3,
    daysInYear_parts hcentury3 hfour24 hone3]
  constructor
  · show _ + (inFour - one * 365) = n
    omega
  · -- a century that is not the last of its cycle is one day short
    have hshort : century < 3 → inCentury < 36524 := by omega
    show inFour - one * 365 < _
    split <;> omega

theorem findYear_pos (n : Nat) : 1 ≤ (findYear n).1 := by
  simp only [findYear]
  omega

/-- The days up to the end of the year 9999 fall in years of four digits. -/
theorem findYear_le {n : Nat} (h : n < 3652059) : (findYear n).1 ≤ 9999 := by
  simp only [findYear]
  omega

/-! ## The month of a day -/

/-- The month of a day is one of those walked through; the days before it
and the day in it add up. -/
theorem findMonth_eq (lengths : List Nat) (month days : Nat)
    (h : days < daysBeforeMonth (lengths.length + 1) lengths) :
    ∃ k, ∃ hk : k < lengths.length, ∃ day < lengths[k],
      findMonth month days lengths = (month + k, day + 1) ∧
        daysBeforeMonth (k + 1) lengths + day = days := by
  induction lengths generalizing month days with
  | nil => simp [daysBeforeMonth] at h
  | cons length rest ih =>
    by_cases hd : days < length
    · refine ⟨0, by simp, days, by simpa using hd, ?_, ?_⟩
      · simp [findMonth, hd]
      · simp [daysBeforeMonth]
    · rw [List.length_cons, daysBeforeMonth] at h
      obtain ⟨k, hk, day, hday, hfind, hsum⟩ := ih (month + 1) (days - length) (by omega)
      refine ⟨k + 1, by simpa using hk, day, by simpa using hday, ?_, ?_⟩
      · rw [findMonth, if_neg hd, hfind, Nat.add_assoc, Nat.add_comm 1 k]
      · rw [daysBeforeMonth]
        omega

@[simp] theorem length_monthLengths (leap : Bool) : (monthLengths leap).length = 12 := rfl

/-! ## The date of a day -/

/-- A day, by its year, the place of its month and its place in the month. -/
theorem ofDayNumber_eq (n : Nat) :
    ∃ k, ∃ hk : k < 12, ∃ day < (monthLengths (isLeapYear (findYear n).1))[k],
      ofDayNumber n = ⟨(findYear n).1, k + 1, day + 1⟩ ∧
        daysBeforeMonth (k + 1) (monthLengths (isLeapYear (findYear n).1)) + day =
          (findYear n).2 := by
  obtain ⟨k, hk, day, hday, hfind, hsum⟩ :=
    findMonth_eq (monthLengths (isLeapYear (findYear n).1)) 1 (findYear n).2
      (daysBeforeYear_findYear n).2
  refine ⟨k, by simpa using hk, day, hday, ?_, hsum⟩
  simp only [ofDayNumber, hfind, Nat.add_comm 1 k]

theorem dayNumber_ofDayNumber (n : Nat) : (ofDayNumber n).dayNumber = n := by
  obtain ⟨k, hk, day, hday, hdate, hsum⟩ := ofDayNumber_eq n
  have hyear := (daysBeforeYear_findYear n).1
  rw [hdate, dayNumber]
  simp only [Nat.add_sub_cancel]
  omega

theorem isValid_ofDayNumber {n : Nat} (h : n < 3652059) : (ofDayNumber n).isValid = true := by
  obtain ⟨k, hk, day, hday, hdate, -⟩ := ofDayNumber_eq n
  have hlength : daysInMonth (findYear n).1 (k + 1) =
      (monthLengths (isLeapYear (findYear n).1))[k] := by
    rw [daysInMonth, Nat.add_sub_cancel, List.getD_eq_getElem?_getD,
      List.getElem?_eq_getElem (by simpa using hk)]
    rfl
  rw [hdate]
  simp only [isValid, hlength, Bool.and_eq_true, decide_eq_true_eq]
  have hpos := findYear_pos n
  have hle := findYear_le h
  omega

end CommentThreads.Time.Date
