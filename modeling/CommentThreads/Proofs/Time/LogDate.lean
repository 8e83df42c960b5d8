/-
CommentThreads.Proofs.Time.LogDate — which moments have a date line.

A clock that is less than a day ahead of or behind universal time shows another
year than universal time at most at the turn of a year. A moment of the years 2 to
9998 is therefore in the calendar on every such clock (`inRange_of_wellInside`), and
it can be written for a log (`logDate_utc`). What is written is one line
(`lineFeed_not_mem_logDate`).
-/
import CommentThreads.Proofs.Time.Stamp
import CommentThreads.Time.LogDate

namespace CommentThreads.Time

open CommentThreads.Text Date

/-- The year that a moment falls in, in universal time. -/
def yearOf (micros : Int) : Nat := (ofDayNumber (Parts.ofMicros micros).dayNumber).year

theorem yearOf_eq (micros : Int) :
    yearOf micros = (findYear (Parts.ofMicros micros).dayNumber).1 := by
  obtain ⟨k, hk, day, hday, hdate, -⟩ := ofDayNumber_eq (Parts.ofMicros micros).dayNumber
  rw [yearOf, hdate]

/-- The days of the years 2 to 9998 leave a year at both ends of the calendar. -/
theorem days_of_findYear {n : Nat} (hfirst : 2 ≤ (findYear n).1) (hlast : (findYear n).1 ≤ 9998) :
    365 ≤ n ∧ n < 3651694 := by
  simp only [findYear] at hfirst hlast
  omega

/-- A moment of the years 2 to 9998. -/
def WellInside (micros : Int) : Prop := 2 ≤ yearOf micros ∧ yearOf micros ≤ 9998

section Clock

variable {micros zone : Int}

theorem inRange_of_wellInside (h : WellInside micros) (hzone : zone.natAbs < 1440) :
    inRange micros = true ∧ inRange (micros + zone * perMinute) = true := by
  obtain ⟨hfirst, hlast⟩ := h
  rw [yearOf_eq] at hfirst hlast
  have hdays := days_of_findYear hfirst hlast
  simp only [Parts.ofMicros, perDay, perSecond, epochDay,
    Int.fdiv_eq_ediv_of_nonneg _ (show (0 : Int) ≤ 86400 * 1000000 by decide)] at hdays
  simp only [inRange_iff, firstMicro, lastMicro, perDay, perMinute, perSecond, epochDay]
  omega

/-- The date line of such a moment is what the clock shows. -/
theorem logDate_utc (h : WellInside micros) (hzone : zone.natAbs < 1440) :
    logDate zone (.utc micros) = .ok (logText (micros + zone * perMinute) (zone * 60)) := by
  obtain ⟨hmoment, hwall⟩ := inRange_of_wellInside h hzone
  have hseconds : zone * 60 * perSecond = zone * perMinute := by rw [perMinute, Int.mul_assoc]
  have hinstant : (DateTime.utc micros).instant? = some micros := by
    simp [DateTime.utc, DateTime.instant?]
  simp [logDate, logDateAt, hinstant, localWall, hseconds, hmoment, hwall, Except.map]

end Clock

/-! ## One line -/

theorem not_mem_getD {c : Char} {names : List String} (h : ∀ name ∈ names, c ∉ name.toList)
    (i : Nat) : c ∉ (names[i]?.getD "").toList := by
  cases hname : names[i]? with
  | none => exact List.not_mem_nil
  | some name => exact h name (List.mem_of_getElem? hname)

theorem not_mem_padded {c : Char} (h : isDigit c = false) (width n : Nat) : c ∉ padded width n :=
  fun hmem => Bool.false_ne_true (h.symm.trans (isDigit_of_mem_padded hmem))

theorem not_mem_decimal {c : Char} (h : isDigit c = false) (n : Nat) : c ∉ decimal n :=
  fun hmem => Bool.false_ne_true (h.symm.trans (all_isDigit_decimal n c hmem))

/-- The date of a log entry is one line. -/
theorem lineFeed_not_mem_logText (wall zone : Int) : '\n' ∉ (logText wall zone).toList := by
  have hweekday (i : Nat) : '\n' ∉ (weekdayNames[i]?.getD "").toList := not_mem_getD (by decide) i
  have hmonth (i : Nat) : '\n' ∉ (monthNames[i]?.getD "").toList := not_mem_getD (by decide) i
  have hpadded (n : Nat) : '\n' ∉ padded 2 n := not_mem_padded rfl 2 n
  have hdecimal (n : Nat) : '\n' ∉ decimal n := not_mem_decimal rfl n
  have hsign : '\n' ≠ if zone < 0 then '-' else '+' := by
    split <;> decide
  have hseconds : '\n' ∉ if zone.natAbs % 60 = 0 then [] else padded 2 (zone.natAbs % 60) := by
    split
    · exact List.not_mem_nil
    · exact hpadded _
  simp [logText, DateTime.timeText, zoneText, hweekday, hmonth, hpadded, hdecimal, hsign, hseconds]

theorem lineFeed_not_mem_logDate {zone : Int} {d : DateTime} {text : String}
    (h : logDate zone d = .ok text) : '\n' ∉ text.toList := by
  unfold logDate logDateAt at h
  split at h
  · next instant _ =>
    cases hwall : localWall (zone * 60) instant with
    | error fault =>
      rw [hwall] at h
      cases h
    | ok wall =>
      rw [hwall] at h
      rw [← Except.ok.inj h]
      exact lineFeed_not_mem_logText wall (zone * 60)
  · cases hlocal : checkLocal (zone * 60) d.wall with
    | error fault =>
      rw [hlocal] at h
      cases h
    | ok _ =>
      rw [hlocal] at h
      rw [← Except.ok.inj h]
      exact lineFeed_not_mem_logText d.wall (zone * 60)

/-- At the edge of the calendar a clock may show a year that it does not have. -/
example : (logDate (-1) (.utc firstMicro)).toOption = none := by decide +kernel

end CommentThreads.Time
