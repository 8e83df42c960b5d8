/-
CommentThreads.Proofs.Time.LogReading — what a date line says.

A date line is read from the left (`Shown.read?`): the name of the weekday, the name of
the month, the day, the time of day, the year in as many digits as it has, and by how much
the clock is ahead of universal time. What is read denotes a moment (`Shown.instant`),
which is counted without a look at the weekday.

* `read?_logText` — a line that was written is read, part by part.
* `logDateAt_shows` — for any clock, a line denotes the moment that it was written for,
  rounded down to a second, and names its weekday. The line does not depend on how the
  moment was given.

The moment has to lie in the calendar in universal time as well: at its edges a clock may
show a date for which there is no line (`logDate_before_calendar`).
-/
import CommentThreads.Proofs.Time.LogDate

namespace CommentThreads.Time

open CommentThreads.Number CommentThreads.Text DateTime

/-! ## Reading a line -/

/-- What a date line says. Weekdays are counted from Monday, and `zone` is by how many
seconds the clock is ahead of universal time. -/
structure Shown where
  weekday : Nat
  date : Date
  second : Nat
  zone : Int
deriving DecidableEq, Repr

namespace Shown

/-- The moment that a date line denotes, in microseconds from the start of 1970. -/
def instant (s : Shown) : Int :=
  ((s.date.dayNumber : Int) - epochDay) * perDay + ((s.second : Int) - s.zone) * perSecond

/-- One of some names of three letters, by its place, and the text behind it. -/
def takeName? (names : List String) (s : List Char) : Option (Nat × List Char) :=
  (names.idxOf? (String.ofList (s.take 3))).map fun i => (i, s.drop 3)

/-- A number in as many digits as there are, and the text behind them. -/
def takeNumber? (s : List Char) : Option (Nat × List Char) :=
  let digits := s.takeWhile isDigit
  if digits.isEmpty then none else some (ofDigits digits, s.dropWhile isDigit)

/-- A time of day in seconds, and the text behind it. -/
def takeTime? (s : List Char) : Option (Nat × List Char) := do
  let (hour, s) ← takeDigits? 2 s
  let (minute, s) ← takeDigits? 2 (← after? [':'] s)
  let (second, s) ← takeDigits? 2 (← after? [':'] s)
  if hour < 24 && minute < 60 && second < 60 then
    some (hour * 3600 + minute * 60 + second, s)
  else none

/-- Hours, minutes and perhaps seconds, with nothing behind them. -/
def duration? (s : List Char) : Option Nat := do
  let (hours, s) ← takeDigits? 2 s
  let (minutes, s) ← takeDigits? 2 s
  let (seconds, s) ← if s.isEmpty then some (0, s) else takeDigits? 2 s
  if s.isEmpty then some (hours * 3600 + minutes * 60 + seconds) else none

/-- By how many seconds a clock is ahead of universal time. -/
def zone? : List Char → Option Int
  | '+' :: s => (duration? s).map fun n : Nat => (n : Int)
  | '-' :: s => (duration? s).map fun n : Nat => -(n : Int)
  | _ => none

/-- What a date line says, if it is one. -/
def read? (s : List Char) : Option Shown := do
  let (weekday, s) ← takeName? weekdayNames s
  let (month, s) ← takeName? monthNames (← after? [' '] s)
  let (day, s) ← takeDigits? 2 (← after? [' '] s)
  let (second, s) ← takeTime? (← after? [' '] s)
  let (year, s) ← takeNumber? (← after? [' '] s)
  let zone ← zone? (← after? [' '] s)
  some ⟨weekday, ⟨year, month + 1, day⟩, second, zone⟩

/-! ## Reading what was written -/

/-- A name is taken off a text if the names differ and have three letters each. -/
theorem takeName?_getD {names : List String} {i : Nat}
    (hlength : (names.getD i "").toList.length = 3)
    (hplace : names.idxOf? (names.getD i "") = some i) (rest : List Char) :
    takeName? names ((names.getD i "").toList ++ rest) = some (i, rest) := by
  have htake : ((names.getD i "").toList ++ rest).take 3 = (names.getD i "").toList :=
    List.take_left' hlength
  have hdrop : ((names.getD i "").toList ++ rest).drop 3 = rest := List.drop_left' hlength
  rw [takeName?, htake, hdrop, String.ofList_toList, hplace]
  rfl

theorem takeName?_weekday {i : Nat} (h : i < 7) (rest : List Char) :
    takeName? weekdayNames ((weekdayNames.getD i "").toList ++ rest) = some (i, rest) := by
  have hall : ∀ i < 7, (weekdayNames.getD i "").toList.length = 3 ∧
      weekdayNames.idxOf? (weekdayNames.getD i "") = some i := by decide
  exact takeName?_getD (hall i h).1 (hall i h).2 rest

theorem takeName?_month {i : Nat} (h : i < 12) (rest : List Char) :
    takeName? monthNames ((monthNames.getD i "").toList ++ rest) = some (i, rest) := by
  have hall : ∀ i < 12, (monthNames.getD i "").toList.length = 3 ∧
      monthNames.idxOf? (monthNames.getD i "") = some i := by decide
  exact takeName?_getD (hall i h).1 (hall i h).2 rest

theorem takeNumber?_decimal (n : Nat) {c : Char} (hc : isDigit c = false) (rest : List Char) :
    takeNumber? (decimal n ++ c :: rest) = some (n, c :: rest) := by
  have htake : (decimal n ++ c :: rest).takeWhile isDigit = decimal n := by
    rw [List.takeWhile_append_of_pos (all_isDigit_decimal n),
      List.takeWhile_cons_of_neg (by simp [hc]), List.append_nil]
  have hdrop : (decimal n ++ c :: rest).dropWhile isDigit = c :: rest := by
    rw [List.dropWhile_append_of_pos (all_isDigit_decimal n),
      List.dropWhile_cons_of_neg (by simp [hc])]
  obtain ⟨first, others, hfirst, -⟩ := exists_decimal_eq_cons n
  simp only [takeNumber?, htake, hdrop, ofDigits_decimal]
  rw [hfirst]
  rfl

theorem after?_single (c : Char) (rest : List Char) : after? [c] (c :: rest) = some rest :=
  after?_cons (by simp) rest

theorem takeTime?_timeText {p : Parts} (hhour : p.hour < 24) (hminute : p.minute < 60)
    (hsecond : p.second < 60) (rest : List Char) :
    takeTime? (timeText p ++ rest) =
      some (p.hour * 3600 + p.minute * 60 + p.second, rest) := by
  have htwo {n : Nat} (h : n < 60) : n < tenTo 2 := Nat.lt_trans h (by decide)
  simp only [takeTime?, timeText, List.append_assoc, List.cons_append,
    takeDigits?_padded (htwo (Nat.lt_trans hhour (by decide))), takeDigits?_padded (htwo hminute),
    takeDigits?_padded (htwo hsecond), after?_single, Option.bind_eq_bind, Option.bind_some]
  rw [if_pos (by simp [hhour, hminute, hsecond])]

theorem duration?_written {n : Nat} (h : n < 86400) :
    duration? (padded 2 (n / 3600) ++ padded 2 (n / 60 % 60) ++
      (if n % 60 = 0 then [] else padded 2 (n % 60))) = some n := by
  have hhours : n / 3600 < tenTo 2 := by
    have : tenTo 2 = 100 := rfl
    omega
  have hsixty (m : Nat) : m % 60 < tenTo 2 := Nat.lt_trans (Nat.mod_lt m (by decide)) (by decide)
  have hsum : n / 3600 * 3600 + n / 60 % 60 * 60 + n % 60 = n := by omega
  rw [List.append_assoc, duration?]
  simp only [takeDigits?_padded hhours, takeDigits?_padded (hsixty (n / 60)), Option.bind_eq_bind,
    Option.bind_some]
  by_cases hwhole : n % 60 = 0
  · rw [if_pos hwhole]
    simp only [List.isEmpty_nil, if_true]
    rw [← hwhole, hsum]
  · have hlast := takeDigits?_padded (hsixty n) []
    rw [List.append_nil] at hlast
    have hne : (padded 2 (n % 60)).isEmpty = false := by
      rw [List.isEmpty_eq_false_iff, ← List.length_pos_iff, length_padded]
      decide
    rw [if_neg hwhole, hne, if_neg Bool.false_ne_true, hlast]
    simp only [Option.bind_some, List.isEmpty_nil, if_true]
    rw [hsum]

theorem zone?_zoneText {zone : Int} (h : zone.natAbs < 86400) :
    zone? (zoneText zone) = some zone := by
  have hread := duration?_written h
  by_cases hneg : zone < 0
  · simp only [zoneText, if_pos hneg, List.cons_append, zone?, hread, Option.map_some]
    rw [Int.ofNat_natAbs_of_nonpos (Int.le_of_lt hneg), Int.neg_neg]
  · simp only [zoneText, if_neg hneg, List.cons_append, zone?, hread, Option.map_some]
    rw [Int.natAbs_of_nonneg (Int.not_lt.mp hneg)]

/-- A date line, piece by piece from the left. -/
theorem toList_logText (wall zone : Int) :
    (logText wall zone).toList =
      (weekdayNames.getD (Time.weekday (Parts.ofMicros wall).dayNumber) "").toList ++ ' ' ::
      ((monthNames.getD ((Date.ofDayNumber (Parts.ofMicros wall).dayNumber).month - 1) "").toList ++
      ' ' :: (padded 2 (Date.ofDayNumber (Parts.ofMicros wall).dayNumber).day ++
      ' ' :: (timeText (Parts.ofMicros wall) ++
      ' ' :: (decimal (Date.ofDayNumber (Parts.ofMicros wall).dayNumber).year ++
      ' ' :: zoneText zone)))) := by
  simp only [logText, String.toList_ofList, List.append_assoc, List.cons_append]

/-- A day of a month has at most two digits. -/
theorem month_day_ofDayNumber (n : Nat) :
    ∃ k < 12, (Date.ofDayNumber n).month = k + 1 ∧ (Date.ofDayNumber n).day < tenTo 2 := by
  obtain ⟨k, hk, day, hday, hdate, -⟩ := Date.ofDayNumber_eq n
  have hlengths : ∀ leap, ∀ length ∈ monthLengths leap, length < tenTo 2 := by decide
  refine ⟨k, hk, by rw [hdate], ?_⟩
  rw [hdate]
  exact Nat.lt_of_le_of_lt hday (hlengths _ _ (List.getElem_mem (by simpa using hk)))

/-- What a line was written of is read from it. -/
theorem read?_logText (wall : Int) {zone : Int} (hzone : zone.natAbs < 86400) :
    read? (logText wall zone).toList = some
      ⟨Time.weekday (Parts.ofMicros wall).dayNumber,
        Date.ofDayNumber (Parts.ofMicros wall).dayNumber,
        (Parts.ofMicros wall).hour * 3600 + (Parts.ofMicros wall).minute * 60 +
          (Parts.ofMicros wall).second, zone⟩ := by
  obtain ⟨hhour, hminute, hsecond, -⟩ := ofMicros_lt wall
  obtain ⟨k, hk, hmonth, hday⟩ := month_day_ofDayNumber (Parts.ofMicros wall).dayNumber
  have hweekday : Time.weekday (Parts.ofMicros wall).dayNumber < 7 := Nat.mod_lt _ (by decide)
  have hblank : isDigit ' ' = false := rfl
  rw [toList_logText, read?, hmonth, Nat.add_sub_cancel]
  simp only [takeName?_weekday hweekday, takeName?_month hk, takeDigits?_padded hday,
    takeTime?_timeText hhour hminute hsecond, takeNumber?_decimal _ hblank, zone?_zoneText hzone,
    after?_single, Option.bind_eq_bind, Option.bind_some, ← hmonth]

end Shown

/-! ## The moment that is shown -/

/-- A text shows a moment as a clock does that is ahead of universal time by so many
seconds: what is read from it is a date of the calendar, denotes the moment rounded down
to a second, and names the weekday. The first of January 1970 was a Thursday. -/
structure Shows (zone instant : Int) (text : String) (shown : Shown) : Prop where
  read_eq : Shown.read? text.toList = some shown
  valid : shown.date.isValid = true
  zone_eq : shown.zone = zone
  instant_eq : shown.instant = instant / perSecond * perSecond
  weekday_eq : (shown.weekday : Int) = ((shown.date.dayNumber : Int) - epochDay + 3) % 7

/-- A weekday can be told from the days since the start of 1970. -/
theorem weekday_eq_sinceEpoch (dayNumber : Nat) :
    (weekday dayNumber : Int) = ((dayNumber : Int) - epochDay + 3) % 7 := by
  simp only [weekday, epochDay]
  omega

section Clock

variable {zone instant : Int} (hzone : zone.natAbs < 86400)
  (hlocal : inRange (instant + zone * perSecond) = true)
include hzone hlocal

theorem shows_logText :
    ∃ shown, Shows zone instant (logText (instant + zone * perSecond) zone) shown := by
  obtain ⟨hday, hmidnight⟩ := dayNumber_ofMicros hlocal
  obtain ⟨-, -, -, hmicro⟩ := ofMicros_lt (instant + zone * perSecond)
  have htime := timeOfDay_ofMicros (instant + zone * perSecond)
  refine ⟨_, Shown.read?_logText _ hzone, Date.isValid_ofDayNumber hday, rfl, ?_, ?_⟩
  · rw [Shown.instant, Date.dayNumber_ofDayNumber, hmidnight]
    simp only [perDay, perSecond] at htime hmicro ⊢
    omega
  · rw [Date.dayNumber_ofDayNumber]
    exact weekday_eq_sinceEpoch _

/-- On any clock a moment is shown by one line, however it is given. -/
theorem logDateAt_shows (hinstant : inRange instant = true) :
    ∃ text shown, (∀ d : DateTime, d.instant? = some instant → logDateAt zone d = .ok text) ∧
      Shows zone instant text shown := by
  obtain ⟨shown, hshown⟩ := shows_logText hzone hlocal
  refine ⟨_, shown, fun d hd => ?_, hshown⟩
  have hwall : localWall zone instant = .ok (instant + zone * perSecond) := by
    rw [localWall, hinstant, hlocal]
    rfl
  rw [logDateAt, hd]
  simp only [hwall, Except.map]

end Clock

/-- Half a second before 1970, where a clock behind universal time by an odd number of
seconds shows the evening before. -/
theorem logDateAt_shows_before_epoch :
    let zone : Int := -(4 * 3600 + 56 * 60 + 2)
    zone.natAbs < 86400 ∧ inRange (-500000) = true ∧
      inRange (-500000 + zone * perSecond) = true ∧
      ∃ text shown, (∀ d : DateTime, d.instant? = some (-500000) → logDateAt zone d = .ok text) ∧
        Shows zone (-500000) text shown :=
  ⟨by decide, by decide, by decide, logDateAt_shows (by decide) (by decide) (by decide)⟩

example : (logDateAt (-(4 * 3600 + 56 * 60 + 2))
    ⟨-500000 + 330 * perMinute, some 330⟩).toOption = some "Wed Dec 31 19:03:57 1969 -045602" := by
  decide +kernel

/-- A moment of the last hour before the year 1 in universal time has no line, although a
clock that is an hour ahead shows the first of January. -/
theorem logDate_before_calendar :
    let d : DateTime := ⟨firstMicro + 30 * perMinute, some 60⟩
    d.instant? = some (firstMicro - 30 * perMinute) ∧
      inRange (firstMicro - 30 * perMinute + 60 * perMinute) = true ∧
      logDateAt 3600 d = .error .outOfRange ∧ logDate 60 d = .error .outOfRange :=
  ⟨by decide, by decide, rfl, rfl⟩

end CommentThreads.Time
