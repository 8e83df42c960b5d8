/-
CommentThreads.Time.LogDate — the date line of a log entry.

`logDateAt` shows a moment as the local clock does: weekday, month, day,
time, year and offset, `Wed May 01 12:00:00 2024 +0000`. The year is not
padded. A date and time without an offset is taken as local time already.
`logDate` is the same for a clock that is ahead by whole minutes.
-/
import CommentThreads.Time.DateTime

namespace CommentThreads.Time

open CommentThreads.Text

/-- Why a date cannot be shown: a moment leaves the years 1 to 9999, or
local time is asked for a year outside them. -/
inductive CalendarFault
  | outOfRange
  | yearOutOfRange (year : Nat)
deriving DecidableEq, Repr

/-- By how many seconds a clock is ahead of universal time: hours and minutes, two digits
each, and the seconds that are left if there are some. -/
def zoneText (seconds : Int) : List Char :=
  let n := seconds.natAbs
  (if seconds < 0 then '-' else '+') :: padded 2 (n / 3600) ++ padded 2 (n / 60 % 60) ++
    (if n % 60 = 0 then [] else padded 2 (n % 60))

/-- What a wall clock that many seconds ahead of universal time shows, laid out for a log. -/
def logText (wall zone : Int) : String :=
  let p := Parts.ofMicros wall
  let date := Date.ofDayNumber p.dayNumber
  let name (names : List String) (i : Nat) := (names.getD i "").toList
  String.ofList (name weekdayNames (weekday p.dayNumber) ++ ' ' ::
    name monthNames (date.month - 1) ++ ' ' :: padded 2 date.day ++ ' ' ::
    DateTime.timeText p ++ ' ' :: decimal date.year ++ ' ' :: zoneText zone)

/-- The local wall clock at a moment. The moment itself has to lie in the
calendar, and so has what the clock shows. -/
def localWall (zone instant : Int) : Except CalendarFault Int :=
  let wall := instant + zone * perSecond
  if inRange instant && inRange wall then .ok wall else .error .outOfRange

/-- What is asked of local time before it is shown as such: it is compared
with the same time taken as universal, and with the day before, so both
need to lie in the calendar, as does the moment it stands for. -/
def checkLocal (zone wall : Int) : Except CalendarFault Unit :=
  let ahead := wall + zone * perSecond
  if ahead < firstMicro then .error (.yearOutOfRange 0)
  else if lastMicro < ahead then .error (.yearOutOfRange 10000)
  else if wall - perDay < firstMicro then .error (.yearOutOfRange 0)
  else if !inRange (wall - zone * perSecond) then .error .outOfRange
  else .ok ()

/-- The date line of a moment for a clock that is `zone` seconds ahead of
universal time. -/
def logDateAt (zone : Int) (d : DateTime) : Except CalendarFault String :=
  match d.instant? with
  | some instant => (localWall zone instant).map (logText · zone)
  | none => (checkLocal zone d.wall).map fun _ => logText d.wall zone

/-- The date line of a moment for a clock that is `minutes` ahead of
universal time. -/
def logDate (minutes : Int) (d : DateTime) : Except CalendarFault String :=
  logDateAt (minutes * 60) d

end CommentThreads.Time
