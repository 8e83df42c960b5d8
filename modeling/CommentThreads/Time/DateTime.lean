/-
CommentThreads.Time.DateTime — a date with a time of day to the
microsecond, and the distance of its clock from universal time, if known.

A `DateTime` is kept as what a clock on the wall shows, counted in
microseconds from midnight of the first of January 1970, beside the offset
of that clock. `DateTime.instant` is the moment in universal time.
`DateTime.stamp` is its written form in records and on the wire.
-/
import CommentThreads.Text.Digits
import CommentThreads.Time.Calendar

namespace CommentThreads.Time

open CommentThreads.Text

/-- Microseconds in a second. -/
def perSecond : Int := 1000000

/-- Microseconds in a minute. -/
def perMinute : Int := 60 * perSecond

/-- Microseconds in a day. -/
def perDay : Int := 86400 * perSecond

/-- The day number of the first of January 1970. -/
def epochDay : Int := 719162

/-- The first microsecond of the year 1. -/
def firstMicro : Int := -(epochDay * perDay)

/-- The last microsecond of the year 9999. -/
def lastMicro : Int := 253402300800 * perSecond - 1

/-- A count of microseconds that lies in the years 1 to 9999. -/
def inRange (micros : Int) : Bool :=
  firstMicro ≤ micros && micros ≤ lastMicro

/-- The parts of a count of microseconds from the start of 1970. -/
structure Parts where
  dayNumber : Nat
  hour : Nat
  minute : Nat
  second : Nat
  micro : Nat
deriving DecidableEq, Repr

/-- A count of microseconds in days and parts of a day. Counts before 1970
are rounded down, so every part is counted forwards. -/
def Parts.ofMicros (micros : Int) : Parts :=
  let day := micros.fdiv perDay
  let inDay := (micros.fmod perDay).toNat
  let seconds := inDay / 1000000
  ⟨(day + epochDay).toNat, seconds / 3600, seconds / 60 % 60, seconds % 60, inDay % 1000000⟩

/-- What a wall clock shows, in microseconds from the start of 1970, and by
how many minutes it is ahead of universal time. -/
structure DateTime where
  wall : Int
  offset? : Option Int
deriving DecidableEq, Repr

namespace DateTime

/-- A moment as a clock of universal time shows it. -/
def utc (micros : Int) : DateTime := ⟨micros, some 0⟩

/-- The moment in universal time, when the offset is known. -/
def instant? (d : DateTime) : Option Int :=
  d.offset?.map fun minutes => d.wall - minutes * perMinute

/-- Hours and minutes of an offset, two digits each. -/
def offsetDigits (separator : List Char) (minutes : Int) : List Char :=
  (if minutes < 0 then '-' else '+') ::
    padded 2 (minutes.natAbs / 60) ++ separator ++ padded 2 (minutes.natAbs % 60)

/-- Hours, minutes and seconds with colons between them. -/
def timeText (p : Parts) : List Char :=
  padded 2 p.hour ++ ':' :: padded 2 p.minute ++ ':' :: padded 2 p.second

/-- The written form of an offset: `Z` for universal time, nothing when it
is not known. -/
def offsetText : Option Int → List Char
  | none => []
  | some minutes => if minutes = 0 then ['Z'] else offsetDigits [':'] minutes

/-- The written form: the date, `T`, the time, the microseconds in six
digits unless there are none, and the offset. -/
def stampChars (d : DateTime) : List Char :=
  let p := Parts.ofMicros d.wall
  let date := Date.ofDayNumber p.dayNumber
  padded 4 date.year ++ '-' :: padded 2 date.month ++ '-' :: padded 2 date.day ++
    'T' :: timeText p ++ (if p.micro = 0 then [] else '.' :: padded 6 p.micro) ++
    offsetText d.offset?

/-- The written form as a string. -/
def stamp (d : DateTime) : String :=
  String.ofList d.stampChars

end DateTime

end CommentThreads.Time
