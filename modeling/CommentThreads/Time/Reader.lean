/-
CommentThreads.Time.Reader — reading a date and time from a value.

A text is a date `YYYY-MM-DD`, alone or followed by one of `T`, `t`, `_`
or a blank and a time `HH:MM`, with seconds, a fraction and an offset if
wanted; digits of a fraction past the sixth are cut. A number, or a text
that is one, counts seconds from the start of 1970 in universal time, or
milliseconds when its size is above 2·10^10.
-/
import CommentThreads.Json.Reader
import CommentThreads.Time.DateTime

namespace CommentThreads.Time

open CommentThreads.Text CommentThreads.Number

/-- Why a value is no date and time: it is of another kind, cannot be read
as one, or is a text with a lone half. -/
inductive DateProblem
  | otherKind
  | unreadable
  | torn
deriving DecidableEq, Repr

namespace DateTime

/-- Exactly `n` digits and the text behind them. -/
def takeDigits? (n : Nat) (s : List Char) : Option (Nat × List Char) :=
  let digits := s.take n
  if digits.length = n && digits.all isDigit then some (ofDigits digits, s.drop n) else none

/-- The text behind one of some characters. -/
def after? (expected : List Char) : List Char → Option (List Char)
  | c :: rest => if expected.contains c then some rest else none
  | [] => none

/-- A date that the calendar has, as the number of its day. -/
def takeDate? (s : List Char) : Option (Nat × List Char) := do
  let (year, s) ← takeDigits? 4 s
  let (month, s) ← takeDigits? 2 (← after? ['-'] s)
  let (day, s) ← takeDigits? 2 (← after? ['-'] s)
  let date : Date := ⟨year, month, day⟩
  if date.isValid then some (date.dayNumber, s) else none

/-- A fraction of a second in microseconds, if the text goes on with one;
a point or comma without digits is an error. -/
def takeFraction? (s : List Char) : Option (Nat × List Char) :=
  match after? ['.', ','] s with
  | none => some (0, s)
  | some s =>
    let digits := s.takeWhile isDigit
    if digits.isEmpty then none
    else
      let shown := digits.take 6
      some (ofDigits (shown ++ List.replicate (6 - shown.length) '0'), s.drop digits.length)

/-- Seconds with their fraction, if the text goes on with them. -/
def takeSeconds? (s : List Char) : Option (Nat × Nat × List Char) :=
  match after? [':'] s with
  | none => some (0, 0, s)
  | some s => do
    let (second, s) ← takeDigits? 2 s
    let (micro, s) ← takeFraction? s
    some (second, micro, s)

/-- A time of day in microseconds. -/
def takeTime? (s : List Char) : Option (Nat × List Char) := do
  let (hour, s) ← takeDigits? 2 s
  let (minute, s) ← takeDigits? 2 (← after? [':'] s)
  let (second, micro, s) ← takeSeconds? s
  if hour < 24 && minute < 60 && second < 60 then
    some ((hour * 3600 + minute * 60 + second) * 1000000 + micro, s)
  else none

/-- An offset at the end of a text: nothing, `Z`, or a sign with hours and
minutes. U+2212 is a minus sign too. -/
def takeOffset? (s : List Char) : Option (Option Int) :=
  match s with
  | [] => some none
  | sign :: rest =>
    if sign = 'Z' || sign = 'z' then if rest.isEmpty then some (some 0) else none
    else if sign = '+' || sign = '-' || sign = Char.ofNat 0x2212 then do
      let (hours, rest) ← takeDigits? 2 rest
      let (minutes, rest) ← takeDigits? 2 ((after? [':'] rest).getD rest)
      if rest.isEmpty && hours < 24 && minutes < 60 then
        let size : Int := (hours * 60 + minutes : Nat)
        some (some (if sign = '+' then size else -size))
      else none
    else none

/-- The written form of a date, or of a date and a time. -/
def ofStamp? (s : List Char) : Option DateTime := do
  let (day, s) ← takeDate? s
  let midnight : Int := ((day : Int) - epochDay) * perDay
  if s.isEmpty then some ⟨midnight, none⟩
  else
    let (micros, s) ← takeTime? (← after? ['T', 't', '_', ' '] s)
    let offset ← takeOffset? s
    some ⟨midnight + (micros : Int), offset⟩

/-- Above this size a count is in milliseconds. -/
def mostSeconds : Nat := 20000000000

/-- A count of seconds or milliseconds, and microseconds on top of it. It
has to fall in the years 1600 to 9999. -/
def ofTimestamp? (count : Int) (micros : Nat) : Option DateTime :=
  let total := (if count.natAbs > mostSeconds then count * 1000 else count * perSecond) + micros
  if -11676096000 * perSecond ≤ total && total ≤ lastMicro then some (utc total) else none

/-- A fraction of a second in microseconds, rounded as a binary number and
then to the nearest whole, a half upwards. -/
def microsOf (num den : Nat) : Nat :=
  match Binary64.ofRatio false num den with
  | .finite _ m e =>
    let (n, d) := Binary64.ratio m e
    match Binary64.ofRatio false (n * 1000000) d with
    | .finite _ m e =>
      let (n, d) := Binary64.ratio m e
      (2 * n + d) / (2 * d)
    | _ => 0
  | _ => 0

/-- The count of a binary number. Its fraction, whatever the sign of the
number, is added to the whole number below it. -/
def ofReal? : Binary64 → Option DateTime
  | .finite negative m e =>
    let (n, d) := Binary64.ratio m e
    let below : Int := (if negative then -(n : Int) else n).fdiv d
    ofTimestamp? below (microsOf (n % d) d)
  | _ => none

/-- The count of a binary number that came as text: milliseconds are made
seconds before the fraction is split off, and the fraction is the distance
to the whole number below. -/
def ofRealText? (x : Binary64) : Option DateTime :=
  let seconds := match x with
    | .finite negative m e =>
      let (n, d) := Binary64.ratio m e
      if n > mostSeconds * d then Binary64.ofRatio negative n (d * 1000) else x
    | _ => x
  match seconds with
  | .finite negative m e =>
    let (n, d) := Binary64.ratio m e
    let signed : Int := if negative then -(n : Int) else n
    ofTimestamp? (signed.fdiv d) (microsOf (signed.fmod d).toNat d)
  | _ => none

/-- An integer with an optional sign. -/
def wholeNumber? (s : List Char) : Option Int :=
  let digits := match s with
    | c :: rest => if c = '-' || c = '+' then rest else s
    | [] => []
  if digits.isEmpty || !digits.all isDigit then none
  else some (if s.head? = some '-' then -(ofDigits digits : Int) else ofDigits digits)

/-- A number with a point: an optional sign, digits on one side of the
point at least, and an exponent if wanted. -/
def pointNumber? (s : List Char) : Option Binary64 :=
  let negative := s.head? = some '-'
  let s := if negative || s.head? = some '+' then s.drop 1 else s
  let whole := s.takeWhile isDigit
  let s := s.drop whole.length
  if s.head? ≠ some '.' then none
  else
    let fraction := (s.drop 1).takeWhile isDigit
    let s := s.drop (fraction.length + 1)
    if whole.isEmpty && fraction.isEmpty then none
    else
      let exponent := match s with
        | [] => some 0
        | c :: rest => if c = 'e' || c = 'E' then wholeNumber? rest else none
      exponent.map fun e =>
        .ofDecimal negative (ofDigits (whole ++ fraction)) (e - (fraction.length : Int))

/-- The date and time that a text denotes. -/
def ofText? (s : List Char) : Option DateTime :=
  match ofStamp? s with
  | some d => some d
  | none =>
    match wholeNumber? s with
    | some n => ofTimestamp? n 0
    | none => (pointNumber? s).bind ofRealText?

/-- The date and time that a value denotes. -/
def ofJson : Json → Except DateProblem DateTime
  | .text (.plain s) => ((ofText? s.toList).map .ok).getD (.error .unreadable)
  | .text (.torn ..) => .error .torn
  | .int n =>
    match Binary64.ofInt n with
    | .infinite _ => .error .otherKind
    | _ => ((ofTimestamp? n 0).map .ok).getD (.error .unreadable)
  | .real x => ((ofReal? x).map .ok).getD (.error .unreadable)
  | _ => .error .otherKind

end DateTime

end CommentThreads.Time
