/-
CommentThreads.Proofs.Time.Stamp — a written date and time is read back.

* `dayNumber_ofMicros`, `timeOfDay_ofMicros` — a moment in the calendar is
  its day and its time of day.
* `ofStamp?_stampChars` — the written form of a moment in universal time
  denotes that moment, to the microsecond.
* `ofJson_stamp` — the same for a record that holds the written form.

The reader takes a stamp apart from the left, so each lemma on a piece says
what it leaves behind.
-/
import CommentThreads.Proofs.Text.Digits
import CommentThreads.Proofs.Time.Calendar
import CommentThreads.Time.Reader

namespace CommentThreads.Time

open CommentThreads.Number CommentThreads.Text

/-! ## The parts of a moment -/

theorem inRange_iff (micros : Int) :
    inRange micros = true ↔ firstMicro ≤ micros ∧ micros ≤ lastMicro := by
  simp [inRange]

/-- The day of a moment in the calendar, and what the time of day leaves. -/
theorem dayNumber_ofMicros {micros : Int} (h : inRange micros = true) :
    (Parts.ofMicros micros).dayNumber < 3652059 ∧
      ((Parts.ofMicros micros).dayNumber : Int) - epochDay = micros / perDay := by
  rw [inRange_iff] at h
  simp only [Parts.ofMicros, firstMicro, lastMicro, perDay, perSecond, epochDay,
    Int.fdiv_eq_ediv_of_nonneg _ (show (0 : Int) ≤ 86400 * 1000000 by decide)] at h ⊢
  omega

/-- Every part of a time of day stays below the next larger one. -/
theorem ofMicros_lt (micros : Int) :
    (Parts.ofMicros micros).hour < 24 ∧ (Parts.ofMicros micros).minute < 60 ∧
      (Parts.ofMicros micros).second < 60 ∧ (Parts.ofMicros micros).micro < 1000000 := by
  simp only [Parts.ofMicros, perDay, perSecond,
    Int.fmod_eq_emod_of_nonneg _ (show (0 : Int) ≤ 86400 * 1000000 by decide)]
  omega

/-- The time of day of a moment. -/
theorem timeOfDay_ofMicros (micros : Int) :
    let p := Parts.ofMicros micros
    (((p.hour * 3600 + p.minute * 60 + p.second) * 1000000 + p.micro : Nat) : Int) =
      micros % perDay := by
  simp only [Parts.ofMicros, perDay, perSecond,
    Int.fmod_eq_emod_of_nonneg _ (show (0 : Int) ≤ 86400 * 1000000 by decide)]
  omega

namespace DateTime

/-! ## Reading the pieces -/

/-- A number in a fixed number of digits is taken off a text. -/
theorem takeDigits?_padded {width n : Nat} (h : n < tenTo width) (rest : List Char) :
    takeDigits? width (padded width n ++ rest) = some (n, rest) := by
  have htake : (padded width n ++ rest).take width = padded width n := by
    simp
  have hdrop : (padded width n ++ rest).drop width = rest := by
    simp
  simp [takeDigits?, htake, hdrop, all_isDigit_padded, ofDigits_padded_of_lt h]

/-- A character that is expected is taken off a text. -/
theorem after?_cons {expected : List Char} {c : Char} (h : expected.contains c = true)
    (rest : List Char) : after? expected (c :: rest) = some rest := by
  rw [after?, if_pos h]

theorem takeDate?_written {date : Date} (h : date.isValid = true) (rest : List Char) :
    takeDate? (padded 4 date.year ++ '-' :: (padded 2 date.month ++ '-' ::
      (padded 2 date.day ++ rest))) = some (date.dayNumber, rest) := by
  have hbounds := h
  simp only [Date.isValid, Bool.and_eq_true, decide_eq_true_eq] at hbounds
  have hday : daysInMonth date.year date.month ≤ 31 := by
    simp only [daysInMonth, monthLengths]
    split <;> rcases date.month - 1 with _ | _ | _ | _ | _ | _ | _ | _ | _ | _ | _ | _ | _ <;> simp
  have hyear : date.year < 10000 := by omega
  have hmonth : date.month < 100 := by omega
  have hdays : date.day < 100 := by omega
  simp only [takeDate?, takeDigits?_padded (show date.year < tenTo 4 from hyear),
    takeDigits?_padded (show date.month < tenTo 2 from hmonth),
    takeDigits?_padded (show date.day < tenTo 2 from hdays),
    after?_cons (show ['-'].contains '-' = true from rfl), Option.bind_eq_bind, Option.bind_some]
  rw [if_pos h]

/-- Microseconds, written only when there are some. -/
theorem takeFraction?_written {micro : Nat} (h : micro < tenTo 6) :
    takeFraction? ((if micro = 0 then [] else '.' :: padded 6 micro) ++ ['Z']) =
      some (micro, ['Z']) := by
  split
  next hzero =>
    subst hzero
    rfl
  next hzero =>
    have hdigits : (padded 6 micro ++ ['Z']).takeWhile isDigit = padded 6 micro := by
      rw [List.takeWhile_append_of_pos fun _ => isDigit_of_mem_padded]
      simp [show isDigit 'Z' = false from rfl]
    have hdrop : (padded 6 micro ++ ['Z']).drop 6 = ['Z'] := by simp
    have htake : (padded 6 micro).take 6 = padded 6 micro :=
      List.take_of_length_le (by simp)
    rw [List.cons_append, takeFraction?, after?_cons rfl]
    simp only [hdigits, htake, length_padded, hdrop]
    rw [if_neg (by simp [List.isEmpty_iff, ← List.length_eq_zero_iff])]
    simp [ofDigits_padded_of_lt h]

theorem takeTime?_written {p : Parts} (hhour : p.hour < 24) (hminute : p.minute < 60)
    (hsecond : p.second < 60) (hmicro : p.micro < 1000000) :
    takeTime? (timeText p ++ ((if p.micro = 0 then [] else '.' :: padded 6 p.micro) ++ ['Z'])) =
      some ((p.hour * 3600 + p.minute * 60 + p.second) * 1000000 + p.micro, ['Z']) := by
  have hseconds : takeSeconds? (':' :: (padded 2 p.second ++
      ((if p.micro = 0 then [] else '.' :: padded 6 p.micro) ++ ['Z']))) =
        some (p.second, p.micro, ['Z']) := by
    rw [takeSeconds?, after?_cons rfl]
    simp only [takeDigits?_padded (show p.second < tenTo 2 from Nat.lt_trans hsecond (by decide)),
      takeFraction?_written hmicro,
      Option.bind_eq_bind, Option.bind_some]
  simp only [timeText, List.append_assoc, List.cons_append, takeTime?,
    takeDigits?_padded (show p.hour < tenTo 2 from Nat.lt_trans hhour (by decide)),
    takeDigits?_padded (show p.minute < tenTo 2 from Nat.lt_trans hminute (by decide)), after?_cons
      (show [':'].contains ':' = true from rfl), hseconds, Option.bind_eq_bind, Option.bind_some]
  rw [if_pos (by simp [hhour, hminute, hsecond])]

/-! ## Reading a stamp -/

/-- The written form of a moment in universal time, piece by piece from the
left. -/
theorem stampChars_utc (micros : Int) :
    (utc micros).stampChars =
      padded 4 (Date.ofDayNumber (Parts.ofMicros micros).dayNumber).year ++ '-' ::
        (padded 2 (Date.ofDayNumber (Parts.ofMicros micros).dayNumber).month ++ '-' ::
          (padded 2 (Date.ofDayNumber (Parts.ofMicros micros).dayNumber).day ++ 'T' ::
            (timeText (Parts.ofMicros micros) ++
              ((if (Parts.ofMicros micros).micro = 0 then []
                else '.' :: padded 6 (Parts.ofMicros micros).micro) ++ ['Z'])))) := by
  simp only [stampChars, List.append_assoc, List.cons_append]
  rfl

/-- The written form of a moment in universal time denotes that moment. -/
theorem ofStamp?_stampChars {micros : Int} (h : inRange micros = true) :
    ofStamp? (utc micros).stampChars = some (utc micros) := by
  obtain ⟨hday, hmidnight⟩ := dayNumber_ofMicros h
  obtain ⟨hhour, hminute, hsecond, hmicro⟩ := ofMicros_lt micros
  have htime := timeOfDay_ofMicros micros
  have hsplit : micros / perDay * perDay + micros % perDay = micros := by
    rw [Int.mul_comm, Int.mul_ediv_add_emod]
  rw [stampChars_utc, ofStamp?, takeDate?_written (Date.isValid_ofDayNumber hday),
    Date.dayNumber_ofDayNumber]
  simp only [Option.bind_eq_bind, Option.bind_some, hmidnight, List.isEmpty_cons,
    Bool.false_eq_true, if_false,
    after?_cons (show ['T', 't', '_', ' '].contains 'T' = true from rfl),
    takeTime?_written hhour hminute hsecond hmicro, htime, hsplit]
  rfl

theorem ofText?_stamp {micros : Int} (h : inRange micros = true) :
    ofText? (utc micros).stamp.toList = some (utc micros) := by
  simp only [stamp, String.toList_ofList, ofText?, ofStamp?_stampChars h]

/-- A record's date and time is the one that was written to it. -/
theorem ofJson_stamp {micros : Int} (h : inRange micros = true) :
    ofJson (.text (utc micros).stamp) = .ok (utc micros) := by
  simp only [ofJson, ofText?_stamp h, Option.map_some, Option.getD_some]

end DateTime

end CommentThreads.Time
