import KnishIO.Library.CInteger

open ByteString

namespace KnishIO

namespace Molecule

/-- The days since 1970-01-01 in the proleptic Gregorian calendar. -/
def daysFromCivil (y : Int) (m d : Nat) : Int :=
  let y := if m ≤ 2 then y - 1 else y
  let era := (if 0 ≤ y then y else y - 399).tdiv 400
  let yoe := (y - era * 400).toNat
  let doy := (153 * (if 2 < m then m - 3 else m + 9) + 2) / 5 + d - 1
  let doe := yoe * 365 + yoe / 4 - yoe / 100 + doy
  era * 146097 + doe - 719468

/-- What the pattern of an RFC 3339 time captures: the numbers, the digits of the fraction, and the sign and the
numbers of the offset. -/
structure Rfc3339 where
  year : Nat
  month : Nat
  day : Nat
  hour : Nat
  minute : Nat
  second : Nat
  fraction : ByteString
  offset : Option (UInt8 × Nat × Nat)

/-- Exactly `n` digits. -/
def matchDigits (n : Nat) (s : ByteString) : Option (Nat × ByteString) :=
  if n ≤ s.length ∧ (s.take n).all Decimal.isDigit then some (Decimal.value (s.take n), s.drop n) else none

def matchByte (b : UInt8) : ByteString → Option ByteString
  | [] => none
  | c :: rest => if c = b then some rest else none

/-- An optional fraction: a point and at least one digit. -/
def matchFraction (s : ByteString) : Option (ByteString × ByteString) :=
  match matchByte 46 s with
  | none => some ([], s)
  | some rest =>
    if rest.takeWhile Decimal.isDigit = [] then none
    else some (rest.takeWhile Decimal.isDigit, rest.dropWhile Decimal.isDigit)

/-- `Z`, or a sign with hours and minutes, and then the end. -/
def matchOffset : ByteString → Option (Option (UInt8 × Nat × Nat))
  | [] => none
  | c :: rest =>
    if c = 90 then if rest = [] then some none else none
    else if c = 43 ∨ c = 45 then do
      let (hours, rest) ← matchDigits 2 rest
      let rest ← matchByte 58 rest
      let (minutes, rest) ← matchDigits 2 rest
      if rest = [] then some (some (c, hours, minutes)) else none
    else none

def matchRfc3339 (s : ByteString) : Option Rfc3339 := do
  let (year, s) ← matchDigits 4 s
  let s ← matchByte 45 s
  let (month, s) ← matchDigits 2 s
  let s ← matchByte 45 s
  let (day, s) ← matchDigits 2 s
  let s ← matchByte 84 s
  let (hour, s) ← matchDigits 2 s
  let s ← matchByte 58 s
  let (minute, s) ← matchDigits 2 s
  let s ← matchByte 58 s
  let (second, s) ← matchDigits 2 s
  let (fraction, s) ← matchFraction s
  let offset ← matchOffset s
  return { year, month, day, hour, minute, second, fraction, offset }

/-- The first three digits of the fraction. -/
def fractionMillis (fraction : ByteString) : Nat :=
  Decimal.value (fraction.take 3 ++ List.replicate (3 - (fraction.take 3).length) 48)

def offsetMinutes : Option (UInt8 × Nat × Nat) → Int
  | none => 0
  | some (sign, hours, minutes) => if sign = 45 then -(hours * 60 + minutes : Int) else hours * 60 + minutes

def parseRfc3339Millis (s : ByteString) : Option Int :=
  match matchRfc3339 s with
  | none => none
  | some m =>
    if m.month < 1 ∨ 12 < m.month ∨ m.day < 1 ∨ 31 < m.day ∨ 23 < m.hour ∨ 59 < m.minute ∨ 60 < m.second then none
    else
      let days := daysFromCivil m.year m.month m.day
      let seconds := days * 86400 + m.hour * 3600 + m.minute * 60 + m.second - offsetMinutes m.offset * 60
      some (seconds * 1000 + fractionMillis m.fraction)

/-- Digits stay, a time is converted, other strings stay too; an empty string is absent. -/
def toSignedTimestamp (createdAt : ByteString) : Option ByteString :=
  if createdAt = [] then none
  else if createdAt.all Decimal.isDigit then some createdAt
  else
    match parseRfc3339Millis createdAt with
    | some millis => some (Decimal.ofInt millis)
    | none => some createdAt

/-- The integer overload. -/
def toSignedTimestampInt (createdAt : Int64) : ByteString := Decimal.ofInt createdAt.toInt

example : toSignedTimestamp (ascii "2026-10-14T20:02:37.110Z") = some (ascii "1792008157110") := by decide

example : toSignedTimestamp (ascii "1969-12-31T23:59:59-01:00") = some (ascii "3599000") := by decide

end Molecule

end KnishIO
