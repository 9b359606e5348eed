import SourceModels.Text.Blank
import SourceModels.Text.Decimal

/-! Instants in universal time to the nanosecond, and their text: date, `T`, time and zone. Reading
also takes looser spellings and other zones. -/
namespace SourceModels

structure Instant where
  year : Int
  month : Nat
  day : Nat
  hour : Nat
  minute : Nat
  /-- Sixty in a leap second. -/
  second : Nat
  nanosecond : Nat
  deriving DecidableEq, Repr

namespace Instant

def isLeapYear (year : Int) : Bool := year % 4 = 0 && (year % 100 ≠ 0 || year % 400 = 0)

def daysInMonth (year : Int) (month : Nat) : Nat :=
  if month = 2 then (if isLeapYear year then 29 else 28)
  else if month = 4 ∨ month = 6 ∨ month = 9 ∨ month = 11 then 30
  else 31

def minYear : Int := -262143

def maxYear : Int := 262142

def isValid (t : Instant) : Bool :=
  minYear ≤ t.year && t.year ≤ maxYear && 1 ≤ t.month && t.month ≤ 12 && 1 ≤ t.day &&
    t.day ≤ daysInMonth t.year t.month && t.hour ≤ 23 && t.minute ≤ 59 && t.second ≤ 60 &&
    t.nanosecond < 1000000000

def nextDay (t : Instant) : Instant :=
  if t.day < daysInMonth t.year t.month then { t with day := t.day + 1 }
  else if t.month < 12 then { t with month := t.month + 1, day := 1 }
  else { t with year := t.year + 1, month := 1, day := 1 }

def previousDay (t : Instant) : Instant :=
  if 1 < t.day then { t with day := t.day - 1 }
  else if 1 < t.month then
    { t with month := t.month - 1, day := daysInMonth t.year (t.month - 1) }
  else { t with year := t.year - 1, month := 12, day := 31 }

def fromZone (t : Instant) (minutes : Int) : Instant :=
  let clock := (t.hour * 60 + t.minute : Nat) - minutes
  let day := if clock < 0 then previousDay t else if 1440 ≤ clock then nextDay t else t
  let clock := (clock % 1440).toNat
  { day with hour := clock / 60, minute := clock % 60 }

def renderYear (year : Int) : String :=
  if 0 ≤ year ∧ year ≤ 9999 then Decimal.padded 4 year.toNat
  else (if year < 0 then "-" else "+") ++ Decimal.padded 4 year.natAbs

def renderFraction (nanosecond : Nat) : String :=
  if nanosecond = 0 then ""
  else if nanosecond % 1000000 = 0 then "." ++ Decimal.padded 3 (nanosecond / 1000000)
  else if nanosecond % 1000 = 0 then "." ++ Decimal.padded 6 (nanosecond / 1000)
  else "." ++ Decimal.padded 9 nanosecond

def renderWith (zone : String) (t : Instant) : String :=
  renderYear t.year ++ "-" ++ Decimal.padded 2 t.month ++ "-" ++ Decimal.padded 2 t.day ++ "T" ++
    Decimal.padded 2 t.hour ++ ":" ++ Decimal.padded 2 t.minute ++ ":" ++
    Decimal.padded 2 t.second ++ renderFraction t.nanosecond ++ zone

def stored (t : Instant) : String := t.renderWith "Z"

def display (t : Instant) : String := t.renderWith "+00:00"

def digits? (most : Nat) (text : List Char) : Option (Nat × List Char) :=
  let digits := (text.take most).takeWhile Decimal.isDigit
  if digits = [] then none else some (Decimal.value digits, text.drop digits.length)

def year? (text : List Char) : Option (Int × List Char) :=
  match text with
  | '-' :: rest => (digits? rest.length rest).map fun (n, rest) => (-(n : Int), rest)
  | '+' :: rest => (digits? rest.length rest).map fun (n, rest) => ((n : Int), rest)
  | _ => (digits? 4 text).map fun (n, rest) => ((n : Int), rest)

def skipBlanks (text : List Char) : List Char := text.dropWhile Text.isBlank

def field? (text : List Char) : Option (Nat × List Char) := digits? 2 (skipBlanks text)

def mark? (c : Char) (text : List Char) : Option (List Char) :=
  match skipBlanks text with
  | d :: rest => if d = c then some rest else none
  | [] => none

def fraction? (text : List Char) : Option (Nat × List Char) :=
  match text with
  | '.' :: rest =>
    let digits := rest.takeWhile Decimal.isDigit
    if digits = [] then none
    else
      let kept := digits.take 9
      some (Decimal.value kept * 10 ^ (9 - kept.length), rest.drop digits.length)
  | _ => some (0, text)

def signedZone? (sign : Int) (text : List Char) : Option (Int × List Char) :=
  match text with
  | h1 :: h2 :: rest =>
    match rest.dropWhile (fun c => c = ':' || Text.isBlank c) with
    | m1 :: m2 :: rest =>
      if [h1, h2, m1, m2].all Decimal.isDigit ∧ m1 < '6' ∧ Decimal.value [h1, h2] < 24 then
        some (sign * (Decimal.value [h1, h2] * 60 + Decimal.value [m1, m2] : Nat), rest)
      else none
    | _ => none
  | _ => none

def zone? (text : List Char) : Option (Int × List Char) :=
  if (text.take 3).map Char.toUpper = ['U', 'T', 'C'] then some (0, text.drop 3)
  else match text with
    | 'Z' :: rest => some (0, rest)
    | 'z' :: rest => some (0, rest)
    | '+' :: rest => signedZone? 1 rest
    | '-' :: rest => signedZone? (-1) rest
    | '\u2212' :: rest => signedZone? (-1) rest
    | _ => none

def separator? : List Char → Option (List Char)
  | c :: rest => if c = 'T' ∨ c = 't' ∨ c = ' ' then some rest else none
  | [] => none

def parse? (text : String) : Option Instant := do
  let (year, rest) ← year? (skipBlanks text.toList)
  let (month, rest) ← field? (← mark? '-' rest)
  let (day, rest) ← field? (← mark? '-' rest)
  let (hour, rest) ← field? (← separator? rest)
  let (minute, rest) ← field? (← mark? ':' rest)
  let (second, rest) ← field? (← mark? ':' rest)
  let (nanosecond, rest) ← fraction? rest
  let (minutes, rest) ← zone? (skipBlanks rest)
  let clock : Instant := ⟨year, month, day, hour, minute, second, nanosecond⟩
  if skipBlanks rest = [] ∧ clock.isValid then
    let t := fromZone clock minutes
    if t.isValid then some t else none
  else none

def ofEpoch (seconds nanoseconds : Nat) : Instant :=
  let z := seconds / 86400 + 719468
  let era := z / 146097
  let dayOfEra := z % 146097
  let yearOfEra := (dayOfEra - dayOfEra / 1460 + dayOfEra / 36524 - dayOfEra / 146096) / 365
  let dayOfYear := dayOfEra - (365 * yearOfEra + yearOfEra / 4 - yearOfEra / 100)
  let shifted := (5 * dayOfYear + 2) / 153
  let month := if shifted < 10 then shifted + 3 else shifted - 9
  let year := yearOfEra + era * 400 + (if month ≤ 2 then 1 else 0)
  let clock := seconds % 86400
  ⟨year, month, dayOfYear - (153 * shifted + 2) / 5 + 1, clock / 3600, clock / 60 % 60, clock % 60,
    nanoseconds % 1000000000⟩

end Instant

end SourceModels
