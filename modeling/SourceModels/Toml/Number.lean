import SourceModels.Instant
import SourceModels.Toml.Item
import SourceModels.Toml.Text

/-! Numbers, dates and times of TOML documents. Of dates and floating-point numbers only the form
counts. -/
namespace SourceModels.Toml

def digitsAfter? (isDigit : Char → Bool) (seen : List Char) :
    List Char → Option (List Char × List Char)
  | '_' :: d :: rest => if isDigit d then digitsAfter? isDigit (d :: seen) rest else none
  | ['_'] => none
  | c :: rest =>
    if isDigit c then digitsAfter? isDigit (c :: seen) rest else some (seen.reverse, c :: rest)
  | [] => some (seen.reverse, [])

def digitRun? (isDigit : Char → Bool) : List Char → Option (List Char × List Char)
  | c :: rest => if isDigit c then digitsAfter? isDigit [c] rest else none
  | [] => none

def sign? : List Char → Bool × List Char
  | '+' :: rest => (false, rest)
  | '-' :: rest => (true, rest)
  | text => (false, text)

def decimal? (text : List Char) : Option (Bool × List Char × List Char) :=
  let (negative, rest) := sign? text
  match rest with
  | '0' :: rest => some (negative, ['0'], rest)
  | _ => (digitRun? Decimal.isDigit rest).map fun (digits, rest) => (negative, digits, rest)

def minInteger : Int := -(2 ^ 63)

def maxInteger : Int := 2 ^ 63 - 1

def inRange? (n : Int) : Option Item :=
  if minInteger ≤ n ∧ n ≤ maxInteger then some (.integer n) else none

def inBase? (base : Nat) (isDigit : Char → Bool) (text : List Char) :
    Option (Item × List Char) := do
  let (digits, rest) ← digitRun? isDigit text
  let n := digits.foldl (fun n c => n * base + (hexValue? c).getD 0) 0
  some (← inRange? n, rest)

def integer? (text : List Char) : Option (Item × List Char) :=
  match text with
  | '0' :: 'x' :: rest => inBase? 16 (fun c => (hexValue? c).isSome) rest
  | '0' :: 'o' :: rest => inBase? 8 (fun c => '0' ≤ c && c ≤ '7') rest
  | '0' :: 'b' :: rest => inBase? 2 (fun c => c == '0' || c == '1') rest
  | _ => do
    let (negative, digits, rest) ← decimal? text
    let n : Int := Decimal.value digits
    some (← inRange? (if negative then -n else n), rest)

/-- The least number that is rounded up to infinity. -/
def overflowBound : Nat := 2 ^ 1024 - 2 ^ 970

def overflows (digits : List Char) (exponent : Int) : Bool :=
  let digits := digits.dropWhile (· = '0')
  let places : Int := digits.length + exponent
  if digits = [] ∨ places < 300 then false
  else if 400 < places then true
  else if 0 ≤ exponent then overflowBound ≤ Decimal.value digits * 10 ^ exponent.toNat
  else overflowBound * 10 ^ exponent.natAbs ≤ Decimal.value digits

def exponent? (text : List Char) : Option (Int × List Char) :=
  match text with
  | e :: rest =>
    if e = 'e' ∨ e = 'E' then
      let (negative, rest) := sign? rest
      (digitRun? Decimal.isDigit rest).map fun (digits, rest) =>
        let n : Int := Decimal.value digits
        (if negative then -n else n, rest)
    else none
  | [] => none

def float? (text : List Char) : Option (Item × List Char) := do
  let (negative, whole, rest) ← decimal? text
  let (fraction, exponent, rest) ← match rest with
    | '.' :: more => do
      let (fraction, rest) ← digitRun? Decimal.isDigit more
      match exponent? rest with
      | some (n, rest) => some (fraction, n, rest)
      | none => some (fraction, (0 : Int), rest)
    | _ => (exponent? rest).map fun (n, rest) => ([], n, rest)
  if negative = false ∧ overflows (whole ++ fraction) (exponent - fraction.length) then none
  else some (.float, rest)

def specialFloat? (text : List Char) : Option (Item × List Char) :=
  match (sign? text).2 with
  | 'i' :: 'n' :: 'f' :: rest => some (.float, rest)
  | 'n' :: 'a' :: 'n' :: rest => some (.float, rest)
  | _ => none

def fixed? (width : Nat) (text : List Char) : Option (Nat × List Char) :=
  let digits := text.take width
  if digits.length = width ∧ digits.all Decimal.isDigit then
    some (Decimal.value digits, text.drop width)
  else none

def char? (c : Char) : List Char → Option (List Char)
  | d :: rest => if d = c then some rest else none
  | [] => none

def twoDigits? (most : Nat) (text : List Char) : Option (Nat × List Char) :=
  (fixed? 2 text).filter fun (n, _) => n ≤ most

def date? (text : List Char) : Option (List Char) := do
  let (year, rest) ← fixed? 4 text
  let (month, rest) ← fixed? 2 (← char? '-' rest)
  let (day, rest) ← fixed? 2 (← char? '-' rest)
  if 1 ≤ month ∧ month ≤ 12 ∧ 1 ≤ day ∧ day ≤ Instant.daysInMonth year month then some rest
  else none

def time? (text : List Char) : Option (List Char) := do
  let (_, rest) ← twoDigits? 23 text
  let (_, rest) ← twoDigits? 59 (← char? ':' rest)
  let (_, rest) ← twoDigits? 60 (← char? ':' rest)
  match rest with
  | '.' :: more =>
    let digits := more.takeWhile Decimal.isDigit
    if digits = [] then some rest else some (more.drop digits.length)
  | _ => some rest

def zone? (text : List Char) : Option (List Char) :=
  match text with
  | 'Z' :: rest => some rest
  | 'z' :: rest => some rest
  | c :: rest =>
    if c = '+' ∨ c = '-' then do
      let (_, rest) ← twoDigits? 23 rest
      let (_, rest) ← twoDigits? 59 (← char? ':' rest)
      some rest
    else some text
  | [] => some []

def datetime? (text : List Char) : Option (Item × List Char) :=
  match date? text with
  | none => (time? text).map fun rest => (.datetime, rest)
  | some rest =>
    match rest with
    | c :: more =>
      if c = 'T' ∨ c = 't' ∨ c = ' ' then
        match time? more with
        | some rest => (zone? rest).map fun rest => (.datetime, rest)
        | none => some (.datetime, rest)
      else some (.datetime, rest)
    | [] => some (.datetime, rest)

def number? (text : List Char) : Option (Item × List Char) :=
  datetime? text <|> float? text <|> specialFloat? text <|> integer? text

end SourceModels.Toml
