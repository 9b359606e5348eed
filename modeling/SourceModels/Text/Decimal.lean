import SourceModels.Bytes

/-! Natural numbers in decimal. -/
namespace SourceModels.Decimal

def isDigit (c : Char) : Bool := '0' ≤ c && c ≤ '9'

def digitValue (c : Char) : Nat := c.toNat - '0'.toNat

def value (digits : List Char) : Nat := digits.foldl (fun n c => n * 10 + digitValue c) 0

def digits? (text : List Char) : Option Nat :=
  if text ≠ [] ∧ text.all isDigit then some (value text) else none

def wordBound : Nat := 2 ^ 64

def word? (text : String) : Option Nat :=
  let digits := match text.toList with
    | '+' :: rest => rest
    | other => other
  (digits? digits).filter (· < wordBound)

def render (n : Nat) : String := toString n

def padded (width : Nat) (n : Nat) : String :=
  let digits := toString n
  String.ofList (List.replicate (width - digits.length) '0') ++ digits

def alignRight (width : Nat) (text : String) : String :=
  String.ofList (List.replicate (width - text.length) ' ') ++ text

end SourceModels.Decimal
