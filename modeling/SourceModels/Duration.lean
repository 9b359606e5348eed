import SourceModels.Bytes

/-! Lengths of time in nanoseconds, written in the largest unit that leaves a whole part. -/
namespace SourceModels

structure Duration where
  nanoseconds : Nat
  deriving DecidableEq, Repr

namespace Duration

def ofSeconds (n : Nat) : Duration := ⟨n * 1000000000⟩

def fractionDigits : (width : Nat) → (part : Nat) → List Char
  | 0, _ => []
  | width + 1, part =>
    if part = 0 then []
    else Char.ofNat (48 + part / 10 ^ width) :: fractionDigits width (part % 10 ^ width)

def inUnit (nanoseconds places : Nat) (unit : String) : String :=
  let fraction := fractionDigits places (nanoseconds % 10 ^ places)
  toString (nanoseconds / 10 ^ places) ++
    (if fraction.isEmpty then "" else "." ++ String.ofList fraction) ++ unit

def render (d : Duration) : String :=
  if 1000000000 ≤ d.nanoseconds then inUnit d.nanoseconds 9 "s"
  else if 1000000 ≤ d.nanoseconds then inUnit d.nanoseconds 6 "ms"
  else if 1000 ≤ d.nanoseconds then inUnit d.nanoseconds 3 "µs"
  else inUnit d.nanoseconds 0 "ns"

end Duration

end SourceModels
