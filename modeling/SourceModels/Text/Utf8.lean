import SourceModels.Bytes

/-! Reading bytes as UTF-8, one piece at a time: a well-formed character, or the longest start of
one that the next byte rules out. Strict reading refuses broken pieces, tolerant reading replaces
each by U+FFFD. -/
namespace SourceModels.Utf8

inductive Piece where
  | char (c : Char)
  | broken
  deriving DecidableEq, Repr

def front? (bytes : Bytes) : Option Char := (bytes.take 4).toByteArray.utf8DecodeChar? 0

def lead (b : UInt8) : Option (Nat × UInt8 × UInt8) :=
  if 0xC2 ≤ b ∧ b ≤ 0xDF then some (1, 0x80, 0xBF)
  else if b = 0xE0 then some (2, 0xA0, 0xBF)
  else if b = 0xED then some (2, 0x80, 0x9F)
  else if 0xE1 ≤ b ∧ b ≤ 0xEF then some (2, 0x80, 0xBF)
  else if b = 0xF0 then some (3, 0x90, 0xBF)
  else if 0xF1 ≤ b ∧ b ≤ 0xF3 then some (3, 0x80, 0xBF)
  else if b = 0xF4 then some (3, 0x80, 0x8F)
  else none

def tailLength : (wanted : Nat) → (lo hi : UInt8) → Bytes → Nat
  | wanted + 1, lo, hi, b :: rest =>
    if lo ≤ b ∧ b ≤ hi then tailLength wanted 0x80 0xBF rest + 1 else 0
  | _, _, _, _ => 0

def brokenLength (b : UInt8) (rest : Bytes) : Nat :=
  match lead b with
  | none => 1
  | some (wanted, lo, hi) => 1 + tailLength wanted lo hi rest

def next (b : UInt8) (rest : Bytes) : Piece × Bytes :=
  match front? (b :: rest) with
  | some c => (.char c, (b :: rest).drop c.utf8Size)
  | none => (.broken, (b :: rest).drop (brokenLength b rest))

def piecesFrom : (fuel : Nat) → Bytes → List Piece → List Piece
  | fuel + 1, b :: rest, seen =>
    let (piece, rest) := next b rest
    piecesFrom fuel rest (piece :: seen)
  | _, _, seen => seen.reverse

def pieces (bytes : Bytes) : List Piece := piecesFrom bytes.length bytes []

def Piece.char? : Piece → Option Char
  | .char c => some c
  | .broken => none

def Piece.orReplacement : Piece → Char
  | .char c => c
  | .broken => '\uFFFD'

def decode? (bytes : Bytes) : Option String :=
  ((pieces bytes).mapM Piece.char?).map String.ofList

def decodeLossy (bytes : Bytes) : String :=
  String.ofList ((pieces bytes).map Piece.orReplacement)

def isText (bytes : Bytes) : Bool := (pieces bytes).all (· != .broken)

end SourceModels.Utf8
