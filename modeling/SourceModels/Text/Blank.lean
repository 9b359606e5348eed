/-! White space, trimming and searching in texts. -/
namespace SourceModels.Text

def blankRanges : List (Nat × Nat) :=
  [(0x09, 0x0D), (0x20, 0x20), (0x85, 0x85), (0xA0, 0xA0), (0x1680, 0x1680), (0x2000, 0x200A),
   (0x2028, 0x2029), (0x202F, 0x202F), (0x205F, 0x205F), (0x3000, 0x3000)]

def isBlank (c : Char) : Bool := blankRanges.any fun r => r.1 ≤ c.toNat && c.toNat ≤ r.2

def dropEnd {α : Type} (p : α → Bool) (xs : List α) : List α := (xs.reverse.dropWhile p).reverse

def trimEndWhile (p : Char → Bool) (text : String) : String :=
  String.ofList (dropEnd p text.toList)

def trimEnd (text : String) : String := trimEndWhile isBlank text

def trim (text : String) : String :=
  String.ofList (dropEnd isBlank (text.toList.dropWhile isBlank))

def isAllBlank (text : String) : Bool := text.toList.all isBlank

def suffixes {α : Type} : List α → List (List α)
  | [] => [[]]
  | x :: xs => (x :: xs) :: suffixes xs

def occursIn {α : Type} [BEq α] (part whole : List α) : Bool :=
  (suffixes whole).any part.isPrefixOf

def stripEnd? {α : Type} [BEq α] (tail xs : List α) : Option (List α) :=
  (tail.reverse.isPrefixOf? xs.reverse).map List.reverse

def afterLast? {α : Type} [BEq α] (mark : List α) : List α → Option (List α)
  | [] => mark.isPrefixOf? []
  | x :: xs =>
    match afterLast? mark xs with
    | some tail => some tail
    | none => mark.isPrefixOf? (x :: xs)

def replaceChar (old new : Char) (text : List Char) : List Char :=
  text.map fun c => if c = old then new else c

def splitOn {α : Type} [DecidableEq α] (sep : α) : List α → List (List α)
  | [] => [[]]
  | x :: xs =>
    match splitOn sep xs with
    | [] => [[x]]
    | piece :: more => if x = sep then [] :: piece :: more else (x :: piece) :: more

def lowerChar (c : Char) : Char := if c = '\u212A' then 'k' else c.toLower

end SourceModels.Text
