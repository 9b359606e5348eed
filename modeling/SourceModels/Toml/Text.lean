/-! Blanks, comments, line ends, strings and keys of TOML documents. -/
namespace SourceModels.Toml

def isBlankChar (c : Char) : Bool := c == ' ' || c == '\t'

def skipBlanks (text : List Char) : List Char := text.dropWhile isBlankChar

def newline? : List Char → Option (List Char)
  | '\n' :: rest => some rest
  | '\r' :: '\n' :: rest => some rest
  | _ => none

def isPlain (c : Char) : Bool := c == '\t' || (' ' ≤ c && c ≠ '\x7f')

def skipComment : List Char → List Char
  | '#' :: rest => rest.dropWhile isPlain
  | text => text

def lineEnd? (text : List Char) : Option (List Char) :=
  match skipComment (skipBlanks text) with
  | [] => some []
  | rest => newline? rest

def skipLines : (fuel : Nat) → List Char → List Char
  | 0, text => text
  | fuel + 1, text =>
    let text := skipBlanks text
    match text with
    | '#' :: _ =>
      match newline? (skipComment text) with
      | some rest => skipLines fuel rest
      | none => text
    | _ =>
      match newline? text with
      | some rest => skipLines fuel rest
      | none => text

def hexValue? (c : Char) : Option Nat :=
  if '0' ≤ c ∧ c ≤ '9' then some (c.toNat - 48)
  else if 'a' ≤ c ∧ c ≤ 'f' then some (c.toNat - 87)
  else if 'A' ≤ c ∧ c ≤ 'F' then some (c.toNat - 55)
  else none

def scalar? (digits : List Char) : Option Char := do
  let n ← digits.foldlM (fun n c => (hexValue? c).map (n * 16 + ·)) 0
  if n < 0xD800 ∨ (0xE000 ≤ n ∧ n < 0x110000) then some (Char.ofNat n) else none

def escape? : List Char → Option (Char × List Char)
  | 'b' :: rest => some ('\x08', rest)
  | 't' :: rest => some ('\t', rest)
  | 'n' :: rest => some ('\n', rest)
  | 'f' :: rest => some ('\x0C', rest)
  | 'r' :: rest => some ('\r', rest)
  | '"' :: rest => some ('"', rest)
  | '\\' :: rest => some ('\\', rest)
  | 'u' :: rest =>
    if 4 ≤ rest.length then (scalar? (rest.take 4)).map fun c => (c, rest.drop 4) else none
  | 'U' :: rest =>
    if 8 ≤ rest.length then (scalar? (rest.take 8)).map fun c => (c, rest.drop 8) else none
  | _ => none

def basicString : (fuel : Nat) → (seen : List Char) → List Char → Option (String × List Char)
  | fuel + 1, seen, c :: rest =>
    if c = '"' then some (String.ofList seen.reverse, rest)
    else if c = '\\' then
      match escape? rest with
      | some (d, rest) => basicString fuel (d :: seen) rest
      | none => none
    else if isPlain c then basicString fuel (c :: seen) rest
    else none
  | _, _, _ => none

def literalString : (seen : List Char) → List Char → Option (String × List Char)
  | seen, c :: rest =>
    if c = '\'' then some (String.ofList seen.reverse, rest)
    else if isPlain c then literalString (c :: seen) rest
    else none
  | _, [] => none

/-- Three quotes end a string of lines; up to two more before them belong to it. -/
def closing? (quote : Char) (text : List Char) : Option (List Char × List Char) :=
  let run := (text.takeWhile (· = quote)).length
  if 3 ≤ run then
    let kept := min (run - 3) 2
    some (List.replicate kept quote, text.drop (kept + 3))
  else none

def skipBlankLines : (fuel : Nat) → List Char → List Char
  | 0, text => text
  | fuel + 1, text =>
    let text := skipBlanks text
    match newline? text with
    | some rest => skipBlankLines fuel rest
    | none => text

def linesString (quote : Char) (escapes : Bool) :
    (fuel : Nat) → (seen : List Char) → List Char → Option (String × List Char)
  | 0, _, _ => none
  | fuel + 1, seen, text =>
    match closing? quote text with
    | some (more, rest) => some (String.ofList (seen.reverse ++ more), rest)
    | none =>
      match newline? text with
      | some rest => linesString quote escapes fuel ('\n' :: seen) rest
      | none =>
        match text with
        | [] => none
        | c :: rest =>
          if escapes ∧ c = '\\' then
            match newline? (skipBlanks rest) with
            | some after => linesString quote escapes fuel seen (skipBlankLines after.length after)
            | none =>
              match escape? rest with
              | some (d, rest) => linesString quote escapes fuel (d :: seen) rest
              | none => none
          else if isPlain c then linesString quote escapes fuel (c :: seen) rest
          else none

def afterOpening (text : List Char) : List Char := (newline? text).getD text

def string? (text : List Char) : Option (String × List Char) :=
  match text with
  | '"' :: '"' :: '"' :: rest => linesString '"' true (rest.length + 1) [] (afterOpening rest)
  | '"' :: rest => basicString (rest.length + 1) [] rest
  | '\'' :: '\'' :: '\'' :: rest =>
    linesString '\'' false (rest.length + 1) [] (afterOpening rest)
  | '\'' :: rest => literalString [] rest
  | _ => none

def isBare (c : Char) : Bool := c.isAlphanum || c == '_' || c == '-'

def simpleKey? (text : List Char) : Option (String × List Char) :=
  match text with
  | '"' :: rest => basicString (rest.length + 1) [] rest
  | '\'' :: rest => literalString [] rest
  | _ =>
    let name := text.takeWhile isBare
    if name = [] then none else some (String.ofList name, text.drop name.length)

def maxDepth : Nat := 79

def key? : (fuel : Nat) → List Char → Option (List String × List Char)
  | 0, _ => none
  | fuel + 1, text => do
    let (name, rest) ← simpleKey? (skipBlanks text)
    match skipBlanks rest with
    | '.' :: more => do
      let (names, rest) ← key? fuel more
      some (name :: names, rest)
    | rest => some ([name], rest)

end SourceModels.Toml
