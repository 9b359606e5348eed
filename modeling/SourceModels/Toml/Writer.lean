import SourceModels.Bytes

/-! Writing TOML: how a string is quoted follows from what it holds. -/
namespace SourceModels.Toml

def needsEscape (c : Char) : Bool :=
  (c.toNat < 32 && c ≠ '\t' && c ≠ '\n') || c == '\x7f'

def longestRun (quote : Char) : (current longest : Nat) → List Char → Nat
  | _, longest, [] => longest
  | current, longest, c :: rest =>
    if c = quote then longestRun quote (current + 1) (max longest (current + 1)) rest
    else longestRun quote 0 longest rest

structure Quoting where
  lines : Bool
  escapes : Bool
  deriving DecidableEq, Repr

def quoting (text : List Char) : Quoting :=
  let plain := !text.any needsEscape
  let newline := text.contains '\n'
  if plain ∧ newline = false ∧ !text.contains '"' ∧ !text.contains '\\' then ⟨false, true⟩
  else if plain ∧ newline = false ∧ !text.contains '\'' then ⟨false, false⟩
  else if plain ∧ !text.contains '\\' ∧ longestRun '"' 0 0 text ≤ 2 then ⟨true, true⟩
  else if plain ∧ longestRun '\'' 0 0 text ≤ 2 then ⟨true, false⟩
  else ⟨newline, true⟩

def upperHex (n : Nat) : Char := (Bytes.hexDigit n).toUpper

def escapeChar (lines : Bool) (c : Char) : List Char :=
  if c = '\\' then ['\\', '\\']
  else if c = '\t' then ['\\', 't']
  else if c = '\n' then (if lines then ['\n'] else ['\\', 'n'])
  else if c = '\r' then ['\\', 'r']
  else if c = '\x08' then ['\\', 'b']
  else if c = '\x0C' then ['\\', 'f']
  else if c.toNat < 32 ∨ c = '\x7f' then
    ['\\', 'u', '0', '0', upperHex (c.toNat / 16), upperHex (c.toNat % 16)]
  else [c]

/-- The text between double quotes. In a string of lines only every third quote in a row is
escaped; `run` counts the quotes before. -/
def escaped (lines : Bool) : (run : Nat) → List Char → List Char
  | _, [] => []
  | run, c :: rest =>
    if c = '"' then
      if lines ∧ run < 2 then '"' :: escaped lines (run + 1) rest
      else '\\' :: '"' :: escaped lines 0 rest
    else escapeChar lines c ++ escaped lines 0 rest

def quote (text : List Char) : List Char :=
  let style := quoting text
  let mark := if style.escapes then '"' else '\''
  let marks := List.replicate (if style.lines then 3 else 1) mark
  let opening := if style.lines ∧ text.contains '\n' then ['\n'] else []
  marks ++ opening ++ (if style.escapes then escaped style.lines 0 text else text) ++ marks

def writeString (text : String) : List Char := quote text.toList

def writeStrings (texts : List String) : List Char :=
  match texts with
  | [] => ['[', ']']
  | [text] => '[' :: writeString text ++ [']']
  | _ =>
    '[' :: '\n' :: texts.flatMap (fun text =>
      [' ', ' ', ' ', ' '] ++ writeString text ++ [',', '\n']) ++ [']']

def pairLine (key : String) (value : List Char) : List Char :=
  key.toList ++ [' ', '=', ' '] ++ value ++ ['\n']

def headerLine (name : String) : List Char := '[' :: name.toList ++ [']', '\n']

end SourceModels.Toml
