import SourceModels.Toml.Number

/-! Values of TOML documents: arrays and tables in braces hold others, to a limited depth. -/
namespace SourceModels.Toml

abbrev ValueReader := List Char → Option (Item × List Char)

def elements? (value : ValueReader) :
    (fuel : Nat) → (seen : List Item) → List Char → Option (Item × List Char)
  | 0, _, _ => none
  | fuel + 1, seen, text =>
    match skipLines text.length text with
    | ']' :: rest => some (.array seen.reverse, rest)
    | text =>
      match value text with
      | none => none
      | some (item, rest) =>
        match skipLines rest.length rest with
        | ',' :: rest => elements? value fuel (item :: seen) rest
        | ']' :: rest => some (.array (item :: seen).reverse, rest)
        | _ => none

def pairs? (value : ValueReader) :
    (fuel : Nat) → (table : Item) → List Char → Option (Item × List Char)
  | fuel + 1, .table kind entries, text => do
    let (names, rest) ← key? maxDepth text
    let rest ← char? '=' rest
    let (item, rest) ← value (skipBlanks rest)
    let last ← names.getLast?
    let table ← insertAt true names.dropLast last item kind entries
    match skipBlanks rest with
    | ',' :: rest => pairs? value fuel table rest
    | '\x7d' :: rest => some (table, rest)
    | _ => none
  | _, _, _ => none

def braces : TableKind := ⟨true, false, false⟩

def value? : (depth : Nat) → ValueReader
  | depth, text =>
    match text with
    | '"' :: _ => (string? text).map fun (s, rest) => (.string s, rest)
    | '\'' :: _ => (string? text).map fun (s, rest) => (.string s, rest)
    | '[' :: rest =>
      match depth with
      | 0 => none
      | depth + 1 => elements? (value? depth) (rest.length + 1) [] rest
    | '\x7b' :: rest =>
      match depth with
      | 0 => none
      | depth + 1 =>
        match skipBlanks rest with
        | '\x7d' :: rest => some (.table braces [], rest)
        | _ => pairs? (value? depth) (rest.length + 1) (.table braces []) rest
    | 't' :: 'r' :: 'u' :: 'e' :: rest => some (.bool true, rest)
    | 'f' :: 'a' :: 'l' :: 's' :: 'e' :: rest => some (.bool false, rest)
    | _ => number? text

end SourceModels.Toml
