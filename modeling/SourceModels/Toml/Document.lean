import SourceModels.Toml.Value

/-! Whole TOML documents: headers open tables, and the lines below them fill them. -/
namespace SourceModels.Toml

structure Document where
  root : Item := .table {} []
  current : Item := .table {} []
  path : List String := []
  isElement : Bool := false

namespace Document

def place (document : Document) (kind : TableKind) (entries : Entries) : Option Item :=
  match document.path.getLast? with
  | none => some document.current
  | some key =>
    match entries.lookup key, document.isElement with
    | none, true => some (.table kind (entries ++ [(key, .tables [document.current])]))
    | some (.tables all), true =>
      some (.table kind (setEntry key (.tables (all ++ [document.current])) entries))
    | none, false => some (.table kind (entries ++ [(key, document.current)]))
    | _, _ => none

def finish? (document : Document) : Option Item :=
  match document.root with
  | .table kind entries =>
    alter false false document.place document.path.dropLast kind entries
  | _ => none

def opened? (key : String) (entries : Entries) : Option Item :=
  match entries.lookup key with
  | none => some (.table {} [])
  | some (.table kind es) =>
    if kind.implicit ∧ kind.dotted = false ∧ kind.inBraces = false then some (.table {} es)
    else none
  | some _ => none

def takeOut (key : String) (kind : TableKind) (entries : Entries) : Option Item :=
  some (.table kind (entries.filter (·.1 ≠ key)))

def entriesAt : (path : List String) → Entries → Option Entries
  | [], entries => some entries
  | key :: rest, entries =>
    match entries.lookup key with
    | none => entriesAt rest []
    | some (.table kind es) => if kind.inBraces then none else entriesAt rest es
    | some (.tables all) =>
      match all.getLast? with
      | some (.table _ es) => entriesAt rest es
      | _ => none
    | some _ => none

def openTable? (document : Document) (path : List String) : Option Document := do
  match ← document.finish? with
  | .table kind entries => do
    let key ← path.getLast?
    let around ← entriesAt path.dropLast entries
    let current ← opened? key around
    let root ← alter false false (takeOut key) path.dropLast kind entries
    some ⟨root, current, path, false⟩
  | _ => none

def openElement? (document : Document) (path : List String) : Option Document := do
  match ← document.finish? with
  | .table kind entries => do
    let key ← path.getLast?
    let around ← entriesAt path.dropLast entries
    match around.lookup key with
    | none => some ⟨.table kind entries, .table {} [], path, true⟩
    | some (.tables _) => some ⟨.table kind entries, .table {} [], path, true⟩
    | some _ => none
  | _ => none

def add? (document : Document) (names : List String) (item : Item) : Option Document :=
  match document.current, names.getLast? with
  | .table kind entries, some key => do
    let current ← insertAt false names.dropLast key item kind entries
    some { document with current }
  | _, _ => none

end Document

def header? (document : Document) (text : List Char) : Option (Document × List Char) :=
  match text with
  | '[' :: rest => do
    let (path, rest) ← key? maxDepth rest
    let rest ← char? ']' (← char? ']' rest)
    some (← document.openElement? path, ← lineEnd? rest)
  | _ => do
    let (path, rest) ← key? maxDepth text
    let rest ← char? ']' rest
    some (← document.openTable? path, ← lineEnd? rest)

def pairLine? (document : Document) (text : List Char) : Option (Document × List Char) := do
  let (names, rest) ← key? maxDepth text
  let (item, rest) ← value? maxDepth (skipBlanks (← char? '=' rest))
  some (← document.add? names item, ← lineEnd? rest)

def lines? : (fuel : Nat) → Document → List Char → Option Document
  | 0, _, _ => none
  | fuel + 1, document, text =>
    match skipBlanks text with
    | [] => some document
    | '[' :: rest =>
      match header? document rest with
      | some (document, rest) => lines? fuel document rest
      | none => none
    | text =>
      match lineEnd? text with
      | some rest => lines? fuel document rest
      | none =>
        match pairLine? document text with
        | some (document, rest) => lines? fuel document rest
        | none => none

def read? (text : String) : Option Entries := do
  let chars := match text.toList with
    | '\uFEFF' :: rest => rest
    | chars => chars
  match ← (← lines? (chars.length + 1) {} chars).finish? with
  | .table _ entries => some entries
  | _ => none

end SourceModels.Toml
