/-! TOML documents: tables of named items. A table remembers how it came about, since that decides
what may still be added to it. -/
namespace SourceModels.Toml

structure TableKind where
  inBraces : Bool := false
  /-- Only named on the way to something below it. -/
  implicit : Bool := false
  dotted : Bool := false
  deriving DecidableEq, Repr

inductive Item where
  | string (text : String)
  | integer (n : Int)
  | float
  | bool (b : Bool)
  | datetime
  | array (items : List Item)
  | table (kind : TableKind) (entries : List (String × Item))
  | tables (all : List Item)
  deriving Repr, Inhabited

abbrev Entries := List (String × Item)

def setEntry (key : String) (item : Item) : Entries → Entries
  | [] => [(key, item)]
  | (k, old) :: rest => if k = key then (k, item) :: rest else (k, old) :: setEntry key item rest

def onTheWay (inBraces dotted : Bool) : TableKind := ⟨inBraces, true, dotted⟩

/-- Changes the table that a path leads to from this table. Missing tables are created; values on
the way are refused, and so are, on the way along a dotted key, tables that have been defined. -/
def alter (inBraces dotted : Bool) (change : TableKind → Entries → Option Item) :
    (path : List String) → TableKind → Entries → Option Item
  | [], kind, entries => change kind entries
  | key :: rest, kind, entries => do
    let item ← match entries.lookup key with
      | none => alter inBraces dotted change rest (onTheWay inBraces dotted) []
      | some (.table k es) =>
        if k.inBraces ≠ inBraces ∨ (dotted ∧ k.implicit = false) then none
        else alter inBraces dotted change rest k es
      | some (.tables all) =>
        match all.getLast? with
        | some (.table k es) => do
          let last ← alter inBraces dotted change rest k es
          some (.tables (all.dropLast ++ [last]))
        | _ => none
      | some _ => none
    some (.table kind (setEntry key item entries))

def define (path : List String) (key : String) (item : Item) (kind : TableKind)
    (entries : Entries) : Option Item :=
  if kind.dotted = path.isEmpty then none
  else match entries.lookup key with
    | some _ => none
    | none => some (.table kind (entries ++ [(key, item)]))

def insertAt (inBraces : Bool) (path : List String) (key : String) (item : Item)
    (kind : TableKind) (entries : Entries) : Option Item :=
  alter inBraces true (define path key item) path kind entries

end SourceModels.Toml
