import SourceModels.Bytes

/-! Columns of byte strings: all entries in one buffer, with the length of each and the places where
they begin and end. -/
namespace SourceModels

structure Column where
  data : Bytes
  lengths : List UInt32
  offsets : List Nat
  deriving DecidableEq, Repr

inductive ColumnFault where
  | sumMismatch (total held : Nat)
  | entryTooLong (size : Nat)
  deriving DecidableEq, Repr

def ColumnFault.message : ColumnFault → String
  | .sumMismatch total held =>
    "lengths sum to " ++ toString total ++ " bytes but data holds " ++ toString held
  | .entryTooLong size => "entry of " ++ toString size ++ " bytes does not fit a u32 length"

namespace Column

def empty : Column := ⟨[], [], [0]⟩

instance : Inhabited Column := ⟨empty⟩

/-- The greatest place in a buffer; sums of lengths stop there. -/
def maxPlace : Nat := 2 ^ 64 - 1

def placesFrom : (start : Nat) → List UInt32 → List Nat
  | start, [] => [start]
  | start, n :: rest => start :: placesFrom (min (start + n.toNat) maxPlace) rest

def ofParts (data : Bytes) (lengths : List UInt32) : Except ColumnFault Column :=
  let offsets := placesFrom 0 lengths
  let total := offsets.getLastD 0
  if total = data.length then .ok ⟨data, lengths, offsets⟩
  else .error (.sumMismatch total data.length)

def push (column : Column) (entry : Bytes) : Except ColumnFault Column :=
  if entry.length < 2 ^ 32 then
    let data := column.data ++ entry
    .ok ⟨data, column.lengths ++ [UInt32.ofNat entry.length], column.offsets ++ [data.length]⟩
  else .error (.entryTooLong entry.length)

def append (entry : Bytes) : ExceptT ColumnFault (StateM Column) Unit := do
  if 2 ^ 32 ≤ entry.length then
    throw (.entryTooLong entry.length)
  modify fun column => { column with data := column.data ++ entry }
  modify fun column => { column with lengths := column.lengths ++ [UInt32.ofNat entry.length] }
  modify fun column => { column with offsets := column.offsets ++ [column.data.length] }

theorem appendDone (column : Column) (entry : Bytes) :
    (append entry).run column = match column.push entry with
      | .ok grown => (.ok (), grown)
      | .error fault => (.error fault, column) := by
  unfold append push
  by_cases short : entry.length < 2 ^ 32
  · rw [if_neg (Nat.not_le.mpr short), if_pos short]
    rfl
  · rw [if_pos (Nat.not_lt.mp short), if_neg short]
    rfl

def ofEntries (entries : List Bytes) : Except ColumnFault Column := entries.foldlM push empty

def size (column : Column) : Nat := column.lengths.length

def total (column : Column) : Nat := column.lengths.foldl (fun n length => n + length.toNat) 0

def slice? (column : Column) (start stop : Nat) : Option Bytes :=
  if start ≤ stop ∧ stop ≤ column.data.length then
    some ((column.data.drop start).take (stop - start))
  else none

def get? (column : Column) (index : Nat) : Option Bytes := do
  let start ← column.offsets[index]?
  let stop ← column.offsets[index + 1]?
  column.slice? start stop

def entries (column : Column) : List Bytes :=
  (column.offsets.zip column.offsets.tail).map fun (start, stop) =>
    (column.slice? start stop).getD []

def validate (column : Column) : Except ColumnFault Unit :=
  if column.total ≠ column.data.length ∨ column.offsets.length ≠ column.lengths.length + 1 then
    .error (.sumMismatch column.total column.data.length)
  else .ok ()

def split (column : Column) : Except ColumnFault (List Bytes) := do
  column.validate
  return column.entries

end Column

end SourceModels
