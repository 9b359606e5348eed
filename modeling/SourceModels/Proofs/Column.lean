import SourceModels.Column
import SourceModels.Proofs.Outcome

/-! Columns grow by one entry at a time, keep the entries they hold, and are the same when made anew
from their buffer and lengths. -/
namespace SourceModels

namespace Column

inductive Made : Column → Prop where
  | empty : Made .empty
  | pushed {column grown : Column} {entry : Bytes} (made : Made column)
      (done : column.push entry = .ok grown) : Made grown
  | ofParts {data : Bytes} {lengths : List UInt32} {column : Column}
      (done : ofParts data lengths = .ok column) : Made column

theorem pushDone {column grown : Column} {entry : Bytes} :
    column.push entry = .ok grown ↔ entry.length < 2 ^ 32 ∧
      grown = ⟨column.data ++ entry, column.lengths ++ [UInt32.ofNat entry.length],
        column.offsets ++ [(column.data ++ entry).length]⟩ := by
  unfold push
  split
  · rename_i short
    simp only [short, true_and, Except.ok.injEq]
    exact eq_comm
  · rename_i long
    simp only [long, false_and, reduceCtorEq]

theorem ofPartsDone {data : Bytes} {lengths : List UInt32} {column : Column} :
    ofParts data lengths = .ok column ↔ (placesFrom 0 lengths).getLastD 0 = data.length ∧
      column = ⟨data, lengths, placesFrom 0 lengths⟩ := by
  simp only [ofParts]
  split
  · rename_i covered
    simp only [covered, true_and, Except.ok.injEq]
    exact eq_comm
  · rename_i uncovered
    simp only [uncovered, false_and, reduceCtorEq]

theorem placesLast (start : Nat) (n : UInt32) (rest : List UInt32) :
    (placesFrom start (n :: rest)).getLastD 0 =
      (placesFrom (min (start + n.toNat) maxPlace) rest).getLastD 0 := by
  cases rest <;> simp [placesFrom]

theorem placesAppend (start : Nat) (lengths : List UInt32) (n : UInt32) :
    placesFrom start (lengths ++ [n]) = placesFrom start lengths ++
      [min ((placesFrom start lengths).getLastD 0 + n.toNat) maxPlace] := by
  induction lengths generalizing start with
  | nil => simp [placesFrom]
  | cons m rest ih =>
    rw [placesLast, List.cons_append, placesFrom, ih, placesFrom, List.cons_append]

theorem Made.rebuilt {column : Column} (made : Made column) (room : column.data.length ≤ maxPlace) :
    Column.ofParts column.data column.lengths = .ok column := by
  induction made with
  | empty => rfl
  | @pushed column grown entry made done ih =>
    obtain ⟨short, rfl⟩ := pushDone.mp done
    simp only [List.length_append] at room
    obtain ⟨covered, same⟩ := ofPartsDone.mp (ih (by omega))
    have size : (UInt32.ofNat entry.length).toNat = entry.length := by
      rw [UInt32.toNat_ofNat', Nat.mod_eq_of_lt short]
    have offsets : column.offsets = placesFrom 0 column.lengths := by rw [same]
    have last : min (column.data.length + entry.length) maxPlace =
        column.data.length + entry.length := by omega
    refine ofPartsDone.mpr ⟨?_, ?_⟩
    · rw [placesAppend, covered, size, last]
      simp
    · simp only [placesAppend, covered, size, last, offsets, List.length_append]
  | ofParts done =>
    obtain ⟨covered, rfl⟩ := ofPartsDone.mp done
    exact done

def placesOf : (start : Nat) → List Bytes → List Nat
  | start, [] => [start]
  | start, entry :: rest => start :: placesOf (start + entry.length) rest

structure Holds (column : Column) (entries : List Bytes) : Prop where
  data : column.data = entries.flatten
  lengths : column.lengths = entries.map fun entry => UInt32.ofNat entry.length
  offsets : column.offsets = placesOf 0 entries

theorem emptyHolds : Holds .empty [] := ⟨rfl, rfl, rfl⟩

theorem placesOfAppend (start : Nat) (entries : List Bytes) (entry : Bytes) :
    placesOf start (entries ++ [entry]) =
      placesOf start entries ++ [start + entries.flatten.length + entry.length] := by
  induction entries generalizing start with
  | nil => simp [placesOf]
  | cons first rest ih => simp [placesOf, ih, Nat.add_assoc]

theorem Holds.pushed {column grown : Column} {entries : List Bytes} (holds : column.Holds entries)
    {entry : Bytes} (done : column.push entry = .ok grown) : grown.Holds (entries ++ [entry]) := by
  obtain ⟨_, rfl⟩ := pushDone.mp done
  refine ⟨?_, ?_, ?_⟩
  · simp [holds.data]
  · simp [holds.lengths]
  · simp [holds.offsets, holds.data, placesOfAppend]

theorem placesHold (front : Bytes) (entries : List Bytes) (index : Nat) :
    (do
      let start ← (placesOf front.length entries)[index]?
      let stop ← (placesOf front.length entries)[index + 1]?
      slice? ⟨front ++ entries.flatten, [], []⟩ start stop) = entries[index]? := by
  induction entries generalizing front index with
  | nil => cases index <;> simp [placesOf]
  | cons entry rest ih =>
    cases index with
    | zero =>
      have next : (placesOf (front.length + entry.length) rest)[0]? =
          some (front.length + entry.length) := by
        cases rest <;> rfl
      simp [placesOf, next, slice?]
    | succ index =>
      have later := ih (front ++ entry) index
      simpa [placesOf] using later

theorem Holds.get {column : Column} {entries : List Bytes} (holds : column.Holds entries)
    (index : Nat) : column.get? index = entries[index]? := by
  have held := placesHold [] entries index
  simpa [Column.get?, slice?, holds.offsets, holds.data] using held

theorem placesOfLength (start : Nat) (entries : List Bytes) :
    (placesOf start entries).length = entries.length + 1 := by
  induction entries generalizing start with
  | nil => rfl
  | cons entry rest ih => simp [placesOf, ih]

theorem Holds.entries {column : Column} {entries : List Bytes} (holds : column.Holds entries) :
    column.entries = entries := by
  apply List.ext_getElem?
  intro index
  have got := holds.get index
  unfold Column.get? at got
  have places := placesOfLength 0 entries
  rw [← holds.offsets] at places
  rw [Column.entries, List.getElem?_map, List.zip, List.getElem?_zipWith, List.getElem?_tail]
  by_cases inside : index < entries.length
  · have first : column.offsets[index]? = some column.offsets[index] :=
      List.getElem?_eq_getElem (by omega)
    have next : column.offsets[index + 1]? = some column.offsets[index + 1] :=
      List.getElem?_eq_getElem (by omega)
    rw [first, next] at got ⊢
    simp only [Option.bind_eq_bind, Option.bind_some, List.getElem?_eq_getElem inside] at got
    simp [got, List.getElem?_eq_getElem inside]
  · have last : column.offsets[index + 1]? = none := List.getElem?_eq_none (by omega)
    have absent : entries[index]? = none := List.getElem?_eq_none (by omega)
    rw [last, absent]
    cases column.offsets[index]? <;> rfl

def cut : Bytes → List UInt32 → List Bytes
  | _, [] => []
  | data, n :: rest => data.take n.toNat :: cut (data.drop n.toNat) rest

theorem totalFrom (start : Nat) (lengths : List UInt32) :
    lengths.foldl (fun n length => n + length.toNat) start =
      start + lengths.foldl (fun n length => n + length.toNat) 0 := by
  induction lengths generalizing start with
  | nil => simp
  | cons n rest ih =>
    rw [List.foldl_cons, List.foldl_cons, ih (start + n.toNat), ih (0 + n.toNat)]
    omega

theorem coveredNext {n : UInt32} {rest : List UInt32} {data : Bytes}
    (covered : (n :: rest).foldl (fun n length => n + length.toNat) 0 = data.length) :
    n.toNat ≤ data.length ∧
      rest.foldl (fun n length => n + length.toNat) 0 = (data.drop n.toNat).length := by
  rw [List.foldl_cons, totalFrom] at covered
  rw [List.length_drop]
  constructor <;> omega

theorem cutWhole {lengths : List UInt32} {data : Bytes}
    (covered : lengths.foldl (fun n length => n + length.toNat) 0 = data.length) :
    (cut data lengths).flatten = data ∧
      (cut data lengths).map List.length = lengths.map UInt32.toNat := by
  induction lengths generalizing data with
  | nil =>
    have empty : data = [] := List.eq_nil_of_length_eq_zero covered.symm
    simp [cut, empty]
  | cons n rest ih =>
    obtain ⟨within, left⟩ := coveredNext covered
    have later := ih left
    refine ⟨?_, ?_⟩
    · rw [cut, List.flatten_cons, later.1, List.take_append_drop]
    · rw [cut, List.map_cons, later.2, List.length_take_of_le within, List.map_cons]

theorem cutPlaces {lengths : List UInt32} {data : Bytes} (start : Nat)
    (covered : lengths.foldl (fun n length => n + length.toNat) 0 = data.length)
    (room : start + data.length ≤ maxPlace) :
    placesFrom start lengths = placesOf start (cut data lengths) := by
  induction lengths generalizing data start with
  | nil => rfl
  | cons n rest ih =>
    obtain ⟨within, left⟩ := coveredNext covered
    have place : min (start + n.toNat) maxPlace = start + n.toNat := by omega
    have later := ih (start + n.toNat) left (by rw [List.length_drop]; omega)
    rw [placesFrom, cut, placesOf, List.length_take_of_le within, place, later]

theorem placesBounded {start : Nat} (low : start ≤ maxPlace) (lengths : List UInt32) :
    (placesFrom start lengths).getLastD 0 ≤ maxPlace := by
  induction lengths generalizing start with
  | nil => simpa [placesFrom] using low
  | cons n rest ih =>
    rw [placesLast]
    exact ih (Nat.min_le_right (start + n.toNat) maxPlace)

theorem coveredHolds {column : Column}
    (rebuilt : ofParts column.data column.lengths = .ok column)
    (covered : column.total = column.data.length) :
    column.Holds (cut column.data column.lengths) := by
  obtain ⟨last, same⟩ := ofPartsDone.mp rebuilt
  have offsets : column.offsets = placesFrom 0 column.lengths := by rw [same]
  have room : 0 + column.data.length ≤ maxPlace := by
    have bound := placesBounded (Nat.zero_le maxPlace) column.lengths
    omega
  obtain ⟨whole, sizes⟩ := cutWhole covered
  have lengths := congrArg (List.map UInt32.ofNat) sizes
  simp only [List.map_map, Function.comp_def, UInt32.ofNat_toNat, List.map_id'] at lengths
  exact ⟨whole.symm, lengths.symm, offsets.trans (cutPlaces 0 covered room)⟩

end Column

end SourceModels
