import Mathlib.Algebra.GroupWithZero.Nat
import SourceModels.Proofs.Column.Stored
import SourceModels.Proofs.Model.Access

/-! Columns that are kept and changed. However a column has come about, its places are the sums of its
lengths and all ways of reading it give the same entries. -/
namespace SourceModels.Column

structure Sound (column : Column) : Prop where
  count : column.offsets.length = column.size + 1
  places : ∀ index ≤ column.size,
    column.offsets[index]? = some ((column.lengths.take index).map UInt32.toNat).sum
  last : column.offsets.getLast? = some column.data.length
  valid : column.validate = .ok ()
  inside : ∀ index, (column.get? index).isSome ↔ index < column.size
  each : ∀ index, column.get? index = column.entries[index]?
  parts : column.split = .ok column.entries
  whole : column.entries.flatten = column.data
  sizes : column.entries.map List.length = column.lengths.map UInt32.toNat

theorem foldedSum (lengths : List UInt32) :
    lengths.foldl (fun n length => n + length.toNat) 0 = (lengths.map UInt32.toNat).sum := by
  induction lengths with
  | nil => rfl
  | cons n rest ih =>
    rw [List.foldl_cons, totalFrom, ih, List.map_cons, List.sum_cons, Nat.zero_add]

theorem lastPlace {start : Nat} (low : start ≤ maxPlace) (lengths : List UInt32) :
    (placesFrom start lengths).getLastD 0 =
      min (start + (lengths.map UInt32.toNat).sum) maxPlace := by
  induction lengths generalizing start with
  | nil => simp [placesFrom, Nat.min_eq_left low]
  | cons n rest ih =>
    rw [placesLast, ih (Nat.min_le_right ..), List.map_cons, List.sum_cons]
    omega

theorem placeOf (start : Nat) {entries : List Bytes} {index : Nat} (inside : index ≤ entries.length) :
    (placesOf start entries)[index]? =
      some (start + ((entries.take index).map List.length).sum) := by
  induction entries generalizing start index with
  | nil =>
    obtain rfl : index = 0 := Nat.le_zero.mp inside
    rfl
  | cons entry rest ih =>
    cases index with
    | zero => rfl
    | succ index =>
      have later := ih (start + entry.length) (Nat.le_of_succ_le_succ inside)
      simp only [placesOf, List.getElem?_cons_succ, later, List.take_succ_cons, List.map_cons,
        List.sum_cons, Nat.add_assoc]

theorem Holds.count {column : Column} {entries : List Bytes} (holds : column.Holds entries) :
    column.size = entries.length := by
  rw [size, holds.lengths, List.length_map]

structure Packs (column : Column) (entries : List Bytes) : Prop extends Holds column entries where
  short : ∀ entry ∈ entries, entry.length < 2 ^ 32

theorem emptyPacks : Packs .empty [] := ⟨emptyHolds, by simp⟩

namespace Packs

variable {column : Column} {entries : List Bytes} (packs : column.Packs entries)

include packs

theorem pushed {grown : Column} {entry : Bytes} (done : column.push entry = .ok grown) :
    grown.Packs (entries ++ [entry]) := by
  refine ⟨packs.toHolds.pushed done, fun other inside => ?_⟩
  rcases List.mem_append.mp inside with held | last
  · exact packs.short other held
  · rw [List.mem_singleton.mp last]
    exact (pushDone.mp done).1

theorem sizes : column.lengths.map UInt32.toNat = entries.map List.length := by
  rw [packs.lengths, List.map_map]
  refine List.map_congr_left fun entry inside => ?_
  rw [Function.comp_apply, UInt32.toNat_ofNat', Nat.mod_eq_of_lt (packs.short entry inside)]

theorem valid : column.validate = .ok () := by
  have covered : column.total = column.data.length := by
    rw [total, foldedSum, packs.sizes, packs.data, List.length_flatten]
  have places : column.offsets.length = column.lengths.length + 1 := by
    rw [packs.offsets, placesOfLength, packs.lengths, List.length_map]
  simp [validate, covered, places]

theorem split : column.split = .ok entries := by
  simp only [Column.split, packs.valid, packs.toHolds.entries, bind, Except.bind, pure, Except.pure]

theorem sound : column.Sound := by
  have count := packs.toHolds.count
  have held := packs.toHolds.entries
  exact {
    count := by rw [packs.offsets, placesOfLength, count]
    places := by
      intro index inside
      rw [packs.offsets, placeOf 0 (count ▸ inside), Nat.zero_add, List.map_take, List.map_take,
        packs.sizes]
    last := by
      have ends := placeOf 0 (Nat.le_refl entries.length)
      rw [List.take_length, Nat.zero_add, ← List.length_flatten, ← packs.data] at ends
      rw [List.getLast?_eq_getElem?, packs.offsets, placesOfLength, Nat.add_sub_cancel, ends]
    valid := packs.valid
    inside := by simp [packs.toHolds.get, count]
    each := by
      intro index
      rw [packs.toHolds.get, held]
    parts := by rw [packs.split, held]
    whole := by rw [held, packs.data]
    sizes := by rw [held, packs.sizes] }

end Packs

theorem Holds.unique {column other : Column} {entries : List Bytes} (holds : column.Holds entries)
    (alike : other.Holds entries) : column = other := by
  obtain ⟨data, lengths, offsets⟩ := column
  obtain ⟨data', lengths', offsets'⟩ := other
  simp only [mk.injEq]
  exact ⟨holds.data.trans alike.data.symm, holds.lengths.trans alike.lengths.symm,
    holds.offsets.trans alike.offsets.symm⟩

theorem cutShort {data : Bytes} {lengths : List UInt32}
    (covered : (lengths.map UInt32.toNat).sum = data.length) :
    ∀ entry ∈ cut data lengths, entry.length < 2 ^ 32 := by
  intro entry inside
  have sizes := (cutWhole ((foldedSum lengths).trans covered)).2
  have listed : entry.length ∈ lengths.map UInt32.toNat := by
    rw [← sizes]
    exact List.mem_map.mpr ⟨entry, inside, rfl⟩
  obtain ⟨n, -, same⟩ := List.mem_map.mp listed
  rw [← same]
  exact n.toNat_lt

theorem ofPartsOutcome (data : Bytes) (lengths : List UInt32) (room : data.length < maxPlace) :
    ofParts data lengths =
      if (lengths.map UInt32.toNat).sum = data.length then
        .ok ⟨data, lengths, placesFrom 0 lengths⟩
      else .error (.sumMismatch (min (lengths.map UInt32.toNat).sum maxPlace) data.length) := by
  have last := lastPlace (Nat.zero_le maxPlace) lengths
  rw [Nat.zero_add] at last
  have covers : min (lengths.map UInt32.toNat).sum maxPlace = data.length ↔
      (lengths.map UInt32.toNat).sum = data.length := by omega
  simp only [ofParts, last, covers]

theorem ofPartsPacks {data : Bytes} {lengths : List UInt32} {column : Column}
    (room : data.length < maxPlace) (done : ofParts data lengths = .ok column) :
    column.Packs (cut data lengths) := by
  have outcome := ofPartsOutcome data lengths room
  rw [done] at outcome
  split at outcome
  · rename_i covered
    cases outcome
    refine ⟨coveredHolds done ?_, cutShort covered⟩
    rw [total, foldedSum, covered]
  · cases outcome

theorem Made.packs {column : Column} (made : column.Made) (room : column.data.length < maxPlace) :
    ∃ entries, column.Packs entries :=
  ⟨_, ofPartsPacks room (made.rebuilt (Nat.le_of_lt room))⟩

theorem pushShort (column : Column) {entry : Bytes} (short : entry.length < 2 ^ 32) :
    ∃ grown, column.push entry = .ok grown :=
  ⟨_, pushDone.mpr ⟨short, rfl⟩⟩

theorem pushLong {column : Column} {entry : Bytes} {fault : ColumnFault}
    (refused : column.push entry = .error fault) : 2 ^ 32 ≤ entry.length := by
  refine Nat.not_lt.mp fun short => ?_
  obtain ⟨grown, done⟩ := column.pushShort short
  rw [done] at refused
  cases refused

theorem entriesMerged {entries : List Bytes} (short : ∀ entry ∈ entries, entry.length < 2 ^ 32) :
    ∃ column, ofEntries entries = .ok column := by
  have folded : ∀ start : Column, ∃ column, entries.foldlM push start = .ok column := by
    induction entries with
    | nil => exact fun start => ⟨start, rfl⟩
    | cons entry rest ih =>
      intro start
      obtain ⟨grown, first⟩ := start.pushShort (short entry List.mem_cons_self)
      obtain ⟨column, later⟩ :=
        ih (fun other inside => short other (List.mem_cons_of_mem _ inside)) grown
      exact ⟨column, by rw [List.foldlM_cons, first]; exact later⟩
  exact folded .empty

theorem exchangedMade {column other : Column} {result : Except StoredFault Column}
    (made : column.Made) (others : ∀ found, result = .ok found → found.Made)
    (same : (column.exchanged result).2 = other) : other.Made := by
  subst same
  cases result with
  | ok found => exact others found rfl
  | error fault => exact made

theorem Change.keepsMade (change : Change) {column : Column} (made : column.Made) :
    (change.run column).2.Made := by
  cases change with
  | renew => exact .empty
  | merge entries =>
    refine exchangedMade made (fun found done => ?_) rfl
    exact (entriesHeld (mapErrorDone.mp done)).1
  | ofParts data lengths =>
    refine exchangedMade made (fun found done => ?_) rfl
    exact .ofParts (mapErrorDone.mp done)
  | decode bytes =>
    refine exchangedMade made (fun found done => ?_) rfl
    exact .ofParts (valueRebuilt done)
  | append entry =>
    simp only [run, appendDone]
    cases pushed : column.push entry with
    | ok grown => exact .pushed made pushed
    | error fault => exact made

theorem changedMade (changes : List Change) : (changed changes).Made := by
  have folded : ∀ start : Column, start.Made →
      (changes.foldl (fun column change => (change.run column).2) start).Made := by
    induction changes with
    | nil => exact fun start made => made
    | cons change rest ih => exact fun start made => ih _ (change.keepsMade made)
  exact folded .empty .empty

theorem appendTaken {column : Column} {entries : List Bytes} (holds : column.Holds entries)
    {entry : Bytes} (short : entry.length < 2 ^ 32) :
    ∃ grown, (append entry).run column = (.ok (), grown) ∧ grown.Holds (entries ++ [entry]) := by
  obtain ⟨grown, done⟩ := column.pushShort short
  refine ⟨grown, ?_, holds.pushed done⟩
  rw [appendDone, done]

theorem appendRefused (column : Column) {entry : Bytes} (long : 2 ^ 32 ≤ entry.length) :
    (append entry).run column = (.error (.entryTooLong entry.length), column) := by
  rw [appendDone, push, if_neg (Nat.not_lt.mpr long)]

theorem changesSound :
    (∀ changes : List Change, (changed changes).data.length < 2 ^ 63 →
      (changed changes).Sound ∧
      (∀ entry : Bytes, entry.length < 2 ^ 32 →
        ∃ grown, (append entry).run (changed changes) = (.ok (), grown) ∧
          grown.entries = (changed changes).entries ++ [entry]) ∧
      (∀ entry : Bytes, 2 ^ 32 ≤ entry.length →
        (append entry).run (changed changes) =
          (.error (.entryTooLong entry.length), changed changes)) ∧
      ∀ others : List Change, (changed others).data = (changed changes).data →
        (changed others).lengths = (changed changes).lengths →
        changed others = changed changes) ∧
    (∀ entries : List Bytes, (∀ entry ∈ entries, entry.length < 2 ^ 32) →
      ∃ column, ofEntries entries = .ok column ∧ column.split = .ok entries) ∧
    ∀ (data : Bytes) (lengths : List UInt32), data.length < 2 ^ 63 →
      ((lengths.map UInt32.toNat).sum = data.length →
        ∃ column entries, Column.ofParts data lengths = .ok column ∧
          column.split = .ok entries ∧ ofEntries entries = .ok column) ∧
      ((lengths.map UInt32.toNat).sum ≠ data.length →
        Column.ofParts data lengths =
          .error (.sumMismatch (min (lengths.map UInt32.toNat).sum maxPlace) data.length)) := by
  have below : ∀ {size : Nat}, size < 2 ^ 63 → size < maxPlace := by
    intro size small
    rw [maxPlace]
    omega
  refine ⟨?_, fun entries short => ?_, fun data lengths small => ?_⟩
  · intro changes small
    have made := changedMade changes
    obtain ⟨entries, packs⟩ := made.packs (below small)
    refine ⟨packs.sound, fun entry taken => ?_, fun entry => appendRefused _,
      fun others data lengths => ?_⟩
    · obtain ⟨grown, added, held⟩ := appendTaken packs.toHolds taken
      exact ⟨grown, added, by rw [held.entries, packs.toHolds.entries]⟩
    · have room := Nat.le_of_lt (below small)
      have again := (changedMade others).rebuilt (data ▸ room)
      rw [data, lengths, made.rebuilt room] at again
      exact (Except.ok.inj again).symm
  · obtain ⟨column, merged⟩ := entriesMerged short
    exact ⟨column, merged, Packs.split ⟨(entriesHeld merged).2, short⟩⟩
  · have outcome := ofPartsOutcome data lengths (below small)
    refine ⟨fun covered => ?_, fun uncovered => ?_⟩
    · rw [if_pos covered] at outcome
      have packs := ofPartsPacks (below small) outcome
      obtain ⟨column, merged⟩ := entriesMerged packs.short
      have same := packs.toHolds.unique (entriesHeld merged).2
      exact ⟨_, _, outcome, packs.split, same ▸ merged⟩
    · rw [outcome, if_neg uncovered]

def fourEntries : List Change :=
  [.merge [[0x61], [], [0x62, 0x63]], .ofParts [0x01] [2], .append [0x64]]

theorem fourEntriesSound :
    (changed fourEntries).Sound ∧
    (∃ grown, (append [0x65]).run (changed fourEntries) = (.ok (), grown) ∧
      grown.entries = [[0x61], [], [0x62, 0x63], [0x64], [0x65]]) ∧
    (∃ column, ofEntries [[0x61], []] = .ok column ∧ column.split = .ok [[0x61], []]) ∧
    (∃ column entries, Column.ofParts [0x61, 0x62] [1, 0, 1] = .ok column ∧
      column.split = .ok entries ∧ ofEntries entries = .ok column) ∧
    Column.ofParts [0x61] [2, 1] = .error (.sumMismatch 3 1) := by
  obtain ⟨kept, merged, parts⟩ := changesSound
  obtain ⟨sound, added, -⟩ := kept fourEntries (by decide)
  exact ⟨sound, added [0x65] (by decide), merged [[0x61], []] (by decide),
    (parts [0x61, 0x62] [1, 0, 1] (by decide)).1 (by decide),
    (parts [0x61] [2, 1] (by decide)).2 (by decide)⟩

end SourceModels.Column
