import SourceModels.Proofs.MessagePack.Records
import SourceModels.Proofs.MessagePack.Sizes
import SourceModels.Proofs.Model.Values

/-! Stored columns: exactly those are read back whose buffer and number of entries can be written in
32 bits. Adding an entry checks the length of that entry alone. -/
namespace SourceModels
open MessagePack

namespace MessagePack.Value

theorem bytesCounted {v : Value} (counted : v.Counted) {raw : Bytes} (read : v.bytes? = some raw) :
    raw.length < lengthBound := by
  cases v with
  | text held => cases read; exact counted
  | binary held => cases read; exact counted
  | array items =>
    have same := congrArg List.length (mapSome.mp read)
    rw [List.length_map, List.length_map] at same
    exact same ▸ counted.1
  | _ => simp [bytes?] at read

theorem wordsCounted {v : Value} (counted : v.Counted) {words : List UInt32}
    (read : v.words? = some words) : words.length < lengthBound := by
  simp only [words?, Option.bind_eq_some_iff] at read
  obtain ⟨items, elements, read⟩ := read
  have same := congrArg List.length (mapSome.mp read)
  rw [List.length_map, List.length_map] at same
  rw [← same]
  cases v with
  | binary held =>
    cases elements
    rw [List.length_map]
    exact counted
  | array items => cases elements; exact counted.1
  | _ => simp [elements?] at elements

end MessagePack.Value

namespace Column

structure Partial.Counted (parts : Partial) : Prop where
  data : ∀ raw, parts.data = some raw → raw.length < lengthBound
  lengths : ∀ words, parts.lengths = some words → words.length < lengthBound

theorem putCounted {parts grown : Partial} (before : parts.Counted) {index : Nat} {v : Value}
    (counted : v.Counted) (done : parts.put index v = some grown) : grown.Counted := by
  unfold Partial.put at done
  split at done
  · split at done
    · contradiction
    · obtain ⟨raw, read, same⟩ := Option.bind_eq_some_iff.mp done
      cases same
      refine ⟨?_, before.lengths⟩
      rintro _ ⟨⟩
      exact Value.bytesCounted counted read
  · split at done
    · contradiction
    · obtain ⟨words, read, same⟩ := Option.bind_eq_some_iff.mp done
      cases same
      refine ⟨before.data, ?_⟩
      rintro _ ⟨⟩
      exact Value.wordsCounted counted read
  · contradiction

theorem flatKeyed {flat : List Value} {parts out : Partial} (read : ofFlat parts flat = some out) :
    Value.Keyed fields (fun parts i v grown => parts.put i v = some grown) parts flat out :=
  Value.keyedRead (fun _ => rfl) (fun _ _ => rfl) (fun _ _ _ _ => rfl) flat read

theorem flatCounted {flat : List Value} {parts out : Partial} (before : parts.Counted)
    (counted : Value.AllCounted flat) (read : ofFlat parts flat = some out) : out.Counted :=
  (flatKeyed read).kept
    (fun inside done held =>
      putCounted held ((Value.allCountedAll flat).mp counted _ inside) done) before

theorem partsCounted {v : Value} (counted : v.Counted) {data : Bytes} {lengths : List UInt32}
    (read : partsOf? v = some (data, lengths)) :
    data.length < lengthBound ∧ lengths.length < lengthBound := by
  unfold partsOf? at read
  split at read
  · rename_i flat
    simp only [Option.bind_eq_bind, Option.bind_eq_some_iff] at read
    obtain ⟨parts, flat, raw, data, words, lengths, same⟩ := read
    cases same
    have small := flatCounted ⟨by simp, by simp⟩ counted flat
    exact ⟨small.data _ data, small.lengths _ lengths⟩
  · simp only [Option.bind_eq_bind, Option.bind_eq_some_iff] at read
    obtain ⟨raw, data, words, lengths, same⟩ := read
    cases same
    exact ⟨Value.bytesCounted counted.2.1 data, Value.wordsCounted counted.2.2.1 lengths⟩
  · contradiction

theorem decodedFits {bytes : Bytes} {column : Column} (decoded : decode bytes = .ok column) :
    column.Fits := by
  have counted := readWithinCounted maxOpen bytes
  simp only [decode, ofValue, bind, Except.bind] at decoded
  split at decoded
  · contradiction
  rename_i parts found
  obtain ⟨data, lengths⟩ := parts
  have read : partsOf? (MessagePack.read bytes) = some (data, lengths) := by
    cases whole : partsOf? (MessagePack.read bytes) with
    | none => simp [whole, orMalformed] at found
    | some parts => simpa [whole, orMalformed] using found
  obtain ⟨short, few⟩ := partsCounted counted read
  obtain ⟨_, rfl⟩ := ofPartsDone.mp (mapErrorDone.mp decoded)
  exact ⟨short, few⟩

theorem encodedRead {column : Column} (made : column.Made) (fits : column.Fits) :
    decode column.encode = .ok column := by
  have room : column.toValue.depth ≤ maxOpen := by
    rw [valueDepth]
    decide
  have read := writtenRead (valueFits fits) room []
  rw [List.append_nil] at read
  rw [decode, encode, read, valueRead (fits.rebuilt made)]

theorem entriesHeld {entries : List Bytes} {column : Column}
    (built : ofEntries entries = .ok column) : column.Made ∧ column.Holds entries := by
  have folded : ∀ (held rest : List Bytes) (start : Column), start.Made → start.Holds held →
      rest.foldlM push start = .ok column → column.Made ∧ column.Holds (held ++ rest) := by
    intro held rest
    induction rest generalizing held with
    | nil =>
      intro start made holds done
      cases done
      exact ⟨made, by simpa using holds⟩
    | cons entry rest ih =>
      intro start made holds done
      cases pushed : start.push entry with
      | error fault => simp [pushed, bind, Except.bind] at done
      | ok grown =>
        have later := ih (held ++ [entry]) grown (.pushed made pushed) (holds.pushed pushed)
          (by simpa [pushed, bind, Except.bind] using done)
        simpa using later
  exact folded [] entries .empty .empty emptyHolds built

theorem builtReadBack {entries : List Bytes} {column : Column}
    (built : ofEntries entries = .ok column) :
    decode column.encode = .ok column ↔
      entries.flatten.length < 2 ^ 32 ∧ entries.length < 2 ^ 32 := by
  obtain ⟨made, holds⟩ := entriesHeld built
  have sizes : column.Fits ↔ entries.flatten.length < 2 ^ 32 ∧ entries.length < 2 ^ 32 := by
    constructor
    · rintro ⟨data, count⟩
      rw [holds.data] at data
      rw [holds.lengths, List.length_map] at count
      exact ⟨data, count⟩
    · rintro ⟨data, count⟩
      exact ⟨holds.data ▸ data, by rw [holds.lengths, List.length_map]; exact count⟩
  rw [← sizes]
  exact ⟨decodedFits, encodedRead made⟩

theorem shortReadBack : ∃ column, ofEntries [[0x61], [], [0x62, 0x63]] = .ok column ∧
    decode column.encode = .ok column := by
  refine ⟨⟨[0x61, 0x62, 0x63], [1, 0, 2], [0, 1, 1, 3]⟩, rfl, ?_⟩
  have built : ofEntries [[0x61], [], [0x62, 0x63]] =
      .ok ⟨[0x61, 0x62, 0x63], [1, 0, 2], [0, 1, 1, 3]⟩ := rfl
  exact (builtReadBack built).mpr (by decide)

theorem wrappedRefused {column : Column} {rest : Bytes} (zeros : column.data = 0 :: 0 :: rest)
    (wraps : column.data.length % lengthBound = 0) : decode column.encode = .error .malformed := by
  -- the buffer is announced as empty, so its first two bytes are taken for the next key and value,
  -- and the number 0 as a key means the buffer once more
  let seen : Value := .map [.ofText "data", .binary [], .unsigned 0, .unsigned 0]
  have header : binaryHeader column.data.length = binaryHeader 0 := by
    unfold binaryHeader
    rw [wraps]
    rfl
  have binary : (Value.binary column.data).write = binaryHeader 0 ++ 0 :: 0 :: rest := by
    rw [Value.write, Value.writeOnto, header, zeros, List.append_nil]
  have starts : ∃ tail, column.encode = seen.write ++ tail := by
    refine ⟨rest ++ (Value.writeAll [.ofText "lengths",
      .array (column.lengths.map Value.ofWord)]), ?_⟩
    have front : seen.write = mapHeader 2 ++ ((Value.ofText "data").write ++
        (binaryHeader 0 ++ [0, 0])) := rfl
    rw [encode, toValue, Value.writeMap, Value.writeAllCons, Value.writeAllCons, binary, front]
    simp
  obtain ⟨tail, starts⟩ := starts
  have fits : seen.Fits :=
    Value.recordFits (by decide) (by decide) ⟨Value.textFits (by decide),
      show 0 < lengthBound by decide, show 0 < 2 ^ 64 by decide, show 0 < 2 ^ 64 by decide, trivial⟩
  have read : MessagePack.read column.encode = seen := by
    rw [starts]
    exact writtenRead fits (by decide) tail
  rw [decode, read]
  rfl

theorem twiceHalfRefused {entry rest : Bytes} (length : entry.length = 2 ^ 31)
    (zeros : entry = 0 :: 0 :: rest) : ∃ column, ofEntries [entry, entry] = .ok column ∧
      decode column.encode = .error .malformed := by
  have short : entry.length < 2 ^ 32 := by
    rw [length]
    decide
  have once : ∀ column : Column, ∃ grown, column.push entry = .ok grown ∧
      grown.data = column.data ++ entry :=
    fun column => ⟨_, pushDone.mpr ⟨short, rfl⟩, rfl⟩
  obtain ⟨one, first, held⟩ := once .empty
  obtain ⟨two, second, whole⟩ := once one
  have data : two.data = entry ++ entry := by rw [whole, held, empty, List.nil_append]
  have full : two.data.length % lengthBound = 0 := by
    rw [data, List.length_append, length]
    decide
  refine ⟨two, ?_, ?_⟩
  · simp only [ofEntries, List.foldlM_cons, List.foldlM_nil, first, second, bind, Except.bind, pure,
      Except.pure]
  · have starts : two.data = 0 :: 0 :: (rest ++ entry) := by
      rw [data]
      conv => lhs; rw [zeros]
      rw [zeros, List.cons_append, List.cons_append]
    exact wrappedRefused starts full

theorem twoHalvesRefused : ∃ column,
    ofEntries [List.replicate (2 ^ 31) 0, List.replicate (2 ^ 31) 0] = .ok column ∧
      decode column.encode = .error .malformed := by
  obtain ⟨n, same⟩ : ∃ n, 2 ^ 31 = n + 2 := ⟨2 ^ 31 - 2, by decide⟩
  rw [same]
  exact twiceHalfRefused (by rw [List.length_replicate, same]) rfl

end Column

end SourceModels
