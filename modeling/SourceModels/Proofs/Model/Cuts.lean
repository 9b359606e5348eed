import SourceModels.Proofs.Column.Stored
import SourceModels.Proofs.MessagePack.Consumed
import SourceModels.Proofs.Model.Access
import SourceModels.Proofs.Model.Stored
import SourceModels.Proofs.SyntaxTree.Stored

/-! Stored models and trees that are cut short are refused, wherever the cut is; what follows them is
passed over. -/
namespace SourceModels
open MessagePack

theorem orMalformedDone {α : Type} {found : Option α} {a : α} :
    orMalformed found = .ok a ↔ found = some a := by
  cases found <;> simp [orMalformed]

namespace MessagePack.Value

theorem bytesWhole {v : Value} {raw : Bytes} (read : v.bytes? = some raw) : v.isWhole = true := by
  cases v with
  | array items =>
    refine itemsWhole ?_ read
    intro v b byte
    cases v <;> first | rfl | simp [natural?] at byte
  | _ => first | rfl | simp [bytes?] at read

theorem wordsWhole {v : Value} {words : List UInt32} (read : v.words? = some words) :
    v.isWhole = true := by
  cases v with
  | array items => exact itemsWhole (fun _ _ => wordWhole) read
  | binary raw => rfl
  | _ => simp [words?, elements?] at read

end MessagePack.Value

namespace Column

theorem putWhole {parts grown : Partial} {index : Nat} {v : Value}
    (done : parts.put index v = some grown) : v.isWhole = true := by
  unfold Partial.put at done
  split at done <;> try split at done
  all_goals first
    | cases done
    | obtain ⟨read, value, -⟩ := Option.bind_eq_some_iff.mp done
  · exact Value.bytesWhole value
  · exact Value.wordsWhole value

theorem valueWhole {v : Value} {column : Column} (read : ofValue v = .ok column) :
    v.isWhole = true := by
  obtain ⟨⟨data, lengths⟩, parts, -⟩ := boundDone read
  have parts := orMalformedDone.mp parts
  unfold partsOf? at parts
  split at parts
  · obtain ⟨_, flat, -⟩ := Option.bind_eq_some_iff.mp parts
    exact (flatKeyed flat).allWhole putWhole
  · obtain ⟨_, first, parts⟩ := Option.bind_eq_some_iff.mp parts
    obtain ⟨_, second, -⟩ := Option.bind_eq_some_iff.mp parts
    simp [Value.isWhole, Value.allWhole, Value.bytesWhole first, Value.wordsWhole second]
  · cases parts

end Column

namespace Metadata

theorem putWhole {parts grown : Partial} {index : Nat} {v : Value}
    (done : parts.put index v = some grown) : v.isWhole = true := by
  unfold Partial.put at done
  split at done <;> try split at done
  all_goals first
    | cases done
    | obtain ⟨read, value, -⟩ := Option.bind_eq_some_iff.mp done
  · exact Value.textWhole value
  · exact Value.textsWhole value
  · cases v <;> first | rfl | simp [Instant.ofValue?] at value
  · cases v <;> first | rfl | simp [Uuid.ofValue?] at value
  · unfold Version.ofValue? at value
    split at value
    · obtain ⟨_, major, value⟩ := Option.bind_eq_some_iff.mp value
      obtain ⟨_, minor, value⟩ := Option.bind_eq_some_iff.mp value
      obtain ⟨_, patch, -⟩ := Option.bind_eq_some_iff.mp value
      simp [Value.isWhole, Value.allWhole, Value.wordWhole major, Value.wordWhole minor,
        Value.wordWhole patch]
    · rfl
    · cases value

theorem flatKeyed {flat : List Value} {parts out : Partial} (read : ofFlat parts flat = some out) :
    Value.Keyed fields (fun parts i v grown => parts.put i v = some grown) parts flat out :=
  Value.keyedRead (fun _ => rfl) (fun _ _ => rfl) (fun _ _ _ _ => rfl) flat read

theorem itemsPlaced {items : List Value} {index : Nat} {parts out : Partial}
    (read : ofItems index parts items = some out) :
    Value.Placed (fun parts i v grown => parts.put i v = some grown) index parts items out :=
  Value.placedRead (fun _ _ => rfl) (fun _ _ _ _ => rfl) read

theorem valueWhole {v : Value} {m : Metadata} (read : ofValue? v = some m) : v.isWhole = true := by
  unfold ofValue? at read
  split at read
  · obtain ⟨_, flat, -⟩ := Option.bind_eq_some_iff.mp read
    exact (flatKeyed flat).allWhole putWhole
  · obtain ⟨_, items, -⟩ := Option.bind_eq_some_iff.mp read
    exact (itemsPlaced items).allWhole putWhole
  · cases read

end Metadata

namespace Model

theorem putWhole {parts grown : Partial} {index : Nat} {v : Value}
    (done : parts.put index v = .ok grown) : v.isWhole = true := by
  unfold Partial.put at done
  split at done <;> try split at done
  all_goals first
    | cases done
    | obtain ⟨read, value, -⟩ := boundDone done
  · exact Metadata.valueWhole (orMalformedDone.mp value)
  · exact Value.textWhole (orMalformedDone.mp value)
  · exact Value.textsWhole (orMalformedDone.mp value)
  · exact Column.valueWhole value
  · exact Column.valueWhole value

theorem valueWhole {v : Value} {model : Model} (read : ofValue v = .ok model) :
    v.isWhole = true := by
  unfold ofValue at read
  split at read
  · obtain ⟨_, flat, -⟩ := boundDone read
    exact (flatKeyed flat).allWhole putWhole
  · obtain ⟨_, items, -⟩ := boundDone read
    exact (itemsPlaced items).allWhole putWhole
  · cases read

theorem tornRefused {bytes : Bytes} (torn : (MessagePack.read bytes).isWhole = false) :
    ∃ reason, ofBytes bytes = .error (.decodeFailed reason) := by
  cases decoded : decode bytes with
  | error fault => exact ⟨fault.message, by simp only [ofBytes, decoded]; rfl⟩
  | ok model => simp [valueWhole decoded] at torn

theorem extendedDecoded {bytes : Bytes} {model : Model} (decoded : decode bytes = .ok model)
    (more : Bytes) : decode (bytes ++ more) = .ok model := by
  rw [decode, extendedRead (valueWhole decoded) more]
  exact decoded

end Model

theorem tornTreeRefused {bytes : Bytes} (torn : (MessagePack.read bytes).isWhole = false) :
    ∃ reason, decodeTree bytes = .error (.decodeFailed reason) := by
  cases decoded : SyntaxTree.decode? bytes with
  | none => exact ⟨StoredFault.malformed.message, by simp only [decodeTree, decoded]⟩
  | some t => simp [SyntaxTree.valueWhole _ decoded] at torn

theorem extendedTreeDecoded {bytes : Bytes} {t : SyntaxTree}
    (decoded : SyntaxTree.decode? bytes = some t) (more : Bytes) :
    SyntaxTree.decode? (bytes ++ more) = some t := by
  rw [SyntaxTree.decode?, extendedRead (SyntaxTree.valueWhole _ decoded) more]
  exact decoded

/-- Where the bytes end is told by the bytes: cut short they are refused, and what follows them
changes nothing. -/
structure SelfDelimiting {α : Type} (read : Bytes → Except ModelFault α) (bytes : Bytes) (a : α) :
    Prop where
  cut : ∀ front back, bytes = front ++ back → back ≠ [] →
    ∃ reason, read front = .error (.decodeFailed reason)
  extended : ∀ more, read (bytes ++ more) = .ok a

theorem Model.selfDelimiting {model : Model} (accepted : model.validate = .ok ())
    (sources : model.sources.Made) (trees : model.trees.Made)
    (valid : model.metadata.createdAt.isValid = true) (fits : model.Fits) :
    SelfDelimiting Model.ofBytes model.encode model := by
  have room : model.toValue.depth ≤ maxOpen := by
    rw [valueDepth]
    decide
  have decoded := encodedRead fits valid (fits.sources.rebuilt sources) (fits.trees.rebuilt trees)
  constructor
  · intro front back cut more
    exact tornRefused (cutTorn (valueFits fits valid) room cut more)
  · intro more
    exact bytesAccepted accepted (extendedDecoded decoded more)

theorem SyntaxTree.selfDelimiting {t : SyntaxTree} (fits : t.Fits) (shallow : t.levels ≤ 511) :
    SelfDelimiting decodeTree t.encode t := by
  have room : t.toValue.depth ≤ maxOpen := by
    rw [valueDepth, maxOpen]
    omega
  constructor
  · intro front back cut more
    exact tornTreeRefused (cutTorn (valueFits t fits) room cut more)
  · intro more
    simp only [decodeTree, extendedTreeDecoded (encodedRead fits shallow) more]

theorem cutsRefused :
    (∀ model : Model, model.validate = .ok () → model.sources.Made → model.trees.Made →
      model.metadata.createdAt.isValid = true → model.Fits →
      SelfDelimiting Model.ofBytes model.encode model) ∧
    ∀ t : SyntaxTree, t.Fits → t.levels ≤ 511 → SelfDelimiting decodeTree t.encode t :=
  ⟨fun _ accepted sources trees valid fits =>
    Model.selfDelimiting accepted sources trees valid fits,
    fun _ fits shallow => SyntaxTree.selfDelimiting fits shallow⟩

def Model.bareFile : Model := { Model.oneFile with trees := ⟨[0xC0], [1], [0, 1]⟩ }

theorem bareFileCut :
    (∃ reason, Model.ofBytes Model.bareFile.encode.dropLast = .error (.decodeFailed reason)) ∧
    decodeTree ((SyntaxTree.nested 1).encode ++ [0xC1]) = .ok (SyntaxTree.nested 1) := by
  have sources : Model.bareFile.sources.Made := .ofParts (Column.ofPartsDone.mpr ⟨by decide, rfl⟩)
  have trees : Model.bareFile.trees.Made := .ofParts (Column.ofPartsDone.mpr ⟨by decide, rfl⟩)
  have fits : Model.bareFile.Fits :=
    { metadata := ⟨by decide, by decide, by decide⟩
      repository := by decide
      filenames := ⟨by decide, by decide⟩
      sources := ⟨by decide, by decide⟩
      trees := ⟨by decide, by decide⟩ }
  obtain ⟨models, others⟩ := cutsRefused
  refine ⟨?_, ?_⟩
  · have whole := models Model.bareFile rfl sources trees (by decide) fits
    have written : Model.bareFile.encode ≠ [] := by
      simp [Model.encode, Model.toValue, Value.writeMap, mapHeader, lengthBound]
    have cut := List.dropLast_concat_getLast written
    exact whole.cut _ _ cut.symm (by simp)
  · have whole := others (SyntaxTree.nested 1) (SyntaxTree.nestedFits 1)
      (by rw [SyntaxTree.nestedLevels]; decide)
    exact whole.extended [0xC1]

end SourceModels
