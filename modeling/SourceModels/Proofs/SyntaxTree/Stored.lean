import SourceModels.Model
import SourceModels.Proofs.SyntaxTree.Values
import SourceModels.Proofs.SyntaxTree.Whole

/-! Stored trees: 511 levels are read back, and no more. -/
namespace SourceModels
open MessagePack

namespace SyntaxTree

theorem encodedRead {t : SyntaxTree} (fits : t.Fits) (shallow : t.levels ≤ 511) :
    decode? t.encode = some t := by
  have room : t.toValue.depth ≤ maxOpen := by
    rw [valueDepth, maxOpen]
    omega
  have read := writtenRead (valueFits t fits) room []
  rw [List.append_nil] at read
  rw [decode?, encode, read, valueRead]

theorem encodedRefused {t : SyntaxTree} (fits : t.Fits) (deep : 512 ≤ t.levels) :
    decode? t.encode = none := by
  have more : maxOpen < t.toValue.depth := by
    rw [valueDepth, maxOpen]
    omega
  have part := writtenTorn (valueFits t fits) more []
  rw [List.append_nil] at part
  cases read : decode? t.encode with
  | none => rfl
  | some other =>
    have whole := valueWhole _ read
    rw [encode, part] at whole
    contradiction

def readBack (t : SyntaxTree) : Except ModelFault SyntaxTree :=
  if t.levels ≤ 511 then .ok t else .error (.decodeFailed StoredFault.malformed.message)

theorem decodedBack {t : SyntaxTree} (fits : t.Fits) : decodeTree t.encode = t.readBack := by
  by_cases shallow : t.levels ≤ 511
  · simp [decodeTree, readBack, shallow, encodedRead fits shallow]
  · simp [decodeTree, readBack, shallow, encodedRefused fits (by omega)]

end SyntaxTree

namespace Model

theorem treeOfEntry {model : Model} {index : Nat} {entry : Entry}
    (found : model.entry? index = some entry) : model.tree index = entry.decodeTree := by
  simp only [tree, Model.entry, found]
  rfl

theorem treesReadBack (t : SyntaxTree) (fits : t.Fits) :
    (t.levels ≤ 511 → SourceModels.decodeTree t.encode = .ok t ∧
      ∀ (model : Model) (index : Nat) (entry : Entry), model.entry? index = some entry →
        entry.tree = t.encode → model.tree index = .ok t) ∧
    (512 ≤ t.levels → ∃ message, SourceModels.decodeTree t.encode = .error (.decodeFailed message) ∧
      ∀ (model : Model) (index : Nat) (entry : Entry), model.entry? index = some entry →
        entry.tree = t.encode → model.tree index = .error (.decodeFailed message)) := by
  have back := SyntaxTree.decodedBack fits
  have entries : ∀ (model : Model) (index : Nat) (entry : Entry),
      model.entry? index = some entry → entry.tree = t.encode → model.tree index = t.readBack := by
    intro model index entry found holds
    rw [treeOfEntry found, Entry.decodeTree, holds, back]
  constructor
  · intro shallow
    have whole : t.readBack = .ok t := if_pos shallow
    rw [whole] at back entries
    exact ⟨back, entries⟩
  · intro deep
    have refused : t.readBack = .error (.decodeFailed StoredFault.malformed.message) :=
      if_neg (by omega)
    rw [refused] at back entries
    exact ⟨_, back, entries⟩

end Model

namespace SyntaxTree

def nested : Nat → SyntaxTree
  | 0 => leaf "block"
  | n + 1 => .branch { internalType := "block" } [nested n]

theorem nestedLevels (n : Nat) : (nested n).levels = n + 1 := by
  induction n with
  | zero => rfl
  | succ n ih => simp [nested, levels, maxLevels, ih]

theorem nestedFits (n : Nat) : (nested n).Fits := by
  have own : Node.Fits { internalType := "block" } :=
    ⟨by decide, by decide, ⟨by decide, by simp⟩, ⟨by decide, by simp [Properties.empty]⟩⟩
  induction n with
  | zero => exact ⟨own, by decide, trivial⟩
  | succ n ih => exact ⟨own, by simp [lengthBound], ih, trivial⟩

end SyntaxTree

theorem Model.nestedReadBack :
    SourceModels.decodeTree (SyntaxTree.nested 510).encode = .ok (SyntaxTree.nested 510) ∧
    ∃ message, SourceModels.decodeTree (SyntaxTree.nested 511).encode =
      .error (.decodeFailed message) := by
  have inside := (Model.treesReadBack _ (SyntaxTree.nestedFits 510)).1
    (Nat.le_of_eq (SyntaxTree.nestedLevels 510))
  have outside := (Model.treesReadBack _ (SyntaxTree.nestedFits 511)).2
    (Nat.le_of_eq (SyntaxTree.nestedLevels 511).symm)
  obtain ⟨message, refused, _⟩ := outside
  exact ⟨inside.1, message, refused⟩

end SourceModels
