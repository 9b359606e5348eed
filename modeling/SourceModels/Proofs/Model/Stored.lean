import SourceModels.Proofs.Model.Values
import SourceModels.Proofs.Store.Replacement

/-! Stored models: whatever is saved is read back whole. -/
namespace SourceModels
open MessagePack

theorem Model.encodedRead {model : Model} (fits : model.Fits)
    (valid : model.metadata.createdAt.isValid = true)
    (sources : Column.ofParts model.sources.data model.sources.lengths = .ok model.sources)
    (trees : Column.ofParts model.trees.data model.trees.lengths = .ok model.trees) :
    Model.decode model.encode = .ok model := by
  have room : model.toValue.depth ≤ maxOpen := by
    rw [valueDepth]
    decide
  have read := writtenRead (valueFits fits valid) room []
  rw [List.append_nil] at read
  rw [decode, encode, read, valueRead valid sources trees]

theorem Model.bytesAccepted {model : Model} (accepted : model.validate = .ok ()) {bytes : Bytes}
    (decoded : Model.decode bytes = .ok model) : Model.ofBytes bytes = .ok model := by
  have read : (decode bytes).mapError (fun fault => ModelFault.decodeFailed fault.message) =
      .ok model := mapErrorDone.mpr decoded
  simp only [ofBytes, read, accepted, bind, Except.bind, pure, Except.pure]

theorem Store.readDone {fs : FileSystem} {path : String} {bytes : Bytes} {model : Model}
    (held : fs.readBytes path = .ok bytes) (accepted : Model.ofBytes bytes = .ok model) :
    Store.read fs path = .ok model := by
  simp [Store.read, held, accepted]

theorem Store.replacedRead {made after : FileSystem} {model : Model} {path : String}
    {target : Location} (replaced : ReplacedAt made after path target model.encode)
    (accepted : Model.ofBytes model.encode = .ok model) :
    Store.read after path = .ok model ↔ Independent made path target := by
  constructor
  · intro read
    refine Classical.byContradiction fun through => ?_
    simp [Store.read, replaced.lost through] at read
  · intro alone
    exact readDone (replaced.read alone) accepted

theorem Model.savedReadBack {model : Model} (accepted : model.validate = .ok ())
    (sources : model.sources.Made) (trees : model.trees.Made)
    (valid : model.metadata.createdAt.isValid = true) (fits : model.Fits) :
    Model.decode model.encode = .ok model ∧
    (∀ (fs : FileSystem) (path : String), fs.readBytes path = .ok model.encode →
      Store.read fs path = .ok model) ∧
    ∀ (disk : Disk) (fs after : FileSystem) (path token : String),
      Store.FreshToken fs path token → Store.write disk fs model path token = (after, .ok ()) →
      ∃ made target, FileSystem.DirectoriesAdded fs made path ∧
        Store.ReplacedAt made after path target model.encode ∧
        (Store.read after path = .ok model ↔ Store.Independent made path target) := by
  have decoded := encodedRead fits valid (fits.sources.rebuilt sources) (fits.trees.rebuilt trees)
  have read := bytesAccepted accepted decoded
  refine ⟨decoded, ?_, ?_⟩
  · intro fs path held
    exact Store.readDone held read
  · intro disk fs after path token fresh done
    obtain ⟨_, made, target, added, replaced⟩ := fresh.spare.writeDone done
    exact ⟨made, target, added, replaced, Store.replacedRead replaced read⟩

def Model.oneFile : Model where
  metadata := ⟨sourceKind, ["base"], .ofEpoch 0 1, .zero, currentVersion⟩
  repository := " r\n"
  filenames := ["ä.py"]
  sources := ⟨[0xFF, 0x00], [2], [0, 2]⟩
  trees := ⟨(SyntaxTree.leaf "module").encode, [58], [0, 58]⟩

theorem Model.oneFileReadBack : Model.decode Model.oneFile.encode = .ok Model.oneFile := by
  have sources : oneFile.sources.Made := .ofParts (Column.ofPartsDone.mpr ⟨by decide, rfl⟩)
  have trees : oneFile.trees.Made := .ofParts (Column.ofPartsDone.mpr ⟨by decide +kernel, rfl⟩)
  have accepted : oneFile.validate = .ok () := rfl
  have fits : oneFile.Fits :=
    { metadata := ⟨by decide, by decide, by decide⟩
      repository := by decide
      filenames := ⟨by decide, by decide⟩
      sources := ⟨by decide, by decide⟩
      trees := ⟨by decide +kernel, by decide⟩ }
  exact (savedReadBack accepted sources trees (by decide) fits).1

end SourceModels
