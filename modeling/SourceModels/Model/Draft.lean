import SourceModels.Model

/-! Models under construction: files are added one at a time with what became of parsing them. -/
namespace SourceModels

inductive ParseOutcome where
  | parsed (tree : SyntaxTree) (source : Bytes)
  | oversize
  | failed (fault : ParseFault)
  deriving DecidableEq, Repr

structure Stamp where
  now : Instant
  uuid : Uuid
  token : String
  deriving DecidableEq, Repr

structure Draft where
  filenames : List String
  sources : Column
  trees : Column
  oversize : Nat
  deriving DecidableEq, Repr

namespace Draft

def empty : Draft := ⟨[], .empty, .empty, 0⟩

def size (draft : Draft) : Nat := draft.filenames.length

def pushed (column : Column) (entry : Bytes) : Except Failure Column :=
  (column.push entry).mapError fun fault => .model (.corruptColumn fault.message)

def add (draft : Draft) (filename : String) : ParseOutcome → Draft × Except Failure Unit
  | .parsed tree source =>
    match pushed draft.sources source with
    | .error failure => (draft, .error failure)
    | .ok sources =>
      match pushed draft.trees tree.encode with
      | .error failure => ({ draft with sources }, .error failure)
      | .ok trees =>
        ({ draft with sources, trees, filenames := draft.filenames ++ [filename] }, .ok ())
  | .oversize => ({ draft with oversize := draft.oversize + 1 }, .ok ())
  | .failed fault => (draft, .error (.parse fault))

def finalize (draft : Draft) (repository : String) (stamp : Stamp) : Except ModelFault Model :=
  if draft.filenames.isEmpty then .error .empty
  else do
    let metadata : Metadata :=
      ⟨Model.sourceKind, [], stamp.now, stamp.uuid, Model.currentVersion⟩
    let model : Model := ⟨metadata, repository, draft.filenames, draft.sources, draft.trees⟩
    model.validate
    return model

end Draft

end SourceModels
