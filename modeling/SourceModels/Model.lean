import SourceModels.Column.Stored
import SourceModels.Failure
import SourceModels.Instant
import SourceModels.SyntaxTree.Stored
import SourceModels.Uuid

/-! Models of repositories: what files there are, their contents and their stored trees, kept in
three columns of which entry `i` belongs to file `i`. -/
namespace SourceModels

structure Version where
  major : UInt32
  minor : UInt32
  patch : UInt32
  deriving DecidableEq, Repr

structure Metadata where
  kind : String
  dependencies : List String
  createdAt : Instant
  uuid : Uuid
  version : Version
  deriving DecidableEq, Repr

structure Model where
  metadata : Metadata
  repository : String
  filenames : List String
  sources : Column
  trees : Column
  deriving DecidableEq, Repr

structure Entry where
  filename : String
  source : Bytes
  tree : Bytes
  deriving DecidableEq, Repr

def decodeTree (bytes : Bytes) : Except ModelFault SyntaxTree :=
  match SyntaxTree.decode? bytes with
  | some t => .ok t
  | none => .error (.decodeFailed StoredFault.malformed.message)

def Entry.decodeTree (entry : Entry) : Except ModelFault SyntaxTree :=
  SourceModels.decodeTree entry.tree

namespace Model

def sourceKind : String := "source"

def currentVersion : Version := ⟨1, 0, 0⟩

def size (model : Model) : Nat := model.filenames.length

def sourceBytes (model : Model) : Nat := model.sources.data.length

def checkColumn (column : Column) : Except ModelFault Unit :=
  column.validate.mapError fun fault => .corruptColumn fault.message

def validate (model : Model) : Except ModelFault Unit := do
  if model.metadata.kind ≠ sourceKind then
    .error (.wrongKind sourceKind model.metadata.kind)
  else if model.filenames.length ≠ model.sources.size ∨
      model.filenames.length ≠ model.trees.size then
    .error (.misaligned model.filenames.length model.sources.size model.trees.size)
  else
    checkColumn model.sources
    checkColumn model.trees

def entry? (model : Model) (index : Nat) : Option Entry := do
  let filename ← model.filenames[index]?
  let source ← model.sources.get? index
  let tree ← model.trees.get? index
  some ⟨filename, source, tree⟩

def entry (model : Model) (index : Nat) : Except ModelFault Entry :=
  match model.entry? index with
  | some entry => .ok entry
  | none => .error (.outOfRange index model.size)

def tree (model : Model) (index : Nat) : Except ModelFault SyntaxTree := do
  (← model.entry index).decodeTree

def entries (model : Model) : List Entry :=
  (model.filenames.zip (model.sources.entries.zip model.trees.entries)).map
    fun (filename, source, tree) => ⟨filename, source, tree⟩

def summary (model : Model) : String :=
  let v := model.metadata.version
  "model:        " ++ model.metadata.kind ++ "\n" ++
  "version:      " ++ ".".intercalate [toString v.major, toString v.minor, toString v.patch] ++
    "\n" ++
  "uuid:         " ++ model.metadata.uuid.render ++ "\n" ++
  "created_at:   " ++ model.metadata.createdAt.display ++ "\n" ++
  "repository:   " ++ Text.trimEnd model.repository ++ "\n" ++
  "files:        " ++ toString model.size ++ "\n" ++
  "source bytes: " ++ toString model.sourceBytes

end Model

end SourceModels
