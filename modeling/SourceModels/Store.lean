import SourceModels.FileSystem.Disk
import SourceModels.Model.Stored

/-! Models as files. A model is written to a file beside its target, which is then renamed, so that
no one sees half a model; what has been written is removed again when that fails. -/
namespace SourceModels

/-- First the directories above a model are made, then the model is put in its place. -/
structure ModelWriter where
  prepare : FileSystem → Model → (path : String) → FileSystem × Except ModelFault Unit
  place : FileSystem → Model → (path token : String) → FileSystem × Except ModelFault Unit

def ModelWriter.write (writer : ModelWriter) (fs : FileSystem) (model : Model)
    (path token : String) : FileSystem × Except ModelFault Unit :=
  match writer.prepare fs model path with
  | (made, .error fault) => (made, .error fault)
  | (made, .ok ()) => writer.place made model path token

namespace Store

def stagingName (path token : String) : String :=
  "." ++ (Path.fileName? path).getD "" ++ "." ++ token ++ ".tmp"

def stagingPath (path token : String) : String := Path.withFileName path (stagingName path token)

def clear (fs : FileSystem) (staging : String) : FileSystem :=
  (fs.removeFile staging).toOption.getD fs

def replace (disk : Disk) (fs : FileSystem) (path token : String) (bytes : Bytes) :
    FileSystem × Except Fault Unit :=
  let staging := stagingPath path token
  match fs.writeOn disk staging bytes with
  | (staged, .error fault) => (clear staged staging, .error fault)
  | (staged, .ok ()) =>
    match staged.renameOn disk staging path with
    | .ok moved => (moved, .ok ())
    | .error fault => (clear staged staging, .error fault)

def prepare (disk : Disk) (fs : FileSystem) (path : String) : FileSystem × Except Fault Unit :=
  match Path.parent? path with
  | some parent => fs.makeDirectories disk parent
  | none => (fs, .ok ())

def named (path : String) (done : FileSystem × Except Fault Unit) :
    FileSystem × Except ModelFault Unit :=
  match done with
  | (fs, .ok ()) => (fs, .ok ())
  | (fs, .error fault) => (fs, .error (.writeFailed path fault.message))

def writer (disk : Disk) : ModelWriter where
  prepare fs model path :=
    match model.validate with
    | .error fault => (fs, .error fault)
    | .ok () => named path (prepare disk fs path)
  place fs model path token := named path (replace disk fs path token model.encode)

def write (disk : Disk) (fs : FileSystem) (model : Model) (path token : String) :
    FileSystem × Except ModelFault Unit :=
  (writer disk).write fs model path token

def read (fs : FileSystem) (path : String) : Except ModelFault Model :=
  match fs.readBytes path with
  | .error fault => .error (.readFailed path fault.message)
  | .ok bytes => Model.ofBytes bytes

end Store

end SourceModels
