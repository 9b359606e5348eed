import SourceModels.FileSystem.Change

/-! Changes to a file system as a disk carries them out. It may refuse any of them, for lack of room
or permission, and it may give up halfway through a file, which is then there with what has been
written of it. A sound disk does neither. -/
namespace SourceModels

inductive WriteEnd where
  | whole
  | refused (fault : Fault)
  | torn (written : Nat) (fault : Fault)
  deriving DecidableEq, Repr

structure Disk where
  make : FileSystem → (path : String) → Option Fault
  write : FileSystem → (path : String) → Bytes → WriteEnd
  move : FileSystem → (source target : String) → Option Fault

def Disk.sound : Disk where
  make _ _ := none
  write _ _ _ := .whole
  move _ _ _ := none

namespace FileSystem

def granted (refusal : Option Fault) (changed : Except Fault FileSystem) :
    Except Fault FileSystem :=
  match refusal, changed with
  | some fault, .ok _ => .error fault
  | _, changed => changed

theorem grantedFreely (changed : Except Fault FileSystem) : granted none changed = changed := by
  cases changed <;> rfl

def makeOn (disk : Disk) (fs : FileSystem) (path : String) : Except Fault FileSystem :=
  granted (disk.make fs path) (fs.makeDirectory path)

@[simp] theorem makeSound (fs : FileSystem) (path : String) :
    fs.makeOn .sound path = fs.makeDirectory path :=
  grantedFreely _

def makeAll (disk : Disk) : (fuel : Nat) → FileSystem → String → FileSystem × Except Fault Unit
  | 0, fs, _ => (fs, .ok ())
  | fuel + 1, fs, path =>
    match Path.parent? path with
    | none => (fs, .ok ())
    | some parent =>
      match fs.orPresent path (fs.makeOn disk path) with
      | .ok made => (made, .ok ())
      | .error .notFound =>
        match makeAll disk fuel fs parent with
        | (fs, .ok ()) =>
          match fs.orPresent path (fs.makeOn disk path) with
          | .ok made => (made, .ok ())
          | .error fault => (fs, .error fault)
        | (fs, .error fault) => (fs, .error fault)
      | .error fault => (fs, .error fault)

def makeDirectories (disk : Disk) (fs : FileSystem) (path : String) :
    FileSystem × Except Fault Unit :=
  makeAll disk (path.length + 1) fs path

def writeOn (disk : Disk) (fs : FileSystem) (path : String) (data : Bytes) :
    FileSystem × Except Fault Unit :=
  match disk.write fs path data with
  | .whole =>
    match fs.writeFile path data with
    | .ok after => (after, .ok ())
    | .error fault => (fs, .error fault)
  | .refused fault =>
    match fs.writeFile path data with
    | .ok _ => (fs, .error fault)
    | .error fault => (fs, .error fault)
  | .torn written fault =>
    match fs.writeFile path (data.take written) with
    | .ok after => (after, .error fault)
    | .error fault => (fs, .error fault)

@[simp] theorem writeSound (fs : FileSystem) (path : String) (data : Bytes) :
    fs.writeOn .sound path data = match fs.writeFile path data with
      | .ok after => (after, .ok ())
      | .error fault => (fs, .error fault) := rfl

def renameOn (disk : Disk) (fs : FileSystem) (source target : String) : Except Fault FileSystem :=
  granted (disk.move fs source target) (fs.rename source target)

@[simp] theorem renameSound (fs : FileSystem) (source target : String) :
    fs.renameOn .sound source target = fs.rename source target :=
  grantedFreely _

end FileSystem

end SourceModels
