import SourceModels.Language
import SourceModels.Resolution
import SourceModels.Walk

/-! Selecting the files of a repository that are worth parsing. A selection yields one file at a
time; its first error is its last item. -/
namespace SourceModels

structure Candidate where
  relativePath : String
  location : String
  size : Nat
  language : String
  deriving DecidableEq, Repr

structure SelectionCounts where
  seen : Nat := 0
  selected : Nat := 0
  oversize : Nat := 0
  unrecognized : Nat := 0
  deriving DecidableEq, Repr

/-- Tells the language of a file from its relative path and its first bytes. The file system may
change while it looks. -/
abbrev Detector := String → Bytes → FileSystem → Option String × FileSystem

def Language.detector (patterns : List String) : Detector :=
  let globs := Language.exclusions patterns
  fun path head fs => (Language.detect globs path head, fs)

structure Selector where
  root : String
  maxFileSize : Nat
  resolver : Resolver
  detector : Detector

structure Selection where
  walk : Walk
  counts : SelectionCounts

namespace Selector

def headLength : Nat := 8192

inductive Verdict where
  | candidate (c : Candidate)
  | passedOver
  | refused (fault : SelectionFault)
  deriving DecidableEq, Repr

def relativePath (entry : WalkEntry) : String :=
  String.ofList (Text.replaceChar '\\' '/' ("/".intercalate entry.names).toList)

def inspect (selector : Selector) (entry : WalkEntry) (counts : SelectionCounts)
    (fs : FileSystem) : Verdict × SelectionCounts × FileSystem :=
  if entry.kind = .directory then (.passedOver, counts, fs)
  else
    let counts := { counts with seen := counts.seen + 1 }
    match selector.resolver fs entry.path with
    | .error fault => (.refused (.resolve fault), counts, fs)
    | .ok location =>
      match fs.status location with
      | .error fault => (.refused (.unreadable entry.path fault.message), counts, fs)
      | .ok content =>
        if content.isFile = false then (.passedOver, counts, fs)
        else if selector.maxFileSize < content.size then
          (.passedOver, { counts with oversize := counts.oversize + 1 }, fs)
        else
          let relative := relativePath entry
          match fs.readHead headLength location with
          | .error fault => (.refused (.unreadable relative fault.message), counts, fs)
          | .ok head =>
            match selector.detector relative head fs with
            | (none, fs) =>
              (.passedOver, { counts with unrecognized := counts.unrecognized + 1 }, fs)
            | (some language, fs) =>
              (.candidate ⟨relative, location, content.size, language⟩,
                { counts with selected := counts.selected + 1 }, fs)

def select (selector : Selector) (fs : FileSystem) : Except SelectionFault Selection :=
  if fs.pathExists selector.root = false then .error (.rootNotFound selector.root)
  else if fs.isDirectory selector.root = false then .error (.rootNotDirectory selector.root)
  else .ok ⟨Walk.start fs selector.root, {}⟩

inductive Item where
  | candidate (c : Candidate)
  | failed (fault : SelectionFault)
  | done
  deriving DecidableEq, Repr

def walkFault (path : String) (fault : Fault) : SelectionFault :=
  .walkFailed ("IO error for operation on " ++ path ++ ": " ++ fault.message)

def nextFrom (selector : Selector) : Walk → SelectionCounts → FileSystem →
    Item × Selection × FileSystem
  | .finished, counts, fs => (.done, ⟨.finished, counts⟩, fs)
  | .failed path fault, counts, fs =>
    (.failed (walkFault path fault), ⟨.finished, counts⟩, fs)
  | .found entry resume, counts, fs =>
    let (verdict, counts, fs) := selector.inspect entry counts fs
    match verdict with
    | .candidate c => (.candidate c, ⟨resume fs, counts⟩, fs)
    | .refused fault => (.failed fault, ⟨.finished, counts⟩, fs)
    | .passedOver => nextFrom selector (resume fs) counts fs

def next (selector : Selector) (selection : Selection) (fs : FileSystem) :
    Item × Selection × FileSystem :=
  selector.nextFrom selection.walk selection.counts fs

end Selector

end SourceModels
