import SourceModels.Fault
import SourceModels.Duration

/-! Why a repository is not turned into a model: the failures of each part, their wording and their
classes. -/
namespace SourceModels

inductive ResolveFault where
  | dangling (path : String)
  | failed (path : String) (fault : Fault)
  deriving DecidableEq, Repr

inductive SelectionFault where
  | rootNotFound (path : String)
  | rootNotDirectory (path : String)
  | walkFailed (reason : String)
  | unreadable (file reason : String)
  | resolve (fault : ResolveFault)
  deriving DecidableEq, Repr

inductive ParseFault where
  | noTree (file reason : String)
  | undecodable (file reason : String)
  | transport (file reason : String)
  | timeout (file : String) (limit : Duration)
  deriving DecidableEq, Repr

inductive ModelFault where
  | misaligned (filenames sources trees : Nat)
  | empty
  | corruptColumn (reason : String)
  | outOfRange (index count : Nat)
  | wrongKind (expected actual : String)
  | encodeFailed (reason : String)
  | decodeFailed (reason : String)
  | writeFailed (path reason : String)
  | readFailed (path reason : String)
  deriving DecidableEq, Repr

inductive ConfigFault where
  | loadFailed (reason : String)
  | parseFailed (reason : String)
  | invalidValue (key reason : String)
  | saveFailed (reason : String)
  | fileNotFound (path : String)
  deriving DecidableEq, Repr

inductive Failure where
  | resolve (fault : ResolveFault)
  | selection (fault : SelectionFault)
  | parse (fault : ParseFault)
  | model (fault : ModelFault)
  | config (fault : ConfigFault)
  | io (fault : Fault)
  | other (reason : String)
  deriving DecidableEq, Repr

def ResolveFault.message : ResolveFault → String
  | .dangling path => "Dangling symlink: " ++ path
  | .failed path fault => "Failed to resolve '" ++ path ++ "': " ++ fault.message

def SelectionFault.message : SelectionFault → String
  | .rootNotFound path => "Repository root not found: " ++ path
  | .rootNotDirectory path => "Repository root is not a directory: " ++ path
  | .walkFailed reason => "Failed to walk directory: " ++ reason
  | .unreadable file reason => "Failed to read file '" ++ file ++ "': " ++ reason
  | .resolve fault => fault.message

def ParseFault.message : ParseFault → String
  | .noTree file reason => "Parser returned no UAST for '" ++ file ++ "': " ++ reason
  | .undecodable file reason =>
    "Failed to decode parser response for '" ++ file ++ "': " ++ reason
  | .transport file reason => "Parser transport failure for '" ++ file ++ "': " ++ reason
  | .timeout file limit => "Parsing '" ++ file ++ "' timed out after " ++ limit.render

def ModelFault.message : ModelFault → String
  | .misaligned filenames sources trees =>
    "Model columns are misaligned: " ++ toString filenames ++ " filenames, " ++ toString sources ++
      " sources, " ++ toString trees ++ " uasts"
  | .empty => "Model has no entries"
  | .corruptColumn reason => "Packed array is corrupted: " ++ reason
  | .outOfRange index count =>
    "Entry " ++ toString index ++ " is out of range for a model with " ++ toString count ++
      " entries"
  | .wrongKind expected actual => "Expected a '" ++ expected ++ "' model, found '" ++ actual ++ "'"
  | .encodeFailed reason => "Failed to encode model: " ++ reason
  | .decodeFailed reason => "Failed to decode model: " ++ reason
  | .writeFailed path reason => "Failed to write model to '" ++ path ++ "': " ++ reason
  | .readFailed path reason => "Failed to read model from '" ++ path ++ "': " ++ reason

def ConfigFault.message : ConfigFault → String
  | .loadFailed reason => "Failed to load configuration file: " ++ reason
  | .parseFailed reason => "Failed to parse configuration: " ++ reason
  | .invalidValue key reason => "Invalid configuration value for '" ++ key ++ "': " ++ reason
  | .saveFailed reason => "Failed to save configuration: " ++ reason
  | .fileNotFound path => "Configuration file not found: " ++ path

def ResolveFault.chain (fault : ResolveFault) : List String :=
  match fault with
  | .dangling _ => [fault.message]
  | .failed _ cause => [fault.message, cause.message]

def SelectionFault.chain (fault : SelectionFault) : List String :=
  match fault with
  | .resolve inner => inner.chain
  | _ => [fault.message]

namespace Failure

def message : Failure → String
  | .resolve fault => "Symlink resolution error: " ++ fault.message
  | .selection fault => "File selection error: " ++ fault.message
  | .parse fault => "Parse error: " ++ fault.message
  | .model fault => "Model error: " ++ fault.message
  | .config fault => "Configuration error: " ++ fault.message
  | .io fault => "IO error: " ++ fault.message
  | .other reason => reason

def chain (failure : Failure) : List String :=
  failure.message :: match failure with
    | .resolve fault => fault.chain
    | .selection fault => fault.chain
    | .parse fault => [fault.message]
    | .model fault => [fault.message]
    | .config fault => [fault.message]
    | .io fault => [fault.message]
    | .other _ => []

def ofMessages (messages : List String) : Failure := .other (": ".intercalate messages)

def isDangling : Failure → Bool
  | .resolve (.dangling _) => true
  | .selection (.resolve (.dangling _)) => true
  | _ => false

def isUserError : Failure → Bool
  | .config _ => true
  | .selection (.rootNotFound _) => true
  | .selection (.rootNotDirectory _) => true
  | _ => false

def isRetryable : Failure → Bool
  | .parse (.transport _ _) => true
  | .parse (.timeout _ _) => true
  | .io _ => true
  | _ => false

end Failure

end SourceModels
