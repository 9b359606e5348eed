import SourceModels.Config

/-! The arguments of the program. They are taken from left to right; the first wrong one, or the
first that asks for help or for the version, ends reading. -/
namespace SourceModels.CommandLine

structure Options where
  repositories : List String := []
  reposList : Option String := none
  output : Option String := none
  outputFile : Option String := none
  endpoint : Option String := none
  timeout : Option Nat := none
  maxFileSize : Option Nat := none
  depth : Option Nat := none
  overwrite : Bool := false
  workers : Option Nat := none
  config : Option String := none
  verbose : Bool := false
  deriving DecidableEq, Repr

inductive Command where
  | extract (options : Options)
  | show (path : String) (entries : Bool)
  | version
  | help
  deriving DecidableEq, Repr

inductive Stop where
  | wrongUse
  | version
  | help
  deriving DecidableEq, Repr

inductive Setting where
  | reposList
  | output
  | outputFile
  | endpoint
  | timeout
  | maxFileSize
  | depth
  | workers
  | config
  deriving DecidableEq, Repr

inductive Meaning where
  | setting (s : Setting)
  | overwrite
  | verbose
  | entries
  | version
  | help
  deriving DecidableEq, Repr

def longNames : List (String × Meaning) :=
  [("repos-list", .setting .reposList), ("output", .setting .output),
   ("output-file", .setting .outputFile), ("endpoint", .setting .endpoint),
   ("timeout", .setting .timeout), ("max-file-size", .setting .maxFileSize),
   ("depth", .setting .depth), ("workers", .setting .workers), ("config", .setting .config),
   ("overwrite", .overwrite), ("verbose", .verbose), ("version", .version), ("help", .help)]

def shortNames : List (Char × Meaning) :=
  [('o', .setting .output), ('j', .setting .workers), ('v', .verbose), ('V', .version),
   ('h', .help)]

def once {α : Type} (old : Option α) (new : Option α) : Except Stop (Option α) :=
  match old, new with
  | none, some value => .ok (some value)
  | _, _ => .error .wrongUse

def onceFlag (old : Bool) : Except Stop Bool := if old then .error .wrongUse else .ok true

def path? (text : String) : Option String := if text = "" then none else some text

def Options.set (o : Options) (s : Setting) (text : String) : Except Stop Options :=
  match s with
  | .reposList => do return { o with reposList := ← once o.reposList (path? text) }
  | .output => do return { o with output := ← once o.output (path? text) }
  | .outputFile => do return { o with outputFile := ← once o.outputFile (path? text) }
  | .endpoint => do return { o with endpoint := ← once o.endpoint (some text) }
  | .timeout => do return { o with timeout := ← once o.timeout (Decimal.word? text) }
  | .maxFileSize => do return { o with maxFileSize := ← once o.maxFileSize (Decimal.word? text) }
  | .depth => do return { o with depth := ← once o.depth (Decimal.word? text) }
  | .workers => do return { o with workers := ← once o.workers (Decimal.word? text) }
  | .config => do return { o with config := ← once o.config (path? text) }

def Options.setFlag (o : Options) : Meaning → Except Stop Options
  | .overwrite => do return { o with overwrite := ← onceFlag o.overwrite }
  | .verbose => do return { o with verbose := ← onceFlag o.verbose }
  | .version => .error .version
  | .help => .error .help
  | _ => .error .wrongUse

inductive Token where
  | long (name : String) (value : Option String)
  | short (letters : List Char)
  | endOfOptions
  | plain (text : String)
  deriving DecidableEq, Repr

def token (argument : String) : Token :=
  match argument.toList with
  | ['-', '-'] => .endOfOptions
  | '-' :: '-' :: rest =>
    let name := rest.takeWhile (· ≠ '=')
    .long (String.ofList name) (match rest.drop name.length with
      | '=' :: value => some (String.ofList value)
      | _ => none)
  | '-' :: c :: rest => .short (c :: rest)
  | _ => .plain argument

/-- Takes letters after a dash. A letter that takes a value has the rest as its value; when there is
no rest, the value must follow in the next argument. -/
def takeLetters : Options → List Char → Except Stop (Options × Option Setting)
  | o, [] => .ok (o, none)
  | o, c :: rest =>
    match shortNames.lookup c with
    | none => .error .wrongUse
    | some (.setting s) =>
      match rest with
      | [] => .ok (o, some s)
      | '=' :: value => (o.set s (String.ofList value)).map fun o => (o, none)
      | value => (o.set s (String.ofList value)).map fun o => (o, none)
    | some flag =>
      match o.setFlag flag with
      | .ok o => takeLetters o rest
      | .error stop => .error stop

def takeToken (o : Options) : Token → Except Stop (Options × Option Setting)
  | .long name value =>
    match longNames.lookup name, value with
    | some (.setting s), some text => (o.set s text).map fun o => (o, none)
    | some (.setting s), none => .ok (o, some s)
    | some flag, none => (o.setFlag flag).map fun o => (o, none)
    | _, _ => .error .wrongUse
  | .short letters => takeLetters o letters
  | .plain text => .ok ({ o with repositories := o.repositories ++ [text] }, none)
  | .endOfOptions => .ok (o, none)

def takeAll : Options → (waiting : Option Setting) → List String → Except Stop Options
  | o, none, [] => .ok o
  | _, some _, [] => .error .wrongUse
  | o, some s, argument :: rest =>
    match token argument with
    | .plain text =>
      match o.set s text with
      | .ok o => takeAll o none rest
      | .error stop => .error stop
    | _ => .error .wrongUse
  | o, none, argument :: rest =>
    match token argument with
    | .endOfOptions => .ok { o with repositories := o.repositories ++ rest }
    | t =>
      match takeToken o t with
      | .ok (o, waiting) => takeAll o waiting rest
      | .error stop => .error stop

structure ShowOptions where
  path : Option String := none
  entries : Bool := false
  verbose : Bool := false

def ShowOptions.setPath (o : ShowOptions) (text : String) : Except Stop ShowOptions := do
  return { o with path := ← once o.path (path? text) }

def ShowOptions.takeLetters : ShowOptions → List Char → Except Stop ShowOptions
  | o, [] => .ok o
  | o, 'v' :: rest =>
    if o.verbose then .error .wrongUse else takeLetters { o with verbose := true } rest
  | _, 'h' :: _ => .error .help
  | _, _ => .error .wrongUse

def ShowOptions.takeAll : ShowOptions → List String → Except Stop ShowOptions
  | o, [] => .ok o
  | o, argument :: rest =>
    match token argument with
    | .endOfOptions => rest.foldlM setPath o
    | .long name value =>
      if value.isSome then .error .wrongUse
      else if name = "entries" then
        if o.entries then .error .wrongUse else takeAll { o with entries := true } rest
      else if name = "verbose" then
        if o.verbose then .error .wrongUse else takeAll { o with verbose := true } rest
      else if name = "help" then .error .help
      else .error .wrongUse
    | .short letters =>
      match o.takeLetters letters with
      | .ok o => takeAll o rest
      | .error stop => .error stop
    | .plain text =>
      match o.setPath text with
      | .ok o => takeAll o rest
      | .error stop => .error stop

def configVariable : String := "REPO2SOURCE_CONFIG"

def configFrom (env : Environment) : Except Stop (Option String) :=
  match env.lookup configVariable with
  | none => .ok none
  | some [] => .error .wrongUse
  | some bytes => .ok (some (Utf8.decodeLossy bytes))

def Options.conflicts (o : Options) : Bool :=
  o.outputFile.isSome && (o.reposList.isSome || o.depth.isSome || o.output.isSome)

def readExtract (env : Environment) (arguments : List String) : Except Stop Command := do
  let o ← takeAll {} none arguments
  let fromEnvironment ← if o.config.isSome then .ok none else configFrom env
  if o.conflicts then .error .wrongUse
  else return .extract { o with config := o.config <|> fromEnvironment }

def readShow (env : Environment) (arguments : List String) : Except Stop Command := do
  let o ← ShowOptions.takeAll {} arguments
  let _ ← configFrom env
  match o.path with
  | some path => return .show path o.entries
  | none => .error .wrongUse

def readHelp : List String → Except Stop Command
  | [] => .ok .help
  | [topic] => if topic = "show" ∨ topic = "help" then .ok .help else .error .wrongUse
  | _ => .error .wrongUse

def readCommand (env : Environment) (arguments : List String) : Except Stop Command :=
  match arguments with
  | "show" :: rest => readShow env rest
  | "help" :: rest => readHelp rest
  | _ => readExtract env arguments

def read? (env : Environment) (arguments : List String) : Option Command :=
  match readCommand env arguments with
  | .ok command => some command
  | .error .version => some .version
  | .error .help => some .help
  | .error .wrongUse => none

end SourceModels.CommandLine
