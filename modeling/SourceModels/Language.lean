import SourceModels.Bytes
import SourceModels.Text.Blank
import SourceModels.Glob.Reader

/-! Which files are source code, and in what language: by extension, unless the path is excluded
or the file does not look like text. -/
namespace SourceModels.Language

def table : List (String × List String) :=
  [("python", ["py"]), ("java", ["java"]), ("javascript", ["js", "mjs", "cjs", "jsx"]),
   ("typescript", ["ts", "tsx"]), ("go", ["go"]), ("ruby", ["rb"]), ("php", ["php"]),
   ("c", ["c", "h"]), ("cpp", ["cpp", "cc", "cxx", "hpp", "hh"]), ("csharp", ["cs"]),
   ("rust", ["rs"]), ("bash", ["sh", "bash"]), ("kotlin", ["kt", "kts"]), ("scala", ["scala"]),
   ("swift", ["swift"])]

def lower (text : String) : String := String.ofList (text.toList.map Text.lowerChar)

def ofExtension? (extension : String) : Option String :=
  (table.find? fun row => row.2.contains (lower extension)).map Prod.fst

def defaultExclusions : List String :=
  ["**/vendor/**", "**/node_modules/**", "**/third_party/**", "**/bower_components/**",
   "**/*.min.js", "**/*.generated.*", "**/*_pb2.py", "**/*.pb.go"]

def exclusions (patterns : List String) : List Glob := patterns.filterMap Glob.read?

def isExcluded (globs : List Glob) (path : String) : Bool :=
  globs.any fun glob => glob.matchesAll (Bytes.ofText path)

def extension? (path : String) : Option String :=
  match Text.afterLast? ['.'] path.toList with
  | some tail => if tail.contains '/' then none else some (String.ofList tail)
  | none => none

def detect (globs : List Glob) (path : String) (head : Bytes) : Option String :=
  if isExcluded globs path then none
  else if head.contains 0 then none
  else (extension? path).bind ofExtension?

end SourceModels.Language
