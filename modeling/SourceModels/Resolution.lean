import SourceModels.FileSystem.Lookup
import SourceModels.Failure

/-! The real location of a path, all links followed. -/
namespace SourceModels

abbrev Resolver := FileSystem → String → Except ResolveFault String

def resolve : Resolver := fun fs path =>
  match fs.locate path with
  | .ok location => .ok location.text
  | .error fault =>
    if fault = .notFound ∧ fs.isLink path then .error (.dangling path)
    else .error (.failed path fault)

end SourceModels
