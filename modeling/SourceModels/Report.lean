import SourceModels.Failure

/-! What became of a repository, and the tally of a batch. -/
namespace SourceModels

inductive Outcome where
  | written (path : String) (files : Nat)
  | skipped (path : String)
  | empty
  deriving DecidableEq, Repr

structure Report where
  written : List String := []
  skipped : List String := []
  empty : List String := []
  failed : List (String × String) := []
  deriving DecidableEq, Repr

namespace Report

def record (report : Report) (repository : String) : Except Failure Outcome → Report
  | .ok (.written path _) => { report with written := report.written ++ [path] }
  | .ok (.skipped path) => { report with skipped := report.skipped ++ [path] }
  | .ok .empty => { report with empty := report.empty ++ [repository] }
  | .error failure => { report with failed := report.failed ++ [(repository, failure.message)] }

def total (report : Report) : Nat :=
  report.written.length + report.skipped.length + report.empty.length + report.failed.length

def hasFailures (report : Report) : Bool := !report.failed.isEmpty

def summary (report : Report) : String :=
  toString report.total ++ " repositories: " ++ toString report.written.length ++ " written, " ++
    toString report.skipped.length ++ " skipped, " ++ toString report.empty.length ++
    " empty, " ++ toString report.failed.length ++ " failed"

end Report

end SourceModels
