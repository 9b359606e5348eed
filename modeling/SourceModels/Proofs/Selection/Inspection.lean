import SourceModels.Selection

/-! Inspecting an entry: what a selection makes of it, by what it finds there. -/
namespace SourceModels.Selector
open FileSystem

inductive Inspected (selector : Selector) (entry : WalkEntry) (counts : SelectionCounts)
    (fs : FileSystem) : Verdict × SelectionCounts × FileSystem → Prop where
  | entered (directory : entry.kind = .directory) :
      Inspected selector entry counts fs (.passedOver, counts, fs)
  | unresolved (looked : entry.kind ≠ .directory) {fault : ResolveFault}
      (resolved : selector.resolver fs entry.path = .error fault) :
      Inspected selector entry counts fs
        (.refused (.resolve fault), { counts with seen := counts.seen + 1 }, fs)
  | lost (looked : entry.kind ≠ .directory) {location : String} {fault : Fault}
      (resolved : selector.resolver fs entry.path = .ok location)
      (status : fs.status location = .error fault) :
      Inspected selector entry counts fs (.refused (.unreadable entry.path fault.message),
        { counts with seen := counts.seen + 1 }, fs)
  | aside (looked : entry.kind ≠ .directory) {location : String} {content : Content}
      (resolved : selector.resolver fs entry.path = .ok location)
      (status : fs.status location = .ok content) (other : content.isFile = false) :
      Inspected selector entry counts fs
        (.passedOver, { counts with seen := counts.seen + 1 }, fs)
  | oversize (looked : entry.kind ≠ .directory) {location : String} {content : Content}
      (resolved : selector.resolver fs entry.path = .ok location)
      (status : fs.status location = .ok content) (file : content.isFile = true)
      (large : selector.maxFileSize < content.size) :
      Inspected selector entry counts fs (.passedOver,
        { counts with seen := counts.seen + 1, oversize := counts.oversize + 1 }, fs)
  | unread (looked : entry.kind ≠ .directory) {location : String} {content : Content}
      {fault : Fault} (resolved : selector.resolver fs entry.path = .ok location)
      (status : fs.status location = .ok content) (file : content.isFile = true)
      (small : ¬ selector.maxFileSize < content.size)
      (read : fs.readHead headLength location = .error fault) :
      Inspected selector entry counts fs
        (.refused (.unreadable (relativePath entry) fault.message),
          { counts with seen := counts.seen + 1 }, fs)
  | unrecognized (looked : entry.kind ≠ .directory) {location : String} {content : Content}
      {head : Bytes} {after : FileSystem}
      (resolved : selector.resolver fs entry.path = .ok location)
      (status : fs.status location = .ok content) (file : content.isFile = true)
      (small : ¬ selector.maxFileSize < content.size)
      (read : fs.readHead headLength location = .ok head)
      (detected : selector.detector (relativePath entry) head fs = (none, after)) :
      Inspected selector entry counts fs (.passedOver,
        { counts with seen := counts.seen + 1, unrecognized := counts.unrecognized + 1 }, after)
  | selected (looked : entry.kind ≠ .directory) {location : String} {content : Content}
      {head : Bytes} {language : String} {after : FileSystem}
      (resolved : selector.resolver fs entry.path = .ok location)
      (status : fs.status location = .ok content) (file : content.isFile = true)
      (small : ¬ selector.maxFileSize < content.size)
      (read : fs.readHead headLength location = .ok head)
      (detected : selector.detector (relativePath entry) head fs = (some language, after)) :
      Inspected selector entry counts fs
        (.candidate ⟨relativePath entry, location, content.size, language⟩,
          { counts with seen := counts.seen + 1, selected := counts.selected + 1 }, after)

theorem inspected (selector : Selector) (entry : WalkEntry) (counts : SelectionCounts)
    (fs : FileSystem) :
    Inspected selector entry counts fs (selector.inspect entry counts fs) := by
  by_cases directory : entry.kind = .directory
  · simp only [inspect, if_pos directory]
    exact .entered directory
  simp only [inspect, if_neg directory]
  cases resolved : selector.resolver fs entry.path with
  | error fault => exact .unresolved directory resolved
  | ok location =>
    cases status : fs.status location with
    | error fault =>
      simp only [status]
      exact .lost directory resolved status
    | ok content =>
      simp only [status]
      by_cases other : content.isFile = false
      · simp only [if_pos other]
        exact .aside directory resolved status other
      have file : content.isFile = true := by simpa using other
      by_cases large : selector.maxFileSize < content.size
      · simp only [if_neg other, if_pos large]
        exact .oversize directory resolved status file large
      simp only [if_neg other, if_neg large]
      cases read : fs.readHead headLength location with
      | error fault => exact .unread directory resolved status file large read
      | ok head =>
        dsimp only
        cases detected : selector.detector (relativePath entry) head fs with
        | mk language after =>
          cases language with
          | none => exact .unrecognized directory resolved status file large read detected
          | some language => exact .selected directory resolved status file large read detected

theorem inspectUncounted (selector : Selector) (entry : WalkEntry) (counts other : SelectionCounts)
    (fs : FileSystem) :
    (selector.inspect entry counts fs).1 = (selector.inspect entry other fs).1 ∧
      (selector.inspect entry counts fs).2.2 = (selector.inspect entry other fs).2.2 := by
  have known := selector.inspected entry counts fs
  generalize selector.inspect entry counts fs = outcome at known
  cases known <;> simp [inspect, *]

end SourceModels.Selector
