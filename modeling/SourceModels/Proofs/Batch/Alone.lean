import Mathlib.Data.List.Nodup
import SourceModels.Proofs.Batch.Filled
import SourceModels.Proofs.Selection.Aside

/-! Repositories that have nothing to do with each other: each of them ends in a batch as it would
alone, whatever the others do in the meantime. Only a model's name that is too long may be found out
earlier than it would be alone. -/
namespace SourceModels
open FileSystem Identifier

/-- Repositories with different keys, and an output directory without links that none of them
reaches. -/
structure Separate (x : Extractor) (repositories : List String) (output : String)
    (fs : FileSystem) (top : Location) : Prop where
  links : x.resolver = resolve
  steady : x.detector.Steady
  container : x.writer = Store.writer .sound
  regular : Regular fs
  found : fs.find true output = .ok (.at top .directory)
  unlinked : ∀ below target, fs.content? (below ++ top) ≠ some (.link target)
  distinct : (repositories.map key).Nodup
  grounded : ∀ repository ∈ repositories, ¬ ['.', '.'] <+: (key repository).toList
  unreached : ∀ repository ∈ repositories, Unreached fs top (trim repository)

theorem Separate.ground {x : Extractor} {repositories : List String} {output : String}
    {fs : FileSystem} {top : Location} (separate : Separate x repositories output fs top) :
    Ground fs output top := by
  obtain ⟨checked, _, led⟩ := (Rooted.mk separate.regular separate.found).parts
  refine ⟨checked, ?_, separate.unlinked, fun _ _ _ => separate.regular.above⟩
  have leads := walkLeads led
  unfold components at leads
  split at leads
  · exact leads.undotted rfl
  · exact leads

def AlikeModels (a b : Option Bytes) : Prop :=
  a = b ∨ ∃ (model : Model) (stamp other : Stamp),
    a = some (model.stamped stamp).encode ∧ b = some (model.stamped other).encode

theorem Draft.finalizedAlike {draft : Draft} {repository : String} {stamp other : Stamp}
    {model model' : Model} (first : draft.finalize repository stamp = .ok model)
    (second : draft.finalize repository other = .ok model') :
    AlikeModels (some model.encode) (some model'.encode) := by
  have same := draft.finalizeStamped repository stamp stamp
  have later := draft.finalizeStamped repository stamp other
  rw [first] at same later
  have stamped : model = model.stamped stamp := Except.ok.inj same
  have restamped : model' = model.stamped other := Except.ok.inj (second.symm.trans later)
  refine .inr ⟨model, stamp, other, ?_, ?_⟩
  · rw [← stamped]
  · rw [restamped]

namespace Extractor

/-- The repository ends as it does alone, or its name has been found too long at once: alone it
would not have been stored either. -/
def AsAlone (x : Extractor) (output : String) (fs : FileSystem) (repository : String)
    (stamp : Stamp) (result : Except Failure Outcome) : Prop :=
  let alone := (x.extract repository output stamp fs).result
  result = alone ∨ x.config.overwrite = false ∧
    maxNameBytes < byteLength (modelFileName (key repository)) ∧
    result = .error (.io .nameTooLong) ∧
    Batch.writtenPath? alone = none ∧ Batch.skippedPath? alone = none

section
variable {x : Extractor} {repositories : List String} {output repository : String}
  {fs files : FileSystem} {top : Location} {models : List (String × Bytes)}

theorem aloneRefused {failure : Failure} {stamp : Stamp}
    (refused : x.isTaken (x.destination repository output) fs = .error failure) :
    (x.extract repository output stamp fs).result = .error failure := by
  simp only [extract, extractTo, refused]

theorem aloneTaken {stamp : Stamp}
    (taken : x.isTaken (x.destination repository output) fs = .ok true) :
    (x.extract repository output stamp fs).result =
      .ok (.skipped (x.destination repository output)) := by
  simp only [extract, extractTo, taken]

theorem aloneFailed {failure : Failure} {stamp : Stamp}
    (free : x.isTaken (x.destination repository output) fs = .ok false)
    (fails : (x.gather repository fs).result = .error failure) :
    (x.extract repository output stamp fs).result = .error failure := by
  simp only [extract, extractTo, free, fails]

theorem aloneStored (quiet : x.detector.Quiet) {draft : Draft} {stamp : Stamp}
    (free : x.isTaken (x.destination repository output) fs = .ok false)
    (gathers : (x.gather repository fs).result = .ok draft) :
    (x.extract repository output stamp fs).result =
      (x.store repository (x.destination repository output) draft stamp fs).2 := by
  simp only [extract, extractTo, free, gathers, gatherKeepsFiles quiet]

theorem checkedAlike (separate : Separate x repositories output fs top)
    (inside : repository ∈ repositories)
    (filled : Filled x.config.shardDepth output top fs files models)
    (apart : ∀ m ∈ models, m.1 ≠ key repository) :
    x.isTaken (x.destination repository output) files =
        x.isTaken (x.destination repository output) fs ∨
      x.config.overwrite = false ∧ maxNameBytes < byteLength (modelFileName (key repository)) ∧
        x.isTaken (x.destination repository output) fs = .ok false ∧
        x.isTaken (x.destination repository output) files = .error (.io .nameTooLong) := by
  have existence := filled.existence separate.ground (separate.grounded repository inside) apart
  simp only [isTaken, destination]
  split
  · exact .inl rfl
  · rename_i keeps
    rcases existence with same | ⟨long, free, blocked⟩
    · exact .inl (by rw [same])
    · exact .inr ⟨by simpa using keeps, long, by rw [free]; rfl, by rw [blocked]; rfl⟩

theorem storedAlone (separate : Separate x repositories output fs top)
    (inside : repository ∈ repositories) {stamp : Stamp} (fit : x.Fit output fs repository stamp)
    (draft : Draft) :
    (x.store repository (x.destination repository output) draft stamp fs).2 =
      x.storing repository output top draft stamp fs := by
  have grounded := separate.grounded repository inside
  obtain ⟨made, prepared, filled, _, through⟩ :=
    prepareFilled separate.container (.refl separate.ground) grounded draft stamp
  simp only [store, storing, prepared]
  rcases outcome : x.preparing repository output top draft stamp fs with failure | _ | model
  · rfl
  · rfl
  · obtain ⟨later, installed, _⟩ := installFilled separate.container filled grounded (by simp) fit
      model (through model outcome)
    simp only [installed]

theorem storingUnskipped (draft : Draft) (stamp : Stamp) :
    Batch.skippedPath? (x.storing repository output top draft stamp fs) = none := by
  unfold storing
  split
  · rfl
  · rfl
  unfold installing
  split <;> rfl

theorem storingShort (grounded : ¬ ['.', '.'] <+: (key repository).toList)
    (long : maxNameBytes < byteLength (modelFileName (key repository))) (draft : Draft)
    (stamp : Stamp) :
    Batch.writtenPath? (x.storing repository output top draft stamp fs) = none := by
  unfold storing
  split
  · rfl
  · rfl
  unfold installing
  split
  · rename_i free
    exact absurd long (Store.freeShort (destinationBelow grounded) free)
  · rfl

theorem longUnstored (separate : Separate x repositories output fs top)
    (inside : repository ∈ repositories) {stamp : Stamp} (fit : x.Fit output fs repository stamp)
    (long : maxNameBytes < byteLength (modelFileName (key repository)))
    (free : x.isTaken (x.destination repository output) fs = .ok false) :
    Batch.writtenPath? (x.extract repository output stamp fs).result = none ∧
      Batch.skippedPath? (x.extract repository output stamp fs).result = none := by
  cases gathers : (x.gather repository fs).result with
  | error failure =>
    rw [aloneFailed free gathers]
    exact ⟨rfl, rfl⟩
  | ok draft =>
    rw [aloneStored separate.steady.quiet free gathers, storedAlone separate inside fit]
    exact ⟨storingShort (separate.grounded repository inside) long .., storingUnskipped ..⟩

theorem addedFailure {draft later : Draft} {filename : String} {outcome : ParseOutcome}
    {failure : Failure} (refused : draft.add filename outcome = (later, .error failure))
    (fault : Fault) : failure ≠ .io fault := by
  have pushes : ∀ (column : Column) entry, Draft.pushed column entry ≠ .error (.io fault) := by
    intro column entry
    cases pushed : column.push entry <;> simp [Draft.pushed, pushed, Except.mapError]
  rintro rfl
  unfold Draft.add at refused
  split at refused
  · split at refused
    · rename_i pushed
      cases refused
      exact pushes _ _ pushed
    · split at refused
      · rename_i pushed
        cases refused
        exact pushes _ _ pushed
      · cases refused
  · cases refused
  · cases refused

theorem addFileFailure {earlier asked : List ParseRequest} {draft : Draft} {c : Candidate}
    {failure : Failure} (refused : x.addFile earlier draft c fs = (.error failure, asked))
    (fault : Fault) : failure ≠ .io fault := by
  rintro rfl
  unfold addFile at refused
  split at refused
  · cases refused
  · dsimp only at refused
    split at refused
    · cases refused
    · rename_i added
      cases refused
      exact addedFailure added fault rfl

theorem collectFailure (fault : Fault) (selector : Selector) (walk : Walk)
    (counts : SelectionCounts) (draft : Draft) (requests : List ParseRequest) (fs : FileSystem) :
    (x.collect selector walk counts draft requests fs).result ≠ .error (.io fault) := by
  induction walk generalizing counts draft requests fs with
  | finished => simp [collect]
  | failed path other => simp [collect]
  | found entry resume ih =>
    rw [collect]
    generalize selector.inspect entry counts fs = inspected
    obtain ⟨verdict, counts, fs⟩ := inspected
    cases verdict with
    | passedOver => exact ih _ _ _ _ _
    | refused other => simp
    | candidate c =>
      cases added : x.addFile requests draft c fs with
      | mk result asked =>
        cases result with
        | ok draft => simpa only [added] using ih _ _ _ _ _
        | error failure => simpa [added] using addFileFailure added fault

theorem aloneFailure (repository output : String) (stamp : Stamp) (fault : Fault)
    (free : x.isTaken (x.destination repository output) fs = .ok false) :
    (x.extract repository output stamp fs).result ≠ .error (.io fault) := by
  have gathers : (x.gather repository fs).result ≠ .error (.io fault) := by
    unfold gather collectAll
    split
    · simp
    · exact collectFailure _ _ _ _ _ _ _
  simp only [extract, extractTo, free]
  split
  · rename_i failure fails
    rintro ⟨⟩
    exact gathers fails
  · rename_i draft gathered
    have known := x.draftStored repository (x.destination repository output) draft stamp
      (x.gather repository fs).files
    generalize x.store repository (x.destination repository output) draft stamp
      (x.gather repository fs).files = outcome at known
    cases known <;> simp

end

end Extractor

end SourceModels
