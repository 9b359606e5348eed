import SourceModels.Model.Draft
import SourceModels.Proofs.Column.Changes

/-! Drafts to which files are added whatever the additions before have answered. Only the sources can
get ahead of the names and the trees, and they never come back into line, so a draft becomes a model
exactly of the files that were added whole. -/
namespace SourceModels.Draft

structure Step where
  before : Draft
  filename : String
  outcome : ParseOutcome
  after : Draft
  answer : Except Failure Unit
  done : before.add filename outcome = (after, answer)

def steps : Draft → List (String × ParseOutcome) → List Step
  | _, [] => []
  | draft, (filename, outcome) :: later =>
    ⟨draft, filename, outcome, _, _, rfl⟩ :: steps (draft.add filename outcome).1 later

def grown (draft : Draft) (additions : List (String × ParseOutcome)) : Draft :=
  additions.foldl (fun draft (filename, outcome) => (draft.add filename outcome).1) draft

namespace Step

def Added (step : Step) : Prop :=
  ∃ tree source, step.outcome = .parsed tree source ∧ step.answer = .ok ()

structure Halfway (step : Step) : Prop where
  parsed : ∃ tree source, step.outcome = .parsed tree source ∧
    step.before.sources.push source = .ok step.after.sources
  unkept : step.after.trees = step.before.trees
  failed : ∃ failure, step.answer = .error failure

def added? (step : Step) : Option Entry :=
  match step.outcome, step.answer with
  | .parsed tree source, .ok () => some ⟨step.filename, source, tree.encode⟩
  | _, _ => none

def stored? (step : Step) : Option Bytes :=
  match step.outcome with
  | .parsed _ source => (step.before.sources.push source).toOption.map fun _ => source
  | _ => none

end Step

def added (steps : List Step) : List Entry := steps.filterMap Step.added?

inductive Adds (draft : Draft) (filename : String) :
    ParseOutcome → Draft → Except Failure Unit → Prop where
  | whole {tree : SyntaxTree} {source : Bytes} {sources trees : Column}
      (stored : draft.sources.push source = .ok sources)
      (kept : draft.trees.push tree.encode = .ok trees) :
      Adds draft filename (.parsed tree source)
        { draft with sources, trees, filenames := draft.filenames ++ [filename] } (.ok ())
  | halfway {tree : SyntaxTree} {source : Bytes} {sources : Column} {fault : ColumnFault}
      (stored : draft.sources.push source = .ok sources)
      (refused : draft.trees.push tree.encode = .error fault) :
      Adds draft filename (.parsed tree source) { draft with sources }
        (.error (.model (.corruptColumn fault.message)))
  | unstored {tree : SyntaxTree} {source : Bytes} {fault : ColumnFault}
      (refused : draft.sources.push source = .error fault) :
      Adds draft filename (.parsed tree source) draft
        (.error (.model (.corruptColumn fault.message)))
  | oversize : Adds draft filename .oversize { draft with oversize := draft.oversize + 1 } (.ok ())
  | failed (fault : ParseFault) :
      Adds draft filename (.failed fault) draft (.error (.parse fault))

theorem Step.adds (step : Step) :
    Adds step.before step.filename step.outcome step.after step.answer := by
  obtain ⟨draft, filename, outcome, after, answer, done⟩ := step
  cases outcome with
  | parsed tree source =>
    cases stored : draft.sources.push source with
    | error fault =>
      simp only [add, pushed, stored] at done
      cases done
      exact .unstored stored
    | ok sources =>
      cases kept : draft.trees.push tree.encode with
      | error fault =>
        simp only [add, pushed, stored, kept] at done
        cases done
        exact .halfway stored kept
      | ok trees =>
        simp only [add, pushed, stored, kept] at done
        cases done
        exact .whole stored kept
  | oversize =>
    cases done
    exact .oversize
  | failed fault =>
    cases done
    exact .failed fault

theorem Step.gains (step : Step) :
    step.after.filenames = step.before.filenames ++ (step.added?.map Entry.filename).toList ∧
    (∀ {trees}, step.before.trees.Packs trees →
      step.after.trees.Packs (trees ++ (step.added?.map Entry.tree).toList)) ∧
    ∀ {sources}, step.before.sources.Packs sources →
      step.after.sources.Packs (sources ++ step.stored?.toList) := by
  have adds := step.adds
  obtain ⟨draft, filename, outcome, after, answer, done⟩ := step
  dsimp only at adds ⊢
  cases adds with
  | whole stored kept =>
    simp only [added?, stored?, stored, Except.toOption]
    exact ⟨rfl, fun packs => packs.pushed kept, fun packs => packs.pushed stored⟩
  | halfway stored refused =>
    simp only [added?, stored?, stored, Except.toOption]
    exact ⟨by simp, by simp, fun packs => packs.pushed stored⟩
  | unstored refused =>
    simp only [added?, stored?, refused, Except.toOption]
    exact ⟨by simp, by simp, by simp⟩
  | oversize => exact ⟨by simp [added?], by simp [added?], by simp [stored?]⟩
  | failed fault => exact ⟨by simp [added?], by simp [added?], by simp [stored?]⟩

structure Records (draft : Draft) (steps : List Step) : Prop where
  filenames : draft.filenames = (added steps).map Entry.filename
  trees : draft.trees.Packs ((added steps).map Entry.tree)
  sources : draft.sources.Packs (steps.filterMap Step.stored?)

theorem emptyRecords : Records .empty [] := ⟨rfl, Column.emptyPacks, Column.emptyPacks⟩

theorem Records.stepped {steps : List Step} {step : Step} (records : Records step.before steps) :
    Records step.after (steps ++ [step]) := by
  obtain ⟨filenames, trees, sources⟩ := step.gains
  have more : added (steps ++ [step]) = added steps ++ step.added?.toList := by
    cases found : step.added? <;> simp [added, found]
  have further : (steps ++ [step]).filterMap Step.stored? =
      steps.filterMap Step.stored? ++ step.stored?.toList := by
    cases found : step.stored? <;> simp [found]
  refine ⟨?_, ?_, further ▸ sources records.sources⟩
  · rw [filenames, records.filenames, more, List.map_append, Option.toList_map]
  · rw [more, List.map_append, ← Option.toList_map]
    exact trees records.trees

theorem Records.grown {draft : Draft} {earlier : List Step} (records : Records draft earlier)
    (additions : List (String × ParseOutcome)) :
    Records (draft.grown additions) (earlier ++ steps draft additions) := by
  induction additions generalizing draft earlier with
  | nil => simpa [Draft.grown, steps] using records
  | cons addition later ih =>
    obtain ⟨filename, outcome⟩ := addition
    let step : Step := ⟨draft, filename, outcome, _, _, rfl⟩
    have next : Records step.after (earlier ++ [step]) := Records.stepped records
    have whole : earlier ++ steps draft ((filename, outcome) :: later) =
        earlier ++ [step] ++ steps step.after later := List.append_cons ..
    rw [whole]
    exact ih next

theorem Step.storedWhole {step : Step} (whole : ¬ step.Halfway) :
    step.stored? = step.added?.map Entry.source := by
  have adds := step.adds
  obtain ⟨draft, filename, outcome, after, answer, done⟩ := step
  dsimp only at adds
  cases adds with
  | whole stored kept => simp [added?, stored?, stored, Except.toOption]
  | halfway stored refused => exact absurd ⟨⟨_, _, rfl, stored⟩, rfl, _, rfl⟩ whole
  | unstored refused => simp [added?, stored?, refused, Except.toOption]
  | oversize => rfl
  | failed fault => rfl

theorem Step.Halfway.ahead {step : Step} (halfway : step.Halfway) :
    step.added? = none ∧ ∃ source, step.stored? = some source := by
  obtain ⟨⟨tree, source, parsed, stored⟩, -, failure, failed⟩ := halfway
  exact ⟨by simp [added?, parsed, failed],
    source, by simp [stored?, parsed, stored, Except.toOption]⟩

theorem Step.halfwayMeans (step : Step) : step.Halfway ↔ ∃ tree source,
    step.outcome = .parsed tree source ∧ source.length < 2 ^ 32 ∧ 2 ^ 32 ≤ tree.encode.length := by
  have adds := step.adds
  obtain ⟨draft, filename, outcome, after, answer, done⟩ := step
  dsimp only at adds ⊢
  constructor
  · rintro ⟨⟨tree, source, parsed, stored⟩, -, failure, failed⟩
    dsimp only at parsed stored failed
    subst parsed
    cases adds with
    | whole => cases failed
    | halfway stored refused =>
      exact ⟨tree, source, rfl, (Column.pushDone.mp stored).1, Column.pushLong refused⟩
    | unstored refused =>
      rw [refused] at stored
      cases stored
  · rintro ⟨tree, source, rfl, short, long⟩
    cases adds with
    | whole stored kept => exact absurd (Column.pushDone.mp kept).1 (Nat.not_lt.mpr long)
    | halfway stored refused => exact ⟨⟨tree, source, rfl, stored⟩, rfl, _, rfl⟩
    | unstored refused => exact absurd short (Nat.not_lt.mpr (Column.pushLong refused))

theorem addedCons (step : Step) (steps : List Step) :
    added (step :: steps) = step.added?.toList ++ added steps := by
  cases found : step.added? <;> simp [added, found]

theorem storedAligned {steps : List Step} (whole : ∀ step ∈ steps, ¬ step.Halfway) :
    steps.filterMap Step.stored? = (added steps).map Entry.source := by
  induction steps with
  | nil => rfl
  | cons step rest ih =>
    have first := Step.storedWhole (whole step List.mem_cons_self)
    have later := ih fun other inside => whole other (List.mem_cons_of_mem _ inside)
    cases found : step.added? <;> simp [addedCons, first, found, later]

theorem storedCount (steps : List Step) : ∃ stopped,
    (steps.filterMap Step.stored?).length = (added steps).length + stopped ∧
      (stopped = 0 ↔ ∀ step ∈ steps, ¬ step.Halfway) := by
  induction steps with
  | nil => exact ⟨0, rfl, by simp⟩
  | cons step rest ih =>
    obtain ⟨stopped, count, none⟩ := ih
    by_cases halfway : step.Halfway
    · obtain ⟨unadded, source, stored⟩ := halfway.ahead
      refine ⟨stopped + 1, ?_, by simp [halfway]⟩
      simp only [addedCons, unadded, Option.toList_none, List.nil_append,
        List.filterMap_cons_some stored, List.length_cons, count]
      omega
    · have first := Step.storedWhole halfway
      refine ⟨stopped, ?_, by simp [halfway, none]⟩
      cases found : step.added? <;> simp [addedCons, first, found, count, Nat.add_right_comm]

theorem storedAhead {steps : List Step} (some : ∃ step ∈ steps, step.Halfway) :
    (added steps).length < (steps.filterMap Step.stored?).length := by
  obtain ⟨stopped, count, none⟩ := storedCount steps
  obtain ⟨step, inside, halfway⟩ := some
  have more : stopped ≠ 0 := fun zero => none.mp zero step inside halfway
  omega

theorem Step.addedMeans (step : Step) : step.Added ↔ ∃ entry, step.added? = some entry := by
  obtain ⟨draft, filename, outcome, after, answer, done⟩ := step
  constructor
  · rintro ⟨tree, source, parsed, answered⟩
    dsimp only at parsed answered
    subst parsed answered
    exact ⟨_, rfl⟩
  · rintro ⟨entry, found⟩
    cases outcome <;> cases answer <;> cases found
    exact ⟨_, _, rfl, rfl⟩

theorem someAdded (steps : List Step) : (∃ step ∈ steps, step.Added) ↔ added steps ≠ [] := by
  simp only [Step.addedMeans, added, ne_eq, List.filterMap_eq_nil_iff, not_forall,
    Option.ne_none_iff_exists', exists_prop]

def model (draft : Draft) (repository : String) (stamp : Stamp) : Model :=
  ⟨⟨Model.sourceKind, [], stamp.now, stamp.uuid, Model.currentVersion⟩, repository,
    draft.filenames, draft.sources, draft.trees⟩

section Recorded

variable {draft : Draft} {steps : List Step} (records : Records draft steps)

include records

theorem Records.counts : draft.filenames.length = (added steps).length ∧
    draft.sources.size = (steps.filterMap Step.stored?).length ∧
    draft.trees.size = (added steps).length := by
  refine ⟨?_, records.sources.toHolds.count, ?_⟩
  · rw [records.filenames, List.length_map]
  · rw [records.trees.toHolds.count, List.length_map]

theorem Records.filled (some : added steps ≠ []) : draft.filenames.isEmpty = false := by
  rw [List.isEmpty_eq_false_iff, records.filenames]
  exact fun nothing => some (List.map_eq_nil_iff.mp nothing)

variable (repository : String) (stamp : Stamp)

theorem finalizedEmpty (nothing : added steps = []) :
    draft.finalize repository stamp = .error .empty := by
  have bare : draft.filenames = [] := by rw [records.filenames, nothing, List.map_nil]
  rw [finalize, bare]
  rfl

theorem finalizedMisaligned (some : added steps ≠ []) (halfway : ∃ step ∈ steps, step.Halfway) :
    draft.finalize repository stamp = .error (.misaligned (added steps).length
      (steps.filterMap Step.stored?).length (added steps).length) := by
  obtain ⟨names, sources, trees⟩ := records.counts
  have filled := records.filled some
  have apart : (added steps).length ≠ (steps.filterMap Step.stored?).length :=
    Nat.ne_of_lt (storedAhead halfway)
  simp [finalize, filled, Model.validate, names, sources, trees, apart, bind, Except.bind]

theorem finalizedWhole (some : added steps ≠ [])
    (aligned : steps.filterMap Step.stored? = (added steps).map Entry.source) :
    (draft.model repository stamp).validate = .ok () ∧
      draft.finalize repository stamp = .ok (draft.model repository stamp) := by
  obtain ⟨names, sources, trees⟩ := records.counts
  rw [aligned, List.length_map] at sources
  have filled := records.filled some
  have contents : Model.checkColumn draft.sources = .ok () := mapErrorDone.mpr records.sources.valid
  have encoded : Model.checkColumn draft.trees = .ok () := mapErrorDone.mpr records.trees.valid
  have accepted : (draft.model repository stamp).validate = .ok () := by
    simp [model, Model.validate, names, sources, trees, contents, encoded, bind, Except.bind]
  refine ⟨accepted, ?_⟩
  rw [model] at accepted ⊢
  simp [finalize, filled, accepted, bind, Except.bind, pure, Except.pure]

theorem finalizedMeans {model : Model} (done : draft.finalize repository stamp = .ok model) :
    added steps ≠ [] ∧ ∀ step ∈ steps, ¬ step.Halfway := by
  have some : added steps ≠ [] := by
    intro nothing
    rw [finalizedEmpty records repository stamp nothing] at done
    cases done
  refine ⟨some, fun step inside halfway => ?_⟩
  rw [finalizedMisaligned records repository stamp some ⟨step, inside, halfway⟩] at done
  cases done

theorem finalizedWhen : (∃ model, draft.finalize repository stamp = .ok model) ↔
    (∃ step ∈ steps, step.Added) ∧ ∀ step ∈ steps, ¬ step.Halfway := by
  rw [someAdded]
  constructor
  · rintro ⟨model, done⟩
    exact finalizedMeans records repository stamp done
  · rintro ⟨some, whole⟩
    exact ⟨_, (finalizedWhole records repository stamp some (storedAligned whole)).2⟩

theorem recordedEntries
    (aligned : steps.filterMap Step.stored? = (added steps).map Entry.source) :
    (draft.model repository stamp).entries = added steps := by
  have files : draft.sources.Holds ((added steps).map Entry.source) :=
    aligned ▸ records.sources.toHolds
  rw [Model.entriesHeld files records.trees.toHolds, model, records.filenames]
  simp only [List.zip_map', List.map_map, Function.comp_def, List.map_id']

theorem finalizedModel {model : Model} (done : draft.finalize repository stamp = .ok model) :
    model.validate = .ok () ∧ model.repository = repository ∧ model.entries = added steps ∧
      model.size = (added steps).length ∧
      ∀ index, model.entry? index = (added steps)[index]? := by
  obtain ⟨some, whole⟩ := finalizedMeans records repository stamp done
  have aligned := storedAligned whole
  obtain ⟨accepted, made⟩ := finalizedWhole records repository stamp some aligned
  obtain rfl : draft.model repository stamp = model := Except.ok.inj (made.symm.trans done)
  have entries := recordedEntries records repository stamp aligned
  have files : draft.sources.Holds ((added steps).map Entry.source) :=
    aligned ▸ records.sources.toHolds
  refine ⟨accepted, rfl, entries, records.counts.1, fun index => ?_⟩
  rw [← entries]
  exact Model.entryHeld files records.trees.toHolds index

end Recorded

theorem Step.oversizeCounted {step : Step} (oversize : step.outcome = .oversize) :
    step.answer = .ok () ∧
      step.after = { step.before with oversize := step.before.oversize + 1 } := by
  have adds := step.adds
  obtain ⟨draft, filename, outcome, after, answer, done⟩ := step
  dsimp only at adds oversize ⊢
  subst oversize
  cases adds
  exact ⟨rfl, rfl⟩

theorem Step.failedUnchanged {step : Step} {fault : ParseFault}
    (failed : step.outcome = .failed fault) :
    step.answer = .error (.parse fault) ∧ step.after = step.before := by
  have adds := step.adds
  obtain ⟨draft, filename, outcome, after, answer, done⟩ := step
  dsimp only at adds failed ⊢
  subst failed
  cases adds
  exact ⟨rfl, rfl⟩

theorem stepsAdditions (draft : Draft) (additions : List (String × ParseOutcome)) :
    (steps draft additions).map (fun step => (step.filename, step.outcome)) = additions := by
  induction additions generalizing draft with
  | nil => rfl
  | cons addition later ih =>
    obtain ⟨filename, outcome⟩ := addition
    exact congrArg ((filename, outcome) :: ·) (ih (draft.add filename outcome).1)

/-- A draft becomes a model when a file has been added whole and none halfway, and then of exactly
the files that were added whole, in their order. -/
theorem historyFinalized (additions : List (String × ParseOutcome)) (repository : String)
    (stamp : Stamp) :
    let steps := steps empty additions
    let draft := empty.grown additions
    let finalized := draft.finalize repository stamp
    steps.map (fun step => (step.filename, step.outcome)) = additions ∧
    ((∃ model, finalized = .ok model) ↔
      (∃ step ∈ steps, step.Added) ∧ ∀ step ∈ steps, ¬ step.Halfway) ∧
    (∀ model, finalized = .ok model →
      model.validate = .ok () ∧ model.repository = repository ∧ model.entries = added steps ∧
        model.size = (added steps).length ∧
        ∀ index, model.entry? index = (added steps)[index]?) ∧
    ((¬ ∃ step ∈ steps, step.Added) → finalized = .error .empty) ∧
    ((∃ step ∈ steps, step.Added) → (∃ step ∈ steps, step.Halfway) →
      ∃ sources, (added steps).length < sources ∧
        finalized = .error (.misaligned (added steps).length sources (added steps).length)) ∧
    ∀ step ∈ steps,
      (step.outcome = .oversize → step.answer = .ok () ∧
        step.after = { step.before with oversize := step.before.oversize + 1 }) ∧
      ∀ fault, step.outcome = .failed fault →
        step.answer = .error (.parse fault) ∧ step.after = step.before := by
  intro steps draft finalized
  have records : Records draft steps := by
    simpa using emptyRecords.grown additions
  refine ⟨stepsAdditions empty additions, finalizedWhen records repository stamp,
    fun model => finalizedModel records repository stamp, fun none => ?_, fun some halfway => ?_,
    fun step _ => ⟨Step.oversizeCounted, fun fault => Step.failedUnchanged⟩⟩
  · rw [someAdded, not_not] at none
    exact finalizedEmpty records repository stamp none
  · rw [someAdded] at some
    exact ⟨_, storedAhead halfway, finalizedMisaligned records repository stamp some halfway⟩

theorem longTree (n : Nat) : ∃ tree : SyntaxTree, n ≤ tree.encode.length := by
  refine ⟨.leaf (String.ofList (List.replicate n 'a')), ?_⟩
  have name : n ≤ (Bytes.ofText (String.ofList (List.replicate n 'a'))).length := by
    have longer := Utf8.lengthOfChars (List.replicate n 'a')
    rwa [List.length_replicate, ← String.toList_ofList (l := List.replicate n 'a')] at longer
  have text (text : String) : (MessagePack.Value.ofText text).write =
      MessagePack.textHeader (Bytes.ofText text).length ++ Bytes.ofText text := by
    rw [MessagePack.Value.write, MessagePack.Value.ofText, MessagePack.Value.writeOnto]
    simp
  simp only [SyntaxTree.leaf, SyntaxTree.encode, SyntaxTree.toValue, SyntaxTree.nodeFields,
    MessagePack.Value.writeMap, List.cons_append, MessagePack.Value.writeAllCons,
    List.length_append, text]
  omega

theorem keptSourceMisaligned : ∃ tree sources, 1 < sources ∧
    (empty.grown [("a", .parsed (.leaf "m") [0x61]), ("b", .parsed tree [0x62])]).finalize "r"
      ⟨.ofEpoch 0 0, .zero, "0"⟩ = .error (.misaligned 1 sources 1) := by
  obtain ⟨tree, long⟩ := longTree (2 ^ 32)
  let first : Step := ⟨empty, "a", .parsed (.leaf "m") [0x61], _, _, rfl⟩
  let second : Step := ⟨first.after, "b", .parsed tree [0x62], _, _, rfl⟩
  have kept : first.added? = some ⟨"a", [0x61], (SyntaxTree.leaf "m").encode⟩ := rfl
  have halfway : second.Halfway := second.halfwayMeans.mpr ⟨tree, [0x62], rfl, by decide, long⟩
  have one : added [first, second] = [⟨"a", [0x61], (SyntaxTree.leaf "m").encode⟩] := by
    simp only [addedCons, kept, halfway.ahead.1]
    rfl
  obtain ⟨-, -, -, -, misaligned, -⟩ := historyFinalized
    [("a", .parsed (.leaf "m") [0x61]), ("b", .parsed tree [0x62])] "r" ⟨.ofEpoch 0 0, .zero, "0"⟩
  obtain ⟨sources, ahead, refused⟩ := misaligned
    ⟨first, List.mem_cons_self, first.addedMeans.mpr ⟨_, kept⟩⟩
    ⟨second, List.mem_cons_of_mem _ List.mem_cons_self, halfway⟩
  have count : (added (steps empty
      [("a", .parsed (.leaf "m") [0x61]), ("b", .parsed tree [0x62])])).length = 1 :=
    congrArg List.length one
  rw [count] at ahead refused
  exact ⟨tree, sources, ahead, refused⟩

end SourceModels.Draft
