import SourceModels.Proofs.Extraction.Capture
import SourceModels.Proofs.Model.Stored

/-! Written models are faithful: what is read back from the destination holds each selected file
with its contents and its tree, and the parser has been asked about nothing else. -/
namespace SourceModels
open MessagePack

structure Extractor.Captures (x : Extractor) (identifier : String) (fs : FileSystem)
    (requests : List ParseRequest) (files : List ParsedFile) (model : Model) : Prop where
  selected : ∃ selection, (x.selector identifier).select fs = .ok selection ∧
    (x.selector identifier).Yields selection fs (files.map (·.candidate))
  parsed : x.Parses fs [] files
  asked : requests = files.map ParsedFile.request
  kind : model.metadata.kind = Model.sourceKind
  dependencies : model.metadata.dependencies = []
  repository : model.repository = identifier
  filenames : model.filenames = files.map (·.candidate.relativePath)
  sources : ∀ index, model.sources.get? index = (files.map (·.content))[index]?
  trees : ∀ index, model.trees.get? index = (files.map (·.tree.encode))[index]?

structure Model.Short (model : Model) : Prop where
  repository : Value.TextFits model.repository
  filenames : ∀ name ∈ model.filenames, Value.TextFits name
  sources : model.sources.data.length < lengthBound
  trees : model.trees.data.length < lengthBound

theorem MessagePack.mapHeaderNonempty (count : Nat) : 0 < (mapHeader count).length := by
  unfold mapHeader
  dsimp only
  split
  · simp
  split <;> simp [marked]

theorem SyntaxTree.encodeNonempty (t : SyntaxTree) : 0 < t.encode.length := by
  cases t with
  | branch node children =>
    rw [encode, toValue, Value.writeMap, List.length_append]
    exact Nat.add_pos_left (mapHeaderNonempty _) _

theorem Draft.Holds.countBounded {draft : Draft} {files : List ParsedFile}
    (holds : draft.Holds files) : files.length ≤ draft.trees.data.length := by
  rw [holds.trees.data]
  clear holds
  induction files with
  | nil => simp
  | cons file rest ih =>
    have positive := file.tree.encodeNonempty
    simp only [List.map_cons, List.flatten_cons, List.length_append, List.length_cons] at ih ⊢
    omega

theorem Draft.finalizeDone {draft : Draft} {repository : String} {stamp : Stamp} {model : Model}
    (done : draft.finalize repository stamp = .ok model) :
    draft.filenames ≠ [] ∧ model.validate = .ok () ∧
      model = ⟨⟨Model.sourceKind, [], stamp.now, stamp.uuid, Model.currentVersion⟩, repository,
        draft.filenames, draft.sources, draft.trees⟩ := by
  unfold finalize at done
  split at done
  · contradiction
  rename_i nonempty
  simp only [bind, Except.bind, pure, Except.pure] at done
  split at done
  · contradiction
  rename_i accepted
  cases done
  exact ⟨by simpa using nonempty, accepted, rfl⟩

theorem Draft.Holds.decoded {draft : Draft} {files : List ParsedFile} (holds : draft.Holds files)
    {repository : String} {stamp : Stamp} (instant : stamp.now.isValid = true) {model : Model}
    (done : draft.finalize repository stamp = .ok model) (short : model.Short) :
    Model.decode model.encode = .ok model := by
  obtain ⟨_, _, rfl⟩ := finalizeDone done
  obtain ⟨identifier, names, sources, trees⟩ := short
  have count : files.length < lengthBound := Nat.lt_of_le_of_lt holds.countBounded trees
  have filenames : draft.filenames.length < lengthBound := by simpa [holds.filenames] using count
  have contents : draft.sources.Fits := ⟨sources, by simpa [holds.sources.lengths] using count⟩
  have encoded : draft.trees.Fits := ⟨trees, by simpa [holds.trees.lengths] using count⟩
  have kind : Value.TextFits Model.sourceKind := by decide
  exact Model.encodedRead ⟨⟨kind, ⟨by simp [lengthBound], by simp⟩⟩, identifier,
    ⟨filenames, names⟩, contents, encoded⟩ instant (contents.rebuilt holds.sourcesMade)
    (encoded.rebuilt holds.treesMade)

namespace Extractor

theorem gatherCaptures {x : Extractor} (quiet : x.detector.Quiet) {repository : String}
    {fs after : FileSystem} {draft : Draft} {asked : List ParseRequest}
    (done : x.gather repository fs = ⟨.ok draft, after, asked⟩) :
    ∃ files : List ParsedFile,
      (∃ selection, (x.selector repository).select fs = .ok selection ∧
        (x.selector repository).Yields selection fs (files.map (·.candidate))) ∧
      x.Parses fs [] files ∧ draft.Holds files ∧ asked = files.map ParsedFile.request := by
  unfold gather collectAll at done
  split at done
  · simp at done
  rename_i selection begun
  have looks : (x.selector repository).detector.Quiet := quiet
  obtain ⟨files, yields, parses, holds, asks⟩ := collectCaptures looks rfl Draft.emptyHolds done
  exact ⟨files, ⟨selection, begun, yields⟩, parses, by simpa using holds, by simpa using asks⟩

theorem storedCaptures {x : Extractor} {repository destination path : String} {draft : Draft}
    {stamp : Stamp} {fs after : FileSystem} {count : Nat} {disk : Disk}
    (container : x.writer = Store.writer disk)
    (fresh : Store.FreshToken fs destination stamp.token)
    (stored : x.store repository destination draft stamp fs = (after, .ok (.written path count))) :
    path = destination ∧ ∃ model, draft.finalize repository stamp = .ok model ∧
      count = model.size ∧ ∃ made target,
        FileSystem.DirectoriesAdded fs made destination ∧
        Store.ReplacedAt made after destination target model.encode := by
  have known := x.draftStored repository destination draft stamp fs
  rw [stored] at known
  cases known with
  | written filled finished done =>
    rw [container] at done
    obtain ⟨_, made, target, added, replaced⟩ := fresh.spare.writeDone done
    exact ⟨rfl, _, finished, rfl, made, target, added, replaced⟩

/-- A run that writes a model writes the selected files and their trees, all of them and nothing
else. The model is read back from the destination exactly when its path does not run through the
entry that has been replaced, which takes a link in that place. -/
theorem writtenFaithful {x : Extractor} {repository destination path : String} {stamp : Stamp}
    {fs after : FileSystem} {count : Nat} {requests : List ParseRequest} {disk : Disk}
    (container : x.writer = Store.writer disk) (quiet : x.detector.Quiet)
    (fresh : Store.FreshToken fs destination stamp.token) (instant : stamp.now.isValid = true)
    (run : x.extractTo repository destination stamp fs =
      ⟨.ok (.written path count), after, requests⟩) :
    path = destination ∧ ∃ files model, x.Captures repository fs requests files model ∧
      count = model.size ∧ 1 ≤ count ∧ ∃ made target,
        FileSystem.DirectoriesAdded fs made destination ∧
        Store.ReplacedAt made after destination target model.encode ∧
        ((∀ link, made.content? target ≠ some (.link link)) →
          Store.Independent made destination target) ∧
        (model.Short → Model.ofBytes model.encode = .ok model ∧
          (Store.read after destination = .ok model ↔
            Store.Independent made destination target)) := by
  obtain ⟨draft, gathered, stored⟩ := writtenParts quiet run
  obtain ⟨files, selected, parsed, holds, asks⟩ := gatherCaptures quiet gathered
  obtain ⟨same, model, finished, size, made, target, added, replaced⟩ :=
    storedCaptures container fresh stored
  obtain ⟨nonempty, accepted, whole⟩ := Draft.finalizeDone finished
  have filled : 1 ≤ model.size := by
    rw [whole]
    exact List.length_pos_iff.mpr nonempty
  have captures : x.Captures repository fs requests files model := by
    subst whole
    exact
      { selected := selected
        parsed := parsed
        asked := asks
        kind := rfl
        dependencies := rfl
        repository := rfl
        filenames := holds.filenames
        sources := holds.sources.get
        trees := holds.trees.get }
  refine ⟨same, files, model, captures, size, size ▸ filled, made, target, added, replaced,
    replaced.independent, ?_⟩
  intro short
  have read := Model.bytesAccepted accepted (holds.decoded instant finished short)
  exact ⟨read, Store.replacedRead replaced read⟩

def linkedFiles : FileSystem where
  entries := [(["d"], .directory), (["l"], .link "d"), (["r"], .directory),
    (["a.py", "r"], .file [0xFF])]
  current := []

def plainExtractor : Extractor :=
  .new { overwrite := true } fun _ => .tree (.leaf "module")

def plainRun (destination : String) : Run (Except Failure Outcome) :=
  plainExtractor.extractTo "r " destination ⟨.ofEpoch 0 0, .zero, "0"⟩ linkedFiles

theorem resultOf {α : Type} {run : Run (Except Failure α)} {a : α}
    (held : run.result.toOption = some a) : run = ⟨.ok a, run.files, run.requests⟩ := by
  obtain ⟨result, after, requests⟩ := run
  cases result with
  | error failure => simp [Except.toOption] at held
  | ok b =>
    simp only [Except.toOption, Option.some.injEq] at held
    rw [held]

theorem plainRunFaithful :
    (∃ files model,
      plainExtractor.Captures "r " linkedFiles (plainRun "m").requests files model ∧
      1 = model.size ∧ 1 ≤ 1 ∧ ∃ made target,
        FileSystem.DirectoriesAdded linkedFiles made "m" ∧
        Store.ReplacedAt made (plainRun "m").files "m" target model.encode ∧
        ((∀ link, made.content? target ≠ some (.link link)) →
          Store.Independent made "m" target) ∧
        (model.Short → Model.ofBytes model.encode = .ok model ∧
          (Store.read (plainRun "m").files "m" = .ok model ↔
            Store.Independent made "m" target))) ∧
    (Store.read (plainRun "m").files "m").toOption.map Model.repository = some "r " := by
  have quiet : plainExtractor.detector.Quiet := fun _ _ _ => rfl
  have fresh : Store.FreshToken linkedFiles "m" "0" := ⟨by decide, by decide⟩
  have written : (plainRun "m").result.toOption = some (.written "m" 1) := by decide +kernel
  have read : (Store.read (plainRun "m").files "m").toOption.map Model.repository = some "r " := by
    decide +kernel
  exact ⟨(writtenFaithful rfl quiet fresh (by decide) (resultOf written)).2, read⟩

theorem linkedDestinationLost :
    (plainRun "l/../l").result.toOption = some (.written "l/../l" 1) ∧
    ((plainExtractor.gather "r " linkedFiles).result.toOption.map fun draft =>
      (draft.sources.data.length, draft.trees.data.length)) = some (1, 58) ∧
    ∀ model, Store.read (plainRun "l/../l").files "l/../l" ≠ .ok model := by
  have lost : (Store.read (plainRun "l/../l").files "l/../l").toOption = none := by decide +kernel
  refine ⟨by decide +kernel, by decide +kernel, ?_⟩
  intro model read
  rw [read] at lost
  contradiction

end Extractor

end SourceModels
