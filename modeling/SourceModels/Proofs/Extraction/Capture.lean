import SourceModels.Proofs.Column
import SourceModels.Proofs.Extraction.AllOrNothing

/-! Gathering the files of a repository: the draft holds each selected file once, in order, with its
contents and the tree that the parser gave for them. -/
namespace SourceModels

inductive Selector.Yields (selector : Selector) : Selection → FileSystem → List Candidate →
    Prop where
  | done {selection last : Selection} {fs after : FileSystem}
      (ends : selector.next selection fs = (.done, last, after)) : Yields selector selection fs []
  | candidate {selection later : Selection} {fs after : FileSystem} {c : Candidate}
      {others : List Candidate} (first : selector.next selection fs = (.candidate c, later, after))
      (rest : Yields selector later after others) : Yields selector selection fs (c :: others)

theorem Selector.Yields.skipped {selector : Selector} {selection later : Selection}
    {fs : FileSystem} {candidates : List Candidate}
    (same : selector.next selection fs = selector.next later fs)
    (yields : selector.Yields later fs candidates) : selector.Yields selection fs candidates := by
  cases yields with
  | done ends => exact .done (same.trans ends)
  | candidate first rest => exact .candidate (same.trans first) rest

structure ParsedFile where
  candidate : Candidate
  content : Bytes
  tree : SyntaxTree

def ParsedFile.request (file : ParsedFile) : ParseRequest :=
  ⟨file.candidate.relativePath, file.candidate.language, file.content⟩

inductive Extractor.Parses (x : Extractor) (fs : FileSystem) : (earlier : List ParseRequest) →
    List ParsedFile → Prop where
  | nil {earlier : List ParseRequest} : Parses x fs earlier []
  | cons {earlier : List ParseRequest} {file : ParsedFile} {rest : List ParsedFile}
      (read : fs.readBytes file.candidate.location = .ok file.content)
      (answer : x.parser earlier file.request = .tree file.tree)
      (later : Parses x fs (earlier ++ [file.request]) rest) : Parses x fs earlier (file :: rest)

namespace Draft

structure Holds (draft : Draft) (files : List ParsedFile) : Prop where
  filenames : draft.filenames = files.map (·.candidate.relativePath)
  sources : draft.sources.Holds (files.map (·.content))
  trees : draft.trees.Holds (files.map (·.tree.encode))
  sourcesMade : draft.sources.Made
  treesMade : draft.trees.Made

theorem emptyHolds : empty.Holds [] :=
  ⟨rfl, Column.emptyHolds, Column.emptyHolds, .empty, .empty⟩

theorem pushedDone {column grown : Column} {entry : Bytes} :
    pushed column entry = .ok grown ↔ column.push entry = .ok grown :=
  mapErrorDone

theorem Holds.added {draft grown : Draft} {files : List ParsedFile} (holds : draft.Holds files)
    {file : ParsedFile} (done : draft.add file.candidate.relativePath
      (.parsed file.tree file.content) = (grown, .ok ())) : grown.Holds (files ++ [file]) := by
  unfold add at done
  simp only at done
  split at done
  · simp at done
  rename_i sources stored
  split at done
  · simp at done
  rename_i trees kept
  simp only [Prod.mk.injEq, and_true] at done
  subst done
  have contents := pushedDone.mp stored
  have encoded := pushedDone.mp kept
  exact
    { filenames := by simp [holds.filenames]
      sources := by simpa using holds.sources.pushed contents
      trees := by simpa using holds.trees.pushed encoded
      sourcesMade := .pushed holds.sourcesMade contents
      treesMade := .pushed holds.treesMade encoded }

end Draft

theorem Selector.candidateSmall {selector : Selector} {entry : WalkEntry}
    {counts counts' : SelectionCounts} {fs after : FileSystem} {c : Candidate}
    (seen : selector.inspect entry counts fs = (.candidate c, counts', after)) {content : Bytes}
    (read : fs.readBytes c.location = .ok content) : content.length ≤ selector.maxFileSize := by
  have known := selector.inspected entry counts fs
  rw [seen] at known
  cases known with
  | @selected _ _ content _ _ _ _ status file small _ _ =>
    cases content with
    | file data =>
      simp only [FileSystem.readBytes, status, bind, Except.bind, Except.ok.injEq] at read
      subst read
      simpa [Content.size] using small
    | unreadable => simp [FileSystem.readBytes, status, bind, Except.bind] at read
    | _ => simp [Content.isFile] at file

namespace Extractor

theorem fileAdded {x : Extractor} {earlier asked : List ParseRequest} {draft grown : Draft}
    {c : Candidate} {fs : FileSystem}
    (small : ∀ content, fs.readBytes c.location = .ok content →
      content.length ≤ x.config.maxFileSize)
    (done : x.addFile earlier draft c fs = (.ok grown, asked)) :
    ∃ file : ParsedFile, file.candidate = c ∧
      fs.readBytes c.location = .ok file.content ∧
      x.parser earlier file.request = .tree file.tree ∧
      draft.add c.relativePath (.parsed file.tree file.content) = (grown, .ok ()) ∧
      asked = [file.request] := by
  unfold addFile at done
  split at done
  · simp at done
  rename_i content read
  have fits : (⟨c.relativePath, c.language, content⟩ : ParseRequest).fits x.limits = true :=
    decide_eq_true (small content read)
  simp only [invoke, fits, if_true, requestsFor] at done
  cases answer : x.parser earlier ⟨c.relativePath, c.language, content⟩ with
  | tree t =>
    simp only [answer] at done
    split at done
    · rename_i draft' added
      simp only [Prod.mk.injEq, Except.ok.injEq] at done
      obtain ⟨rfl, rfl⟩ := done
      exact ⟨⟨c, content, t⟩, rfl, read, answer, added, rfl⟩
    · simp at done
  | failed fault => simp [answer, Draft.add] at done
  | silent => simp [answer, Draft.add] at done

theorem collectCaptures {x : Extractor} {selector : Selector} (quiet : selector.detector.Quiet)
    (size : selector.maxFileSize = x.config.maxFileSize) {walk : Walk} {counts : SelectionCounts}
    {draft grown : Draft} {held : List ParsedFile} (holds : draft.Holds held)
    {requests asked : List ParseRequest} {fs after : FileSystem}
    (done : x.collect selector walk counts draft requests fs = ⟨.ok grown, after, asked⟩) :
    ∃ files : List ParsedFile, selector.Yields ⟨walk, counts⟩ fs (files.map (·.candidate)) ∧
      x.Parses fs requests files ∧ grown.Holds (held ++ files) ∧
      asked = requests ++ files.map ParsedFile.request := by
  induction walk generalizing counts draft held requests with
  | finished =>
    simp only [collect, Run.mk.injEq, Except.ok.injEq] at done
    obtain ⟨rfl, _, rfl⟩ := done
    exact ⟨[], .done rfl, .nil, by simpa using holds, by simp⟩
  | failed path fault => simp [collect] at done
  | found entry resume ih =>
    obtain ⟨verdict, counts', seen⟩ := selector.inspectedQuietly quiet entry counts fs
    cases verdict with
    | passedOver =>
      simp only [collect, seen] at done
      obtain ⟨files, yields, parses, grows, asks⟩ := ih _ holds done
      have skipped : selector.next ⟨.found entry resume, counts⟩ fs =
          selector.next ⟨resume fs, counts'⟩ fs := by
        simp only [Selector.next, Selector.nextFrom, seen]
      exact ⟨files, yields.skipped skipped, parses, grows, asks⟩
    | refused fault => simp [collect, seen] at done
    | candidate c =>
      simp only [collect, seen] at done
      split at done
      · rename_i next asked' added
        have small : ∀ content, fs.readBytes c.location = .ok content →
            content.length ≤ x.config.maxFileSize := by
          intro content read
          rw [← size]
          exact Selector.candidateSmall seen read
        obtain ⟨file, rfl, read, answer, stored, rfl⟩ := fileAdded small added
        obtain ⟨files, yields, parses, grows, asks⟩ := ih _ (holds.added stored) done
        have first : selector.next ⟨.found entry resume, counts⟩ fs =
            (.candidate file.candidate, ⟨resume fs, counts'⟩, fs) := by
          simp only [Selector.next, Selector.nextFrom, seen]
        exact ⟨file :: files, .candidate first yields, .cons read answer parses,
          by simpa using grows, by simp [asks]⟩
      · simp at done

theorem writtenParts {x : Extractor} (quiet : x.detector.Quiet)
    {repository destination path : String} {stamp : Stamp} {fs after : FileSystem} {count : Nat}
    {requests : List ParseRequest} (run : x.extractTo repository destination stamp fs =
      ⟨.ok (.written path count), after, requests⟩) :
    ∃ draft, x.gather repository fs = ⟨.ok draft, fs, requests⟩ ∧
      x.store repository destination draft stamp fs = (after, .ok (.written path count)) := by
  have kept := gatherKeepsFiles quiet repository fs
  unfold extractTo at run
  split at run
  · simp at run
  · simp at run
  generalize x.gather repository fs = gathered at kept run ⊢
  obtain ⟨result, unchanged, asked⟩ := gathered
  simp only at kept run
  subst kept
  split at run
  · simp at run
  · simp only [Run.mk.injEq] at run
    obtain ⟨result, rfl, rfl⟩ := run
    exact ⟨_, rfl, Prod.ext rfl result⟩

end Extractor

end SourceModels
