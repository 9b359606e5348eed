import SourceModels.Pipeline
import SourceModels.Proofs.Extraction.Capture

/-! The items of a selection as one list, for files that do not change meanwhile, and the plain loop
that takes them one at a time: it reads and parses each file and stops at the first failure. -/
namespace SourceModels

def Selector.items (selector : Selector) (fs : FileSystem) :
    Walk → SelectionCounts → List Handed
  | .finished, _ => []
  | .failed path fault, _ => [.error (walkFault path fault)]
  | .found entry resume, counts =>
    let seen := selector.inspect entry counts fs
    match seen.1 with
    | .candidate c => .ok c :: items selector fs (resume fs) seen.2.1
    | .refused fault => [.error fault]
    | .passedOver => items selector fs (resume fs) seen.2.1

inductive Selector.Heads (selector : Selector) (fs : FileSystem) (selection : Selection) : Prop where
  | done {later : Selection} (ends : selector.next selection fs = (.done, later, fs))
      (left : later.walk = .finished) (none : selector.items fs selection.walk selection.counts = [])
  | failed {later : Selection} {fault : SelectionFault}
      (ends : selector.next selection fs = (.failed fault, later, fs))
      (left : later.walk = .finished)
      (one : selector.items fs selection.walk selection.counts = [.error fault])
  | candidate {later : Selection} {c : Candidate}
      (first : selector.next selection fs = (.candidate c, later, fs))
      (more : selector.items fs selection.walk selection.counts =
        .ok c :: selector.items fs later.walk later.counts)
      (small : ∀ content, fs.readBytes c.location = .ok content →
        content.length ≤ selector.maxFileSize)

theorem Selector.nextHeads {selector : Selector} (quiet : selector.detector.Quiet)
    (fs : FileSystem) (walk : Walk) (counts : SelectionCounts) :
    selector.Heads fs ⟨walk, counts⟩ := by
  induction walk generalizing counts with
  | finished => exact .done rfl rfl rfl
  | failed path fault => exact .failed rfl rfl rfl
  | found entry resume ih =>
    obtain ⟨verdict, counts', seen⟩ := selector.inspectedQuietly quiet entry counts fs
    cases verdict with
    | candidate c =>
      refine @Heads.candidate _ _ _ ⟨resume fs, counts'⟩ c ?_ ?_ ?_
      · simp only [next, nextFrom, seen]
      · simp only [items, seen]
      · exact fun content read => candidateSmall seen read
    | refused fault =>
      refine @Heads.failed _ _ _ ⟨.finished, counts'⟩ fault ?_ rfl ?_
      · simp only [next, nextFrom, seen]
      · simp only [items, seen]
    | passedOver =>
      have sameNext : selector.next ⟨.found entry resume, counts⟩ fs =
          selector.next ⟨resume fs, counts'⟩ fs := by
        simp only [next, nextFrom, seen]
      have sameItems : selector.items fs (.found entry resume) counts =
          selector.items fs (resume fs) counts' := by
        simp only [items, seen]
      cases ih fs counts' with
      | done ends left none => exact .done (sameNext.trans ends) left (sameItems.trans none)
      | failed ends left one => exact .failed (sameNext.trans ends) left (sameItems.trans one)
      | candidate first more small =>
        exact .candidate (sameNext.trans first) (sameItems.trans more) small

namespace Extractor

def takeAll (x : Extractor) (fs : FileSystem) : List Handed → Draft →
    List ParseRequest → Except Failure Draft × List ParseRequest
  | [], draft, requests => (.ok draft, requests)
  | .error fault :: _, _, requests => (.error (.selection fault), requests)
  | .ok c :: rest, draft, requests =>
    match x.addFile requests draft c fs with
    | (.ok draft, asked) => takeAll x fs rest draft (requests ++ asked)
    | (.error failure, asked) => (.error failure, requests ++ asked)

theorem takeAllAsks (x : Extractor) (fs : FileSystem)
    (items : List Handed) (draft : Draft)
    (requests : List ParseRequest) : requests <+: (x.takeAll fs items draft requests).2 := by
  induction items generalizing draft requests with
  | nil => exact List.prefix_rfl
  | cons item rest ih =>
    cases item with
    | error fault => exact List.prefix_rfl
    | ok c =>
      cases added : x.addFile requests draft c fs with
      | mk result asked =>
        cases result with
        | ok grown =>
          simp only [takeAll, added]
          exact (List.prefix_append ..).trans (ih grown (requests ++ asked))
        | error failure =>
          simp only [takeAll, added]
          exact List.prefix_append ..

end Extractor

end SourceModels
