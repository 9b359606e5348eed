import SourceModels.Extraction

/-! Selecting and parsing side by side. One party walks the repository and puts what it finds into
a queue of limited length; the other takes it out, reads and parses it. Either may be ahead: the
first waits while the queue is full and gives up once nobody takes from it, the second waits while
the queue is empty and asks how the walk has ended when no more can come. -/
namespace SourceModels

abbrev Handed := Except SelectionFault Candidate

/-- The walking party. It hangs up before its result can be asked for. -/
inductive Supply where
  | starting
  | seeking (selection : Selection)
  | offering (item : Handed) (selection : Selection)
  | hungUp (result : Except SelectionFault SelectionCounts)
  | ended (result : Except SelectionFault SelectionCounts)

inductive Intake where
  | receiving (draft : Draft)
  | reading (draft : Draft) (candidate : Candidate)
  | asking (draft : Draft) (request : ParseRequest)
  | adding (draft : Draft) (filename : String) (outcome : ParseOutcome)
  | joining (draft : Draft)
  | ended (result : Except Failure Draft)

structure Pipeline where
  supply : Supply
  queue : List Handed
  intake : Intake
  files : FileSystem
  requests : List ParseRequest

inductive Party where
  | supply
  | intake
  deriving DecidableEq, Repr

namespace Supply

def isOver : Supply → Bool
  | .hungUp _ => true
  | .ended _ => true
  | _ => false

end Supply

def Intake.isOver : Intake → Bool
  | .ended _ => true
  | _ => false

namespace Pipeline

def new (fs : FileSystem) : Pipeline := ⟨.starting, [], .receiving .empty, fs, []⟩

def supplied? (selector : Selector) (capacity : Nat) (p : Pipeline) : Option Pipeline :=
  match p.supply with
  | .starting =>
    match selector.select p.files with
    | .error fault => some { p with supply := .hungUp (.error fault) }
    | .ok selection => some { p with supply := .seeking selection }
  | .seeking selection =>
    match selector.next selection p.files with
    | (.candidate c, later, fs) => some { p with supply := .offering (.ok c) later, files := fs }
    | (.failed fault, later, fs) =>
      some { p with supply := .offering (.error fault) later, files := fs }
    | (.done, later, fs) => some { p with supply := .hungUp (.ok later.counts), files := fs }
  | .offering item selection =>
    if p.intake.isOver then some { p with supply := .hungUp (.ok selection.counts) }
    else if p.queue.length < capacity then
      some { p with supply := .seeking selection, queue := p.queue ++ [item] }
    else none
  | .hungUp result => some { p with supply := .ended result }
  | .ended _ => none

def received? (p : Pipeline) (draft : Draft) : Option Pipeline :=
  match p.queue with
  | .ok c :: rest => some { p with queue := rest, intake := .reading draft c }
  | .error fault :: rest =>
    some { p with queue := rest, intake := .ended (.error (.selection fault)) }
  | [] => if p.supply.isOver then some { p with intake := .joining draft } else none

def joined? (p : Pipeline) (draft : Draft) : Option Pipeline :=
  match p.supply with
  | .ended (.ok _) => some { p with intake := .ended (.ok draft) }
  | .ended (.error fault) => some { p with intake := .ended (.error (.selection fault)) }
  | _ => none

def taken? (x : Extractor) (p : Pipeline) : Option Pipeline :=
  match p.intake with
  | .receiving draft => p.received? draft
  | .reading draft c =>
    match p.files.readBytes c.location with
    | .error fault =>
      some { p with
        intake := .ended (.error (.selection (.unreadable c.relativePath fault.message))) }
    | .ok content => some { p with intake := .asking draft ⟨c.relativePath, c.language, content⟩ }
  | .asking draft request =>
    some { p with
      intake := .adding draft request.filename (invoke (x.parser p.requests) x.limits request)
      requests := p.requests ++ x.requestsFor request }
  | .adding draft filename outcome =>
    match draft.add filename outcome with
    | (draft, .ok ()) => some { p with intake := .receiving draft }
    | (_, .error failure) => some { p with intake := .ended (.error failure) }
  | .joining draft => p.joined? draft
  | .ended _ => none

def turn? (x : Extractor) (selector : Selector) (capacity : Nat) (p : Pipeline) :
    Party → Option Pipeline
  | .supply => p.supplied? selector capacity
  | .intake => p.taken? x

def turns? (x : Extractor) (selector : Selector) (capacity : Nat) (p : Pipeline)
    (parties : List Party) : Option Pipeline :=
  parties.foldlM (turn? x selector capacity) p

end Pipeline

end SourceModels
