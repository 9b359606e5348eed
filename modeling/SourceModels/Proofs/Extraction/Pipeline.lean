import Mathlib.Algebra.GroupWithZero.Nat
import SourceModels.Proofs.Extraction.Items

/-! Selecting and parsing side by side come to what the plain loop comes to, in whatever order the
two parties go on. What is still due is the same after every turn, the turns are limited in number,
and only when both parties have ended does neither go on. -/
namespace SourceModels

namespace Extractor

def takeAfter (x : Extractor) (fs : FileSystem) (items : List Handed)
    (requests : List ParseRequest) : Draft × Except Failure Unit →
      Except Failure Draft × List ParseRequest
  | (draft, .ok ()) => x.takeAll fs items draft requests
  | (_, .error failure) => (.error failure, requests)

theorem takeUnread {x : Extractor} {fs : FileSystem} {c : Candidate} {fault : Fault}
    (lost : fs.readBytes c.location = .error fault) (items : List Handed) (draft : Draft)
    (requests : List ParseRequest) : x.takeAll fs (.ok c :: items) draft requests =
      (.error (.selection (.unreadable c.relativePath fault.message)), requests) := by
  simp only [takeAll, addFile, lost, List.append_nil]

theorem takeRead {x : Extractor} {fs : FileSystem} {c : Candidate} {content : Bytes}
    (read : fs.readBytes c.location = .ok content) (items : List Handed) (draft : Draft)
    (requests : List ParseRequest) :
    x.takeAll fs (.ok c :: items) draft requests =
      x.takeAfter fs items
        (requests ++ x.requestsFor ⟨c.relativePath, c.language, content⟩)
        (draft.add c.relativePath (invoke (x.parser requests) x.limits
          ⟨c.relativePath, c.language, content⟩)) := by
  cases added : draft.add c.relativePath (invoke (x.parser requests) x.limits
      ⟨c.relativePath, c.language, content⟩) with
  | mk grown result => cases result <;> simp only [takeAll, addFile, read, added, takeAfter]

end Extractor

namespace Supply

def ahead (selector : Selector) (fs : FileSystem) : Supply → List Handed
  | .starting =>
    match selector.select fs with
    | .error fault => [.error fault]
    | .ok selection => selector.items fs selection.walk selection.counts
  | .seeking selection => selector.items fs selection.walk selection.counts
  | .offering item selection => item :: selector.items fs selection.walk selection.counts
  | .hungUp (.error fault) => [.error fault]
  | .ended (.error fault) => [.error fault]
  | .hungUp (.ok _) => []
  | .ended (.ok _) => []

def left (selector : Selector) (fs : FileSystem) : Supply → Nat
  | .starting => 2 * (ahead selector fs .starting).length + 4
  | .seeking selection => 2 * (ahead selector fs (.seeking selection)).length + 3
  | .offering _ selection => 2 * (ahead selector fs (.seeking selection)).length + 4
  | .hungUp _ => 1
  | .ended _ => 0

end Supply

def Intake.left : Intake → Nat
  | .receiving _ => 2
  | .reading _ _ => 6
  | .asking _ _ => 5
  | .adding _ _ _ => 4
  | .joining _ => 1
  | .ended _ => 0

namespace Pipeline

section
variable {x : Extractor} {selector : Selector} {capacity : Nat} {p q : Pipeline}

def coming (selector : Selector) (p : Pipeline) : List Handed :=
  p.queue ++ p.supply.ahead selector p.files

def due (x : Extractor) (selector : Selector) (p : Pipeline) :
    Except Failure Draft × List ParseRequest :=
  match p.intake with
  | .receiving draft => x.takeAll p.files (p.coming selector) draft p.requests
  | .reading draft c => x.takeAll p.files (.ok c :: p.coming selector) draft p.requests
  | .asking draft request =>
    x.takeAfter p.files (p.coming selector) (p.requests ++ x.requestsFor request)
      (draft.add request.filename (invoke (x.parser p.requests) x.limits request))
  | .adding draft filename outcome =>
    x.takeAfter p.files (p.coming selector) p.requests (draft.add filename outcome)
  | .joining draft => x.takeAll p.files (p.coming selector) draft p.requests
  | .ended result => (result, p.requests)

def left (selector : Selector) (p : Pipeline) : Nat :=
  p.supply.left selector p.files + 5 * (p.coming selector).length + p.intake.left

structure Supplied (selector : Selector) (p q : Pipeline) : Prop where
  intake : q.intake = p.intake
  files : q.files = p.files
  requests : q.requests = p.requests
  coming : q.coming selector = p.coming selector ∨
    p.intake.isOver = true ∧ (q.coming selector).length ≤ (p.coming selector).length
  past : p.supply.isOver = true → q.supply.isOver = true ∧ q.queue = p.queue
  less : q.supply.left selector q.files < p.supply.left selector p.files

theorem unfinished {supply : Supply} {claim : Prop} (goesOn : supply.isOver = false)
    (past : supply.isOver = true) : claim :=
  absurd (goesOn.symm.trans past) Bool.false_ne_true

theorem suppliedTurn (quiet : selector.detector.Quiet)
    (turn : p.supplied? selector capacity = some q) : Supplied selector p q := by
  obtain ⟨supply, queue, intake, fs, requests⟩ := p
  cases supply with
  | starting =>
    cases started : selector.select fs with
    | error fault =>
      simp only [supplied?, started, Option.some.injEq] at turn
      subst turn
      refine ⟨rfl, rfl, rfl, .inl ?_, unfinished rfl, ?_⟩
      · simp only [coming, Supply.ahead, started]
      · simp only [Supply.left]
        omega
    | ok selection =>
      simp only [supplied?, started, Option.some.injEq] at turn
      subst turn
      refine ⟨rfl, rfl, rfl, .inl ?_, unfinished rfl, ?_⟩
      · simp only [coming, Supply.ahead, started]
      · simp only [Supply.left, Supply.ahead, started]
        omega
  | seeking selection =>
    cases selector.nextHeads quiet fs selection.walk selection.counts with
    | done ends left none =>
      simp only [supplied?, ends, Option.some.injEq] at turn
      subst turn
      refine ⟨rfl, rfl, rfl, .inl ?_, unfinished rfl, ?_⟩
      · simp only [coming, Supply.ahead, none]
      · simp only [Supply.left]
        omega
    | @failed later fault ends left one =>
      simp only [supplied?, ends, Option.some.injEq] at turn
      subst turn
      have nothing : selector.items fs later.walk later.counts = [] := by
        rw [left, Selector.items]
      refine ⟨rfl, rfl, rfl, .inl ?_, unfinished rfl, ?_⟩
      · simp only [coming, Supply.ahead, one, nothing]
      · simp only [Supply.left, Supply.ahead, one, nothing, List.length_cons, List.length_nil]
        omega
    | @candidate later c first more small =>
      simp only [supplied?, first, Option.some.injEq] at turn
      subst turn
      refine ⟨rfl, rfl, rfl, .inl ?_, unfinished rfl, ?_⟩
      · simp only [coming, Supply.ahead, more]
      · simp only [Supply.left, Supply.ahead, more, List.length_cons]
        omega
  | offering item selection =>
    simp only [supplied?] at turn
    split at turn
    · rename_i past
      cases turn
      refine ⟨rfl, rfl, rfl, .inr ⟨past, ?_⟩, unfinished rfl, ?_⟩
      · simp only [coming, Supply.ahead, List.length_append, List.length_cons, List.length_nil]
        omega
      · simp only [Supply.left]
        omega
    · split at turn
      · cases turn
        refine ⟨rfl, rfl, rfl, .inl ?_, unfinished rfl, ?_⟩
        · simp only [coming, Supply.ahead, List.append_assoc, List.singleton_append]
        · simp only [Supply.left]
          omega
      · contradiction
  | hungUp result =>
    simp only [supplied?, Option.some.injEq] at turn
    subst turn
    refine ⟨rfl, rfl, rfl, .inl ?_, fun _ => ⟨rfl, rfl⟩, ?_⟩
    · cases result <;> rfl
    · exact Nat.one_pos
  | ended result => simp [supplied?] at turn

/-- The files are as they were at first, and the items still to come lead where the plain loop
leads. Whoever asks how the walk has ended has seen the last item. -/
structure Sound (x : Extractor) (selector : Selector) (fs : FileSystem)
    (goal : Except Failure Draft × List ParseRequest) (p : Pipeline) : Prop where
  files : p.files = fs
  leads : p.due x selector = goal
  joining : ∀ draft, p.intake = .joining draft → p.queue = [] ∧ p.supply.isOver = true

variable {fs : FileSystem} {goal : Except Failure Draft × List ParseRequest}

theorem Sound.supplied (sound : Sound x selector fs goal p) (turn : Supplied selector p q) :
    Sound x selector fs goal q ∧ q.left selector < p.left selector := by
  refine ⟨⟨turn.files.trans sound.files, ?_, ?_⟩, ?_⟩
  · rw [← sound.leads]
    rcases turn.coming with same | ⟨past, _⟩
    · simp only [due, turn.intake, turn.files, turn.requests, same]
    · cases ended : p.intake with
      | ended result => simp only [due, turn.intake, turn.requests, ended]
      | _ => simp [ended, Intake.isOver] at past
  · intro draft joins
    rw [turn.intake] at joins
    obtain ⟨empty, past⟩ := sound.joining draft joins
    obtain ⟨stays, queue⟩ := turn.past past
    exact ⟨queue.trans empty, stays⟩
  · have fewer : (q.coming selector).length ≤ (p.coming selector).length := by
      rcases turn.coming with same | ⟨_, fewer⟩
      · exact Nat.le_of_eq (congrArg List.length same)
      · exact fewer
    have less := turn.less
    simp only [left, turn.intake]
    omega

theorem Sound.received (sound : Sound x selector fs goal p) {draft : Draft}
    (waits : p.intake = .receiving draft) (turn : p.received? draft = some q) :
    Sound x selector fs goal q ∧ q.left selector < p.left selector := by
  obtain ⟨supply, queue, intake, files, requests⟩ := p
  cases waits
  cases queue with
  | nil =>
    simp only [received?] at turn
    split at turn
    · rename_i past
      cases turn
      refine ⟨⟨sound.files, sound.leads, fun _ _ => ⟨rfl, past⟩⟩, ?_⟩
      simp only [left, coming, Intake.left]
      omega
    · contradiction
  | cons item rest =>
    cases item with
    | _ =>
      simp only [received?, Option.some.injEq] at turn
      subst turn
      refine ⟨⟨sound.files, sound.leads, fun _ joins => by cases joins⟩, ?_⟩
      simp only [left, coming, Intake.left, List.length_append, List.length_cons]
      omega

theorem Sound.joined (sound : Sound x selector fs goal p) {draft : Draft}
    (waits : p.intake = .joining draft) (turn : p.joined? draft = some q) :
    Sound x selector fs goal q ∧ q.left selector < p.left selector := by
  obtain ⟨empty, _⟩ := sound.joining draft waits
  obtain ⟨supply, queue, intake, files, requests⟩ := p
  cases waits
  cases empty
  simp only [joined?] at turn
  split at turn
  · cases turn
    refine ⟨⟨sound.files, sound.leads, fun _ joins => by cases joins⟩, ?_⟩
    simp only [left, coming, Intake.left]
    omega
  · cases turn
    refine ⟨⟨sound.files, sound.leads, fun _ joins => by cases joins⟩, ?_⟩
    simp only [left, coming, Intake.left]
    omega
  · contradiction

theorem Sound.proceeded (sound : Sound x selector fs goal p) {intake : Intake}
    {requests : List ParseRequest}
    (leads : ({ p with intake, requests } : Pipeline).due x selector = goal)
    (open_ : ∀ draft, intake ≠ .joining draft) (less : intake.left < p.intake.left) :
    Sound x selector fs goal { p with intake, requests } ∧
      ({ p with intake, requests } : Pipeline).left selector < p.left selector := by
  refine ⟨⟨sound.files, leads, fun draft joins => absurd joins (open_ draft)⟩, ?_⟩
  simp only [left, coming]
  omega

theorem Sound.taken (sound : Sound x selector fs goal p) (turn : p.taken? x = some q) :
    Sound x selector fs goal q ∧ q.left selector < p.left selector := by
  have leads := sound.leads
  cases intake : p.intake with
  | receiving draft =>
    simp only [taken?, intake] at turn
    exact sound.received intake turn
  | reading draft c =>
    simp only [due, intake] at leads
    cases read : p.files.readBytes c.location with
    | error fault =>
      simp only [taken?, intake, read, Option.some.injEq] at turn
      subst turn
      rw [Extractor.takeUnread read] at leads
      exact sound.proceeded leads (fun _ joins => by cases joins) (by simp [intake, Intake.left])
    | ok content =>
      simp only [taken?, intake, read, Option.some.injEq] at turn
      subst turn
      rw [Extractor.takeRead read] at leads
      exact sound.proceeded leads (fun _ joins => by cases joins) (by simp [intake, Intake.left])
  | asking draft request =>
    simp only [due, intake] at leads
    simp only [taken?, intake, Option.some.injEq] at turn
    subst turn
    exact sound.proceeded leads (fun _ joins => by cases joins) (by simp [intake, Intake.left])
  | adding draft filename outcome =>
    simp only [due, intake] at leads
    cases added : draft.add filename outcome with
    | mk grown result =>
      rw [added] at leads
      cases result with
      | ok _ =>
        simp only [taken?, intake, added, Option.some.injEq] at turn
        subst turn
        exact sound.proceeded leads (fun _ joins => by cases joins) (by simp [intake, Intake.left])
      | error failure =>
        simp only [taken?, intake, added, Option.some.injEq] at turn
        subst turn
        exact sound.proceeded leads (fun _ joins => by cases joins) (by simp [intake, Intake.left])
  | joining draft =>
    simp only [taken?, intake] at turn
    exact sound.joined intake turn
  | ended result => simp [taken?, intake] at turn

theorem Sound.turned (quiet : selector.detector.Quiet) (sound : Sound x selector fs goal p)
    {party : Party} (turn : p.turn? x selector capacity party = some q) :
    Sound x selector fs goal q ∧ q.left selector < p.left selector := by
  cases party with
  | supply => exact sound.supplied (suppliedTurn quiet turn)
  | intake => exact sound.taken turn

theorem Sound.turns (quiet : selector.detector.Quiet) (sound : Sound x selector fs goal p)
    {parties : List Party} (run : p.turns? x selector capacity parties = some q) :
    Sound x selector fs goal q ∧ q.left selector + parties.length ≤ p.left selector := by
  induction parties generalizing p with
  | nil =>
    cases run
    exact ⟨sound, Nat.le_refl _⟩
  | cons party rest ih =>
    rw [turns?, List.foldlM_cons, Option.bind_eq_bind, Option.bind_eq_some_iff] at run
    obtain ⟨next, first, later⟩ := run
    obtain ⟨kept, less⟩ := sound.turned quiet first
    obtain ⟨ends, within⟩ := ih kept later
    rw [List.length_cons]
    exact ⟨ends, by omega⟩

theorem Sound.asked (sound : Sound x selector fs goal p) : p.requests <+: goal.2 := by
  rw [← sound.leads]
  cases intake : p.intake with
  | receiving draft => simpa only [due, intake] using x.takeAllAsks ..
  | reading draft c => simpa only [due, intake] using x.takeAllAsks ..
  | asking draft request =>
    simp only [due, intake]
    refine (List.prefix_append p.requests (x.requestsFor request)).trans ?_
    rcases draft.add request.filename (invoke (x.parser p.requests) x.limits request) with
      ⟨grown, _ | _⟩
    · exact List.prefix_rfl
    · exact x.takeAllAsks ..
  | adding draft filename outcome =>
    simp only [due, intake]
    rcases draft.add filename outcome with ⟨grown, _ | _⟩
    · exact List.prefix_rfl
    · exact x.takeAllAsks ..
  | joining draft => simpa only [due, intake] using x.takeAllAsks ..
  | ended result => simp only [due, intake, List.prefix_rfl]

theorem supplyRests (room : 1 ≤ capacity) (still : p.supplied? selector capacity = none) :
    (∃ result, p.supply = .ended result) ∨
      p.intake.isOver = false ∧ p.queue ≠ [] ∧ p.supply.isOver = false := by
  cases stage : p.supply with
  | starting =>
    simp only [supplied?, stage] at still
    split at still <;> contradiction
  | seeking selection =>
    simp only [supplied?, stage] at still
    split at still <;> contradiction
  | offering item selection =>
    simp only [supplied?, stage] at still
    split at still
    · contradiction
    · rename_i attended
      split at still
      · contradiction
      · rename_i full
        refine .inr ⟨by simpa using attended, ?_, rfl⟩
        intro empty
        rw [empty, List.length_nil] at full
        omega
  | hungUp result => simp [supplied?, stage] at still
  | ended result => exact .inl ⟨result, rfl⟩

theorem Sound.goesOn (sound : Sound x selector fs goal p) (room : 1 ≤ capacity)
    (still : ∀ party, p.turn? x selector capacity party = none) :
    p.intake.isOver = true ∧ ∃ result, p.supply = .ended result := by
  have rests := supplyRests room (still .supply)
  have intake := still .intake
  simp only [turn?] at intake
  cases stage : p.intake with
  | receiving draft =>
    simp only [taken?, stage, received?] at intake
    split at intake
    · contradiction
    · contradiction
    · rename_i empty
      split at intake
      · contradiction
      · rename_i attended
        rcases rests with ⟨result, ended⟩ | ⟨_, filled, _⟩
        · simp [ended, Supply.isOver] at attended
        · exact absurd empty filled
  | reading draft c =>
    simp only [taken?, stage] at intake
    split at intake <;> contradiction
  | asking draft request => simp [taken?, stage] at intake
  | adding draft filename outcome =>
    simp only [taken?, stage] at intake
    split at intake <;> contradiction
  | joining draft =>
    -- the queue is empty, so that the walking party rests only when it has ended
    obtain ⟨empty, past⟩ := sound.joining draft stage
    rcases rests with ⟨result, ended⟩ | ⟨_, filled, _⟩
    · cases result <;> simp [taken?, stage, joined?, ended] at intake
    · exact absurd empty filled
  | ended result =>
    rcases rests with ended | ⟨attended, _, _⟩
    · exact ⟨rfl, ended⟩
    · simp [stage, Intake.isOver] at attended

end

end Pipeline

namespace Extractor

end Extractor

end SourceModels
