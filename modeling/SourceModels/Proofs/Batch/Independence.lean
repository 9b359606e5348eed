import SourceModels.Proofs.Batch.Alone

/-! A batch of repositories that have nothing to do with each other: whatever turns they take, each of
them ends as it would alone. Only a model's name that is too long may be found out earlier. -/
namespace SourceModels
open FileSystem Identifier

namespace Extractor

section
variable {x : Extractor} {repositories : List String} {output repository : String}
  {fs : FileSystem} {top : Location} {models : List (String × Bytes)} {stamps : Nat → Stamp}
  {batch next : Batch}

structure Ready (x : Extractor) (output : String) (stamps : Nat → Stamp) (fs : FileSystem)
    (top : Location) (files : FileSystem) (task : Task) (model : Model) : Prop where
  made : ∃ draft, (x.gather task.repository fs).result = .ok draft ∧
    x.preparing task.repository output top draft (stamps task.position) fs = .ok (some model)
  through : files.enterBelow top (plainNames (shards x.config.shardDepth (key task.repository))) =
    .ok ((plainNames (shards x.config.shardDepth (key task.repository))).reverse ++ top)

theorem Ready.later {files after : FileSystem} {task : Task} {model : Model}
    (ready : Ready x output stamps fs top files task model)
    (kept : ∀ location, files.content? location = some .directory →
      after.content? location = some .directory) :
    Ready x output stamps fs top after task model :=
  ⟨ready.made, enterBelowKept kept ready.through⟩

/-- What is known of a batch on its way: which models there are, and that each task has come to what
it would have come to with the files as they were at first. -/
structure Midway (x : Extractor) (repositories : List String) (output : String)
    (stamps : Nat → Stamp) (fs : FileSystem) (top : Location) (batch : Batch)
    (models : List (String × Bytes)) : Prop where
  accounted : batch.all.Perm (Batch.tasks repositories)
  filled : Filled x.config.shardDepth output top fs batch.files models
  writers : ∀ m ∈ models, ∃ e ∈ batch.finished, m.1 = key e.1.repository ∧ Wrote e.2
  written : ∀ e ∈ batch.finished, Wrote e.2 → ∃ draft model,
    (x.gather e.1.repository fs).result = .ok draft ∧
    draft.finalize e.1.repository (stamps e.1.position) = .ok model ∧
    (key e.1.repository, model.encode) ∈ models
  cleared : ∀ e ∈ batch.inFlight, e.2.pastCheck = true →
    x.isTaken (x.destination e.1.repository output) fs = .ok false
  gathered : ∀ task draft, (task, Phase.gathered draft) ∈ batch.inFlight →
    (x.gather task.repository fs).result = .ok draft
  prepared : ∀ task model, (task, Phase.prepared model) ∈ batch.inFlight →
    Ready x output stamps fs top batch.files task model
  results : ∀ e ∈ batch.finished, ∀ stamp, x.Fit output fs e.1.repository stamp →
    x.AsAlone output fs e.1.repository stamp e.2

namespace Midway

theorem first (separate : Separate x repositories output fs top) (stamps : Nat → Stamp) :
    Midway x repositories output stamps fs top (.ofRepositories repositories fs) [] where
  accounted := by rw [Batch.allAtFirst]
  filled := .refl separate.ground
  writers := by simp
  written := by simp [Batch.ofRepositories]
  cleared := by simp [Batch.ofRepositories]
  gathered := by simp [Batch.ofRepositories]
  prepared := by simp [Batch.ofRepositories]
  results := by simp [Batch.ofRepositories]

theorem keys (midway : Midway x repositories output stamps fs top batch models)
    (distinct : (repositories.map key).Nodup) :
    (batch.all.map fun task => key task.repository).Nodup := by
  have tasks : (Batch.tasks repositories).map (fun task => key task.repository) =
      repositories.map key := by
    rw [← Batch.tasksRepositories repositories, List.map_map, Batch.tasksRepositories]
    rfl
  rw [← tasks] at distinct
  exact (midway.accounted.map _).nodup_iff.mpr distinct

theorem apart (midway : Midway x repositories output stamps fs top batch models)
    (distinct : (repositories.map key).Nodup) {place : Nat} {task : Task} {phase : Phase}
    (found : batch.inFlight[place]? = some (task, phase)) :
    ∀ m ∈ models, m.1 ≠ key task.repository := by
  intro m inside same
  obtain ⟨e, ended, owner, _⟩ := midway.writers m inside
  have all := midway.keys distinct
  simp only [Batch.all, List.map_append] at all
  have both := (List.nodup_append.mp (List.nodup_append.mp all).2.1).2.2
  refine both (key task.repository) ?_ (key e.1.repository) ?_ (same.symm.trans owner)
  · exact List.mem_map_of_mem (List.mem_map_of_mem (List.mem_of_getElem? found))
  · exact List.mem_map_of_mem (List.mem_map_of_mem ended)

theorem inside (midway : Midway x repositories output stamps fs top batch models) {place : Nat}
    {task : Task} {phase : Phase} (found : batch.inFlight[place]? = some (task, phase)) :
    task.repository ∈ repositories :=
  Batch.tasksInside (flyingInside midway.accounted found)

variable (separate : Separate x repositories output fs top)
  (midway : Midway x repositories output stamps fs top batch models) {place : Nat} {task : Task}
  {phase : Phase} (found : batch.inFlight[place]? = some (task, phase))
include separate midway found

theorem gatherAlike :
    (x.gather task.repository batch.files).result = (x.gather task.repository fs).result :=
  gatherAside separate.links separate.steady midway.filled.aside separate.regular
    (separate.unreached _ (midway.inside found))

omit found in
theorem readied {draft : Draft} {progress : Progress} {after : FileSystem}
    {asked : List ParseRequest} (found : batch.inFlight[place]? = some (task, .gathered draft))
    (run : x.advance output stamps task (.gathered draft) batch.files = ⟨progress, after, asked⟩) :
    (x.gather task.repository fs).result = .ok draft ∧
      progress =
        .ofPrepared (x.preparing task.repository output top draft (stamps task.position) fs) ∧
      Filled x.config.shardDepth output top fs after models ∧
      (∀ location, batch.files.content? location = some .directory →
        after.content? location = some .directory) ∧
      ∀ model, x.preparing task.repository output top draft (stamps task.position) fs =
          .ok (some model) →
        Ready x output stamps fs top after task model := by
  obtain ⟨_, prepared, progress, done⟩ := gatheredAdvanced run
  have gathers := midway.gathered _ _ (List.mem_of_getElem? found)
  obtain ⟨made, prepares, filled, kept, through⟩ := prepareFilled separate.container
    midway.filled (separate.grounded _ (midway.inside found)) draft (stamps task.position)
  rw [done, Prod.mk.injEq] at prepares
  obtain ⟨rfl, same⟩ := prepares
  rw [same] at progress
  exact ⟨gathers, progress, filled, kept,
    fun model ready => ⟨⟨draft, gathers, ready⟩, through model ready⟩⟩

theorem reached {later : Phase} {after : FileSystem} {asked : List ParseRequest}
    (run : x.advance output stamps task phase batch.files = ⟨.reached later, after, asked⟩) :
    Filled x.config.shardDepth output top fs after models ∧
      (∀ location, batch.files.content? location = some .directory →
        after.content? location = some .directory) ∧
      x.isTaken (x.destination task.repository output) fs = .ok false ∧
      (∀ draft, later = .gathered draft → (x.gather task.repository fs).result = .ok draft) ∧
      ∀ model, later = .prepared model → Ready x output stamps fs top after task model := by
  cases phase with
  | waiting =>
    obtain ⟨kept, _, known⟩ := waitingAdvanced run
    have checked := checkedAlike separate (midway.inside found) midway.filled
      (midway.apart separate.distinct found)
    split at known
    · cases known
    · cases known
    · rename_i free
      cases known
      subst kept
      rcases checked with same | ⟨_, _, _, blocked⟩
      · exact ⟨midway.filled, fun _ held => held, same.symm.trans free, by simp, by simp⟩
      · rw [blocked] at free
        cases free
  | cleared =>
    obtain ⟨kept, _, known⟩ := clearedAdvanced run
    rw [gatherKeepsFiles separate.steady.quiet] at kept
    rw [midway.gatherAlike separate found] at known
    split at known
    · cases known
    · rename_i draft gathers
      cases known
      have free := midway.cleared _ (List.mem_of_getElem? found) rfl
      subst kept
      refine ⟨midway.filled, fun _ held => held, free, ?_, by simp⟩
      rintro draft ⟨⟩
      exact gathers
  | gathered draft =>
    obtain ⟨_, progress, filled, kept, ready⟩ := midway.readied separate found run
    have free := midway.cleared _ (List.mem_of_getElem? found) rfl
    rcases same : x.preparing task.repository output top draft (stamps task.position) fs with
      failure | _ | model <;> rw [same] at progress <;> cases progress
    refine ⟨filled, kept, free, by simp, ?_⟩
    rintro model ⟨⟩
    exact ready model same
  | prepared model =>
    obtain ⟨_, result, progress, _⟩ := preparedAdvanced run
    cases progress

theorem ended (fits : ∀ task ∈ Batch.tasks repositories,
      x.Fit output fs task.repository (stamps task.position))
    {result : Except Failure Outcome} {after : FileSystem} {asked : List ParseRequest}
    (run : x.advance output stamps task phase batch.files = ⟨.ended result, after, asked⟩) :
    (∀ stamp, x.Fit output fs task.repository stamp →
      x.AsAlone output fs task.repository stamp result) ∧
    (∀ location, batch.files.content? location = some .directory →
      after.content? location = some .directory) ∧
    (¬ Wrote result ∧ Filled x.config.shardDepth output top fs after models ∨
      Wrote result ∧ ∃ draft model, (x.gather task.repository fs).result = .ok draft ∧
        draft.finalize task.repository (stamps task.position) = .ok model ∧
        Filled x.config.shardDepth output top fs after
          ((key task.repository, model.encode) :: models)) := by
  have inside := midway.inside found
  have apart := midway.apart separate.distinct found
  cases phase with
  | waiting =>
    obtain ⟨rfl, _, known⟩ := waitingAdvanced run
    have unwritten : ¬ Wrote result := by
      rintro ⟨path, count, rfl⟩
      split at known <;> cases known
    refine ⟨fun stamp fit => ?_, fun _ held => held, .inl ⟨unwritten, midway.filled⟩⟩
    rcases checkedAlike separate inside midway.filled apart with
      same | ⟨keeps, long, free, blocked⟩
    · refine .inl ?_
      split at known
      · rename_i refused
        cases known
        exact (aloneRefused (same.symm.trans refused)).symm
      · rename_i taken
        cases known
        exact (aloneTaken (same.symm.trans taken)).symm
      · cases known
    · rw [blocked] at known
      cases known
      exact .inr ⟨keeps, long, rfl, longUnstored separate inside fit long free⟩
  | cleared =>
    obtain ⟨kept, _, known⟩ := clearedAdvanced run
    rw [gatherKeepsFiles separate.steady.quiet] at kept
    rw [midway.gatherAlike separate found] at known
    subst kept
    have free := midway.cleared _ (List.mem_of_getElem? found) rfl
    split at known
    · rename_i failure fails
      cases known
      refine ⟨fun stamp _ => .inl ?_, fun _ held => held,
        .inl ⟨by rintro ⟨path, count, ⟨⟩⟩, midway.filled⟩⟩
      exact (aloneFailed free fails).symm
    · cases known
  | gathered draft =>
    obtain ⟨gathers, progress, filled, kept, _⟩ := midway.readied separate found run
    have free := midway.cleared _ (List.mem_of_getElem? found) rfl
    have fit := fits task (flyingInside midway.accounted found)
    have alone : ∀ stamp, x.Fit output fs task.repository stamp →
        (x.extract task.repository output stamp fs).result =
          x.storing task.repository output top draft (stamps task.position) fs := by
      intro stamp other
      rw [aloneStored separate.steady.quiet free gathers, storedAlone separate inside other]
      exact storingStamped separate.ground draft other.token fit.token
    rcases same : x.preparing task.repository output top draft (stamps task.position) fs with
      failure | _ | model <;> rw [same] at progress <;> cases progress
    · refine ⟨fun stamp other => .inl ?_, kept, .inl ⟨by rintro ⟨path, count, ⟨⟩⟩, filled⟩⟩
      rw [alone stamp other, storing, same]
    · refine ⟨fun stamp other => .inl ?_, kept, .inl ⟨by rintro ⟨path, count, ⟨⟩⟩, filled⟩⟩
      rw [alone stamp other, storing, same]
  | prepared model =>
    -- the model was made ready among other files, none of which is in its way by now
    obtain ⟨_, ends, known, installed⟩ := preparedAdvanced run
    cases known
    have free := midway.cleared _ (List.mem_of_getElem? found) rfl
    obtain ⟨⟨draft, gathers, readied⟩, through⟩ :=
      midway.prepared _ _ (List.mem_of_getElem? found)
    have fit := fits task (flyingInside midway.accounted found)
    obtain ⟨later, installs, kept, changes⟩ := installFilled separate.container midway.filled
      (separate.grounded _ inside) apart fit model through
    rw [installed, Prod.mk.injEq] at installs
    rw [installs.1, installs.2]
    refine ⟨fun stamp other => .inl ?_, kept, changes.imp_right (And.imp_right fun fills =>
      ⟨draft, model, gathers, (preparedReady readied).1, fills⟩)⟩
    rw [aloneStored separate.steady.quiet free gathers, storedAlone separate inside other,
      storingStamped separate.ground draft other.token fit.token, storing, readied]

omit found in
theorem stepped (fits : ∀ task ∈ Batch.tasks repositories,
      x.Fit output fs task.repository (stamps task.position))
    (step : Stepped x output stamps batch next) :
    ∃ models, Midway x repositories output stamps fs top next models := by
  have accounted := step.accounted.trans midway.accounted
  cases step with
  | @started task rest pending room =>
    refine ⟨models, accounted, midway.filled, midway.writers, midway.written, ?_, ?_, ?_,
      midway.results⟩
    · intro e inside past
      rcases List.mem_append.mp inside with old | new
      · exact midway.cleared e old past
      · rw [List.mem_singleton.mp new] at past
        cases past
    · intro task draft inside
      rcases List.mem_append.mp inside with old | new
      · exact midway.gathered task draft old
      · cases List.mem_singleton.mp new
    · intro task model inside
      rcases List.mem_append.mp inside with old | new
      · exact midway.prepared task model old
      · cases List.mem_singleton.mp new
  | @reached place task phase later after asked found run =>
    obtain ⟨filled, kept, free, gathers, ready⟩ := midway.reached separate found run
    refine ⟨models, accounted, filled, midway.writers, midway.written, ?_, ?_, ?_,
      midway.results⟩
    · intro e inside past
      rcases List.mem_append.mp inside with old | new
      · exact midway.cleared e (List.mem_of_mem_eraseIdx old) past
      · rw [List.mem_singleton.mp new]
        exact free
    · intro task draft inside
      rcases List.mem_append.mp inside with old | new
      · exact midway.gathered task draft (List.mem_of_mem_eraseIdx old)
      · obtain ⟨rfl, rfl⟩ := Prod.mk.inj (List.mem_singleton.mp new)
        exact gathers draft rfl
    · intro task model inside
      rcases List.mem_append.mp inside with old | new
      · exact (midway.prepared task model (List.mem_of_mem_eraseIdx old)).later kept
      · obtain ⟨rfl, rfl⟩ := Prod.mk.inj (List.mem_singleton.mp new)
        exact ready model rfl
  | @ended place task phase result after asked found run =>
    obtain ⟨alone, kept, changes⟩ := midway.ended separate found fits run
    have results : ∀ e ∈ batch.finished ++ [(task, result)], ∀ stamp,
        x.Fit output fs e.1.repository stamp → x.AsAlone output fs e.1.repository stamp e.2 := by
      intro e inside
      rcases List.mem_append.mp inside with old | new
      · exact midway.results e old
      · rw [List.mem_singleton.mp new]
        exact alone
    have cleared := fun e (inside : e ∈ batch.inFlight.eraseIdx place) =>
      midway.cleared e (List.mem_of_mem_eraseIdx inside)
    have gathered := fun task draft
        (inside : (task, Phase.gathered draft) ∈ batch.inFlight.eraseIdx place) =>
      midway.gathered task draft (List.mem_of_mem_eraseIdx inside)
    have prepared := fun task model
        (inside : (task, Phase.prepared model) ∈ batch.inFlight.eraseIdx place) =>
      (midway.prepared task model (List.mem_of_mem_eraseIdx inside)).later kept
    rcases changes with ⟨unwritten, filled⟩ | ⟨wrote, draft, model, gathers, finalizes, filled⟩
    · refine ⟨models, accounted, filled, ?_, ?_, cleared, gathered, prepared, results⟩
      · intro m inside
        obtain ⟨e, finished, owner⟩ := midway.writers m inside
        exact ⟨e, List.mem_append_left _ finished, owner⟩
      · intro e inside writes
        rcases List.mem_append.mp inside with old | new
        · exact midway.written e old writes
        · rw [List.mem_singleton.mp new] at writes
          exact absurd writes unwritten
    · refine ⟨_, accounted, filled, ?_, ?_, cleared, gathered, prepared, results⟩
      · intro m inside
        rcases List.mem_cons.mp inside with rfl | old
        · exact ⟨_, List.mem_append_right _ (List.mem_singleton_self _), rfl, wrote⟩
        · obtain ⟨e, finished, owner⟩ := midway.writers m old
          exact ⟨e, List.mem_append_left _ finished, owner⟩
      · intro e inside writes
        rcases List.mem_append.mp inside with old | new
        · obtain ⟨draft, model, before, finalized, held⟩ := midway.written e old writes
          exact ⟨draft, model, before, finalized, List.mem_cons_of_mem _ held⟩
        · rw [List.mem_singleton.mp new]
          exact ⟨draft, model, gathers, finalizes, List.mem_cons_self⟩

end Midway

theorem wroteMeans {result : Except Failure Outcome} :
    Wrote result ↔ (Batch.writtenPath? result).isSome = true := by
  rcases result with failure | path | path | _ <;> simp [Wrote, Batch.writtenPath?]

theorem AsAlone.reported {stamp : Stamp} {result : Except Failure Outcome}
    (alike : x.AsAlone output fs repository stamp result) :
    Batch.writtenPath? result = Batch.writtenPath? (x.extract repository output stamp fs).result ∧
      Batch.skippedPath? result =
        Batch.skippedPath? (x.extract repository output stamp fs).result := by
  rcases alike with same | ⟨_, _, rfl, unwritten, unskipped⟩
  · rw [same]
    exact ⟨rfl, rfl⟩
  · exact ⟨unwritten.symm, unskipped.symm⟩

theorem AsAlone.wrote {stamp : Stamp} {result : Except Failure Outcome}
    (alike : x.AsAlone output fs repository stamp result) :
    Wrote result ↔ Wrote (x.extract repository output stamp fs).result := by
  rw [wroteMeans, wroteMeans, alike.reported.1]

namespace Midway

theorem reach (separate : Separate x repositories output fs top)
    (fits : ∀ task ∈ Batch.tasks repositories,
      x.Fit output fs task.repository (stamps task.position))
    {moves : List Move} {last : Batch}
    (run : x.moved? output stamps (.ofRepositories repositories fs) moves = some last) :
    ∃ models, Midway x repositories output stamps fs top last models := by
  refine @moved x output stamps
    (fun later => ∃ models, Midway x repositories output stamps fs top later models) ?_ _ _ _
    ⟨[], .first separate stamps⟩ run
  rintro middle next ⟨models, midway⟩ step
  exact midway.stepped separate fits step

section
variable (midway : Midway x repositories output stamps fs top batch models)
include midway

theorem finishedTasks (ends : batch.pending = [] ∧ batch.inFlight = []) :
    (batch.finished.map Prod.fst).Perm (Batch.tasks repositories) := by
  simpa [Batch.all, ends] using midway.accounted

theorem resultOf (ends : batch.pending = [] ∧ batch.inFlight = []) {task : Task}
    (inside : task ∈ Batch.tasks repositories) : ∃ result, (task, result) ∈ batch.finished := by
  obtain ⟨e, finished, rfl⟩ := finishesEach midway.accounted ends.1 ends.2 inside
  exact ⟨e.2, finished⟩

theorem content (distinct : (repositories.map key).Nodup) {task : Task}
    {result : Except Failure Outcome} (inside : (task, result) ∈ batch.finished) :
    ¬ Wrote result ∧ batch.files.content? (place x.config.shardDepth top (key task.repository)) =
        fs.content? (place x.config.shardDepth top (key task.repository)) ∨
      Wrote result ∧ ∃ draft model, (x.gather task.repository fs).result = .ok draft ∧
        draft.finalize task.repository (stamps task.position) = .ok model ∧
        batch.files.content? (place x.config.shardDepth top (key task.repository)) =
          some (.file model.encode) := by
  by_cases writes : Wrote result
  · obtain ⟨draft, model, gathers, finalizes, held⟩ := midway.written _ inside writes
    have there := midway.filled.held _ held
    exact .inr ⟨writes, draft, model, gathers, finalizes, there⟩
  · refine .inl ⟨writes, midway.filled.target fun m among same => ?_⟩
    obtain ⟨e, finished, owner, wrote⟩ := midway.writers m among
    have keys := midway.keys distinct
    simp only [Batch.all, List.map_append, List.map_map] at keys
    have once := (List.nodup_append.mp (List.nodup_append.mp keys).2.1).2.1
    have one := List.inj_on_of_nodup_map once finished inside (owner.symm.trans same)
    rw [one] at wrote
    exact writes wrote

theorem listed {β : Type} (ends : batch.pending = [] ∧ batch.inFlight = []) {known : Nat → Stamp}
    (fits : ∀ task ∈ Batch.tasks repositories,
      x.Fit output fs task.repository (known task.position))
    (row : Task × Except Failure Outcome → Option β)
    (agree : ∀ task ∈ Batch.tasks repositories, ∀ result,
      x.AsAlone output fs task.repository (known task.position) result →
      row (task, result) =
        row (task, (x.extract task.repository output (known task.position) fs).result)) :
    (batch.finished.filterMap row).Perm ((Batch.tasks repositories).filterMap fun task =>
      row (task, (x.extract task.repository output (known task.position) fs).result)) := by
  have finished := midway.finishedTasks ends
  have same : ∀ e ∈ batch.finished, row e =
      row (e.1, (x.extract e.1.repository output (known e.1.position) fs).result) := by
    intro e inside
    have among := finished.mem_iff.mp (List.mem_map_of_mem inside)
    exact agree e.1 among e.2 (midway.results e inside _ (fits _ among))
  rw [List.filterMap_congr same]
  have rows := finished.filterMap fun task =>
    row (task, (x.extract task.repository output (known task.position) fs).result)
  rwa [List.filterMap_map] at rows

end

theorem alike {others : Nat → Stamp} {other : Batch} {models' : List (String × Bytes)}
    (separate : Separate x repositories output fs top)
    (fits : ∀ task ∈ Batch.tasks repositories,
      x.Fit output fs task.repository (stamps task.position))
    (midway : Midway x repositories output stamps fs top batch models)
    (ends : batch.pending = [] ∧ batch.inFlight = [])
    (midway' : Midway x repositories output others fs top other models')
    (ends' : other.pending = [] ∧ other.inFlight = []) {task : Task}
    (inside : task ∈ Batch.tasks repositories) :
    AlikeModels (batch.files.readBytes (x.destination task.repository output)).toOption
      (other.files.readBytes (x.destination task.repository output)).toOption := by
  obtain ⟨result, finished⟩ := midway.resultOf ends inside
  obtain ⟨result', finished'⟩ := midway'.resultOf ends' inside
  have member := Batch.tasksInside inside
  have below := @destinationBelow task.repository output x.config.shardDepth
    (separate.grounded _ member)
  have wrote : Wrote result ↔ Wrote result' :=
    (midway.results _ finished _ (fits task inside)).wrote.trans
      (midway'.results _ finished' _ (fits task inside)).wrote.symm
  have reads := midway.filled.ground.readBelow below fun _ shard =>
    Nat.le_of_lt (shardsShorter shard)
  have reads' := midway'.filled.ground.readBelow below fun _ shard =>
    Nat.le_of_lt (shardsShorter shard)
  rw [destination, reads, reads']
  rcases midway.content separate.distinct finished with
    ⟨unwritten, held⟩ | ⟨writes, draft, model, gathers, finalizes, held⟩ <;>
  rcases midway'.content separate.distinct finished' with
    ⟨unwritten', held'⟩ | ⟨writes', draft', model', gathers', finalizes', held'⟩
  · rw [place] at held held'
    exact .inl (by rw [held, held'])
  · exact absurd (wrote.mpr writes') unwritten
  · exact absurd (wrote.mp writes) unwritten'
  · obtain rfl : draft = draft' := Except.ok.inj (gathers.symm.trans gathers')
    have models := Draft.finalizedAlike finalizes finalizes'
    rw [place] at held held'
    rw [held, held', heldBytes, heldBytes]
    cases checkText (Identifier.destination task.repository output x.config.shardDepth) with
    | error fault =>
      rw [Except.toOption, Option.bind_none, Option.bind_none]
      exact .inl rfl
    | ok _ =>
      rw [Except.toOption, Option.bind_some, Option.bind_some]
      split
      · exact .inl rfl
      · exact models

end Midway

def withWorkers (x : Extractor) (workers : Nat) : Extractor :=
  { x with config := { x.config with workers } }

theorem collectWorkers (x : Extractor) (workers : Nat) (selector : Selector) (walk : Walk)
    (counts : SelectionCounts) (draft : Draft) (requests : List ParseRequest) (fs : FileSystem) :
    (x.withWorkers workers).collect selector walk counts draft requests fs =
      x.collect selector walk counts draft requests fs := by
  induction walk generalizing counts draft requests fs with
  | finished => rfl
  | failed path fault => rfl
  | found entry resume ih =>
    have added : ∀ earlier draft c fs,
        (x.withWorkers workers).addFile earlier draft c fs = x.addFile earlier draft c fs :=
      fun _ _ _ _ => rfl
    simp only [collect, added, ih]

theorem gatherWorkers (x : Extractor) (workers : Nat) (repository : String) (fs : FileSystem) :
    (x.withWorkers workers).gather repository fs = x.gather repository fs := by
  have selects : (x.withWorkers workers).selector repository = x.selector repository := rfl
  simp only [gather, collectAll, selects, collectWorkers]

theorem extractWorkers (x : Extractor) (workers : Nat) (repository output : String) (stamp : Stamp)
    (fs : FileSystem) : (x.withWorkers workers).extract repository output stamp fs =
      x.extract repository output stamp fs := by
  have checks : ∀ destination fs,
      (x.withWorkers workers).isTaken destination fs = x.isTaken destination fs := fun _ _ => rfl
  have stores : ∀ destination draft fs,
      (x.withWorkers workers).store repository destination draft stamp fs =
        x.store repository destination draft stamp fs := fun _ _ _ => rfl
  have leads : (x.withWorkers workers).destination repository output =
      x.destination repository output := rfl
  simp only [extract, extractTo, gatherWorkers, checks, stores, leads]

theorem preparingWorkers (x : Extractor) (workers : Nat) (repository output : String)
    (top : Location) (draft : Draft) (stamp : Stamp) (fs : FileSystem) :
    (x.withWorkers workers).preparing repository output top draft stamp fs =
      x.preparing repository output top draft stamp fs := by
  have leads : (x.withWorkers workers).destination repository output =
      x.destination repository output := rfl
  have deep : (x.withWorkers workers).config.shardDepth = x.config.shardDepth := rfl
  simp only [preparing, leads, deep]

theorem Midway.ofWorkers {workers : Nat}
    (midway : Midway (x.withWorkers workers) repositories output stamps fs top batch models) :
    Midway x repositories output stamps fs top batch models where
  accounted := midway.accounted
  filled := midway.filled
  writers := midway.writers
  written := by
    simpa only [gatherWorkers] using midway.written
  cleared := midway.cleared
  gathered := by
    simpa only [gatherWorkers] using midway.gathered
  prepared := by
    intro task model inside
    obtain ⟨draft, gathers, readied⟩ := (midway.prepared task model inside).made
    rw [gatherWorkers] at gathers
    rw [preparingWorkers] at readied
    exact ⟨⟨draft, gathers, readied⟩, (midway.prepared task model inside).through⟩
  results := by
    intro e inside stamp fit
    have alike := midway.results e inside stamp ⟨fit.token, fit.fresh⟩
    unfold AsAlone at alike ⊢
    rwa [extractWorkers] at alike

/-- However the tasks take turns they all can end, and each of them ends as it does alone, with the
same models and lists as one after another. Only for a model file name that is too long, looking for
the model may fail where otherwise storing it, or already the gathering, does. -/
theorem batchAsAlone (separate : Separate x repositories output fs top) {others : Nat → Stamp}
    (fits : ∀ task ∈ Batch.tasks repositories,
      x.Fit output fs task.repository (stamps task.position) ∧
        x.Fit output fs task.repository (others task.position))
    {moves : List Move}
    (run : x.moved? output stamps (.ofRepositories repositories fs) moves = some batch) :
    (∃ later last, x.moved? output stamps batch later = some last ∧
      last.pending = [] ∧ last.inFlight = []) ∧
    (∀ task result, (task, result) ∈ batch.finished → ∀ stamp,
      x.Fit output fs task.repository stamp →
      x.AsAlone output fs task.repository stamp result) ∧
    (batch.pending = [] ∧ batch.inFlight = [] →
      let single := (x.withWorkers 1).batch repositories output others fs
      (batch.finished.map Prod.fst).Perm (Batch.tasks repositories) ∧
      (∀ repository ∈ repositories,
        AlikeModels (batch.files.readBytes (x.destination repository output)).toOption
          (single.files.readBytes (x.destination repository output)).toOption) ∧
      batch.report.written.Perm single.result.written ∧
      batch.report.skipped.Perm single.result.skipped ∧
      (x.config.overwrite = true ∨ (∀ repository ∈ repositories,
          byteLength (modelFileName (key repository)) ≤ maxNameBytes) →
        batch.report.empty.Perm single.result.empty ∧
        batch.report.failed.Perm single.result.failed)) := by
  obtain ⟨models, midway⟩ := Midway.reach separate (fun task inside => (fits task inside).1) run
  refine ⟨?_, fun task result inside => midway.results _ inside, fun ends => ?_⟩
  · obtain ⟨later, moved, done⟩ := settled x output stamps _ (Nat.le_refl batch.remaining)
    exact ⟨later, _, moved, done⟩
  obtain ⟨turns, single, run', pending, inFlight, same⟩ :=
    batchMoved (x.withWorkers 1) repositories output others fs
  have separate' : Separate (x.withWorkers 1) repositories output fs top :=
    ⟨separate.links, separate.steady, separate.container, separate.regular, separate.found,
      separate.unlinked, separate.distinct, separate.grounded, separate.unreached⟩
  obtain ⟨models', reached⟩ := Midway.reach separate'
    (fun task inside => ⟨(fits task inside).2.token, (fits task inside).2.fresh⟩) run'
  have midway' := reached.ofWorkers
  have ends' := And.intro pending inFlight
  have fit := fun task inside => (fits task inside).1
  have rows : ∀ {β : Type} (row : Task × Except Failure Outcome → Option β),
      (∀ task ∈ Batch.tasks repositories, ∀ result,
        x.AsAlone output fs task.repository (stamps task.position) result →
        row (task, result) =
          row (task, (x.extract task.repository output (stamps task.position) fs).result)) →
      (batch.finished.filterMap row).Perm (single.finished.filterMap row) :=
    fun row agree => (midway.listed ends fit row agree).trans (midway'.listed ends' fit row agree).symm
  simp only [same, Batch.reportLists]
  refine ⟨midway.finishedTasks ends, fun repository member => ?_,
    rows _ fun _ _ _ alone => alone.reported.1, rows _ fun _ _ _ alone => alone.reported.2,
    fun certain => ?_⟩
  · rw [← Batch.tasksRepositories repositories] at member
    obtain ⟨task, inside, rfl⟩ := List.mem_map.mp member
    exact midway.alike separate fit ends midway' ends' inside
  · have equal : ∀ task ∈ Batch.tasks repositories, ∀ result,
        x.AsAlone output fs task.repository (stamps task.position) result →
        result = (x.extract task.repository output (stamps task.position) fs).result := by
      rintro task inside result (alike | ⟨keeps, long, _⟩)
      · exact alike
      · rcases certain with overwrites | short
        · rw [keeps] at overwrites
          cases overwrites
        · exact absurd long (Nat.not_lt.mpr (short _ (Batch.tasksInside inside)))
    exact ⟨rows _ fun task inside result alone => by rw [equal task inside result alone],
      rows _ fun task inside result alone => by rw [equal task inside result alone]⟩

end

def siblingFiles (a b : String) : FileSystem where
  entries := [([a], .directory), (["x.py", a], .file [0x78]), ([b], .directory),
    (["x.py", b], .file [0x78]), (["out"], .directory)]
  current := []

def siblingExtractor (workers : Nat) : Extractor :=
  .new { shardDepth := 1, workers } fun _ => .tree (.leaf "module")

def siblingToken (position : Nat) : String :=
  String.ofList (List.replicate 32 (if position = 0 then '0' else '1'))

def siblingStamps (seconds position : Nat) : Stamp :=
  ⟨.ofEpoch seconds 0, .zero, siblingToken position⟩

structure Sibling (name : String) : Prop where
  entry : EntryName name
  elsewhere : name ≠ "out"
  visible : name.toList.head? ≠ some '.'
  key : Identifier.key name = name
  names : FileSystem.names (trim name) = [name]

section
variable {a b : String} {workers : Nat}

theorem siblingsRegular (first : Sibling a) (second : Sibling b) (apart : a ≠ b) :
    Regular (siblingFiles a b) where
  once := by
    simp [siblingFiles, apart, first.elsewhere, second.elsewhere]
  names := by
    have file : EntryName "x.py" := by decide
    have out : EntryName "out" := by decide
    simp [siblingFiles, first.entry, second.entry, file, out]
  inside := by
    have other : (b == a) = false := beq_eq_false_iff_ne.mpr apart.symm
    simp [siblingFiles, content?, List.lookup_cons, other]
  current := rfl

theorem siblingsStraight (a b : String) (location : Location) (target : String) :
    (siblingFiles a b).content? location ≠ some (.link target) := by
  intro linked
  cases location with
  | nil => cases linked
  | cons name directory =>
    have entry := heldEntry linked
    simp [siblingFiles] at entry

theorem siblingsSeparate (first : Sibling a) (second : Sibling b) (apart : a ≠ b) (workers : Nat) :
    Separate (siblingExtractor workers) [a, b] "out" (siblingFiles a b) ["out"] := by
  have regular := siblingsRegular first second apart
  have both : ∀ name ∈ [a, b], Sibling name := by
    simp [first, second]
  refine ⟨rfl, ⟨_, fun _ _ _ => rfl⟩, rfl, regular, ?_, fun _ _ => siblingsStraight a b _ _,
    ?_, ?_, ?_⟩
  · have held : (siblingFiles a b).content? ["out"] = some .directory :=
      regular.held.mpr (by simp [siblingFiles])
    have walked := @Regular.walkedTo _ regular [] "out" [] _ held (by simp) true maxLinks
    have checked : checkPath "out" = .ok () := rfl
    have short : checkLength "out" = .ok () := by decide
    have parts : components "out" = ["out"] := by decide
    have start : (siblingFiles a b).startOf "out" = [] := rfl
    rw [find, checked, short, parts, start]
    exact walked
  · simp [first.key, second.key, apart]
  · intro name inside dots
    obtain ⟨rest, whole⟩ := (both name inside).key ▸ dots
    exact (both name inside).visible (by simp [← whole])
  · intro name inside
    have sibling := both name inside
    have start : (siblingFiles a b).startOf (trim name) = [] := by
      simp only [startOf, siblingFiles, ite_self]
    have bare : plainNames [name] = [name] := by simp [plainNames, sibling.entry.named.1]
    refine unreachedStraight (siblingsStraight a b) ?_ ?_
    · simpa [sibling.names] using sibling.entry.named.2.symm
    · rw [sibling.names, start, bare]
      have alone : ∀ one other : String, [one] <:+ [other] → one = other := by
        rintro one other ⟨_ | ⟨_, _⟩, same⟩ <;> simp_all
      exact ⟨fun within => sibling.elsewhere (alone _ _ within),
        fun within => sibling.elsewhere (alone _ _ within).symm⟩

theorem siblingsFit (first : Sibling a) (second : Sibling b) (workers seconds : Nat) :
    ∀ task ∈ Batch.tasks [a, b], (siblingExtractor workers).Fit "out" (siblingFiles a b)
      task.repository (siblingStamps seconds task.position) := by
  intro task inside
  have token : Store.Token (siblingToken task.position) := by
    unfold siblingToken
    split <;> exact ⟨by decide, by decide, by decide⟩
  refine ⟨token, token.plain, ?_⟩
  -- the name of a staging file starts with a dot
  have hidden : ∀ path token, (Store.stagingName path token).toList.head? = some '.' := by
    simp [Store.stagingName]
  have visible : ∀ e ∈ (siblingFiles a b).entries, ∀ name, e.1.head? = some name →
      name.toList.head? ≠ some '.' := by
    simp [siblingFiles, first.visible, second.visible]
  exact fun e among same => visible e among _ same (hidden _ _)

end

def siblingTurns : List Move :=
  [.start, .start, .advance 0, .advance 0, .advance 0, .advance 0, .advance 0, .advance 0,
    .advance 0, .advance 0]

theorem siblingsAsAlone :
    ∃ batch, (siblingExtractor 2).moved? "out" (siblingStamps 0)
        (.ofRepositories ["ka", "kb"] (siblingFiles "ka" "kb")) siblingTurns = some batch ∧
      batch.report = { written := ["out/k/source_ka.asdf", "out/k/source_kb.asdf"] } ∧
      AlikeModels (batch.files.readBytes "out/k/source_ka.asdf").toOption
        (((siblingExtractor 1).batch ["ka", "kb"] "out" (siblingStamps 1)
          (siblingFiles "ka" "kb")).files.readBytes "out/k/source_ka.asdf").toOption := by
  have ends : ((siblingExtractor 2).moved? "out" (siblingStamps 0)
      (.ofRepositories ["ka", "kb"] (siblingFiles "ka" "kb")) siblingTurns).map
        (fun batch => (batch.report, batch.pending, batch.inFlight.length)) =
      some ({ written := ["out/k/source_ka.asdf", "out/k/source_kb.asdf"] }, [], 0) := by
    decide +kernel
  obtain ⟨batch, run, known⟩ := Option.map_eq_some_iff.mp ends
  simp only [Prod.mk.injEq, List.length_eq_zero_iff] at known
  obtain ⟨report, pending, inFlight⟩ := known
  have first : Sibling "ka" := ⟨by decide, by decide, by decide, by decide, by decide⟩
  have second : Sibling "kb" := ⟨by decide, by decide, by decide, by decide, by decide⟩
  have fits := siblingsFit first second 2
  obtain ⟨_, _, same⟩ := batchAsAlone (siblingsSeparate first second (by decide) 2)
    (fun task inside => ⟨fits 0 task inside, fits 1 task inside⟩) run
  obtain ⟨_, models, _⟩ := same ⟨pending, inFlight⟩
  exact ⟨batch, run, report, models "ka" (by decide)⟩

def longChars : List Char := List.replicate 244 'k'

def longName : String := String.ofList longChars

theorem longText : longName.toList = longChars := String.toList_ofList

theorem longUnlike {other : String} (unlike : longChars ≠ other.toList) : longName ≠ other := by
  rintro rfl
  exact unlike longText.symm

theorem longWhole : keyChars longChars = longChars ∧ Text.dropEnd isTrailing longChars = longChars ∧
    Path.parts longChars = [longChars] ∧ (Bytes.ofChars longChars).length = 244 := by
  decide +kernel

theorem longPlain {c : Char} (other : c ≠ 'k') : c ∉ longChars :=
  fun inside => other (List.eq_of_mem_replicate inside)

theorem longBytes (front back : List Char) : (Bytes.ofChars (front ++ longChars ++ back)).length =
    (Bytes.ofChars front).length + 244 + (Bytes.ofChars back).length := by
  have length : (longChars.flatMap String.utf8EncodeChar).length = 244 := longWhole.2.2.2
  simp only [Bytes.ofChars, List.flatMap_append, List.length_append, length]

theorem longSibling : Sibling longName where
  entry := by
    refine ⟨?_, ?_, ?_, ?_, ?_⟩
    · rw [longText]
      decide
    · rw [longText]
      exact longPlain (by decide)
    · rw [longText]
      exact longPlain (by decide)
    · constructor <;> exact longUnlike (by decide)
    · rw [byteLength, Utf8.ofTextChars, longText, longWhole.2.2.2]
      decide
  elsewhere := longUnlike (by decide)
  visible := by
    rw [longText]
    decide
  key := by
    rw [key, longText, longWhole.1]
    rfl
  names := by
    obtain ⟨_, trimmed, parts, _⟩ := longWhole
    rw [trim, Text.trimEndWhile, longText, trimmed, FileSystem.names, String.toList_ofList, parts]
    rfl

theorem longShards : plainNames (shards 1 (Identifier.key longName)) = ["k"] := by
  rw [longSibling.key, shards, longText]
  decide

theorem longFileName : maxNameBytes < byteLength (modelFileName longName) := by
  rw [byteLength, Utf8.ofTextChars, modelFileName, String.toList_append, String.toList_append,
    longText, longBytes]
  decide

theorem longChecked : checkText (Identifier.destination longName "out" 1) = .ok () := by
  have chars : (Identifier.destination longName "out" 1).toList =
      "out/k/source_".toList ++ longChars ++ ".asdf".toList := by
    rw [Identifier.destination, longSibling.key, shards, longText]
    simp only [modelFileName, Path.join, String.toList_ofList, String.toList_append, longText]
    rfl
  have noNul : ("out/k/source_".toList ++ longChars ++ ".asdf".toList).contains '\x00' = false := by
    have plain : '\x00' ∉ longChars := longPlain (by decide)
    simp [plain]
  have filled : Identifier.destination longName "out" 1 ≠ "" := by
    intro empty
    rw [empty] at chars
    cases chars
  refine checkTextOk.mpr ⟨?_, ?_⟩
  · rw [checkPath, chars, noNul, if_neg (by decide), if_neg filled]
  · rw [checkLength, byteLength, Utf8.ofTextChars, chars, longBytes]
    decide

theorem longExistence {files : FileSystem} (ground : Ground files "out" ["out"]) :
    (files.content? ["k", "out"] = none →
      files.tryExists (Identifier.destination longName "out" 1) = .ok false) ∧
    (files.content? ["k", "out"] = some .directory →
      files.tryExists (Identifier.destination longName "out" 1) = .error .nameTooLong) := by
  have hidden : ¬ ['.', '.'] <+: (Identifier.key longName).toList := by
    rw [longSibling.key, longText]
    decide
  have short : ¬ maxNameBytes < byteLength "k" := by decide
  rw [ground.existsBelow (destinationBelow hidden), longChecked, longShards, longSibling.key]
  refine ⟨fun free => ?_, fun held => ?_⟩
  · rw [Except.bind, enterBelow, if_neg short, free]
    rfl
  · rw [Except.bind, enterBelow, if_neg short, held]
    simp only [enterBelow, Except.bind, if_pos longFileName, unfoundFalse]

theorem lastRefused {x : Extractor} {output : String} (stamps : Nat → Stamp) {batch : Batch}
    {task : Task} {failure : Failure} (pending : batch.pending = [task])
    (inFlight : batch.inFlight = [])
    (refused : x.isTaken (x.destination task.repository output) batch.files = .error failure) :
    x.moved? output stamps batch [.start, .advance 0] =
      some { batch with
        pending := [], inFlight := [], finished := batch.finished ++ [(task, .error failure)] } := by
  have room : 0 < x.atOnce := Nat.lt_of_lt_of_le Nat.one_pos (Nat.le_max_right ..)
  have started : x.step? output stamps batch .start =
      some { batch with pending := [], inFlight := [(task, .waiting)] } := by
    simp only [step?, pending, inFlight, List.length_nil, if_pos room, List.nil_append]
  have fails : x.advance output stamps task .waiting batch.files =
      ⟨.ended (.error failure), batch.files, []⟩ := by
    unfold advance
    dsimp only
    rw [refused]
  rw [moved?, List.foldlM_cons, started]
  simp only [Option.bind_eq_bind, Option.bind_some, List.foldlM_cons, List.foldlM_nil, step?,
    List.getElem?_cons_zero, fails, List.eraseIdx_cons_zero, List.append_nil, Option.pure_def]

def longTurns : List Move :=
  [.start, .advance 0, .advance 0, .advance 0, .advance 0, .start, .advance 0]

theorem longNameFoundEarly :
    Separate (siblingExtractor 1) ["k", longName] "out" (siblingFiles "k" longName) ["out"] ∧
    (∀ task ∈ Batch.tasks ["k", longName], (siblingExtractor 1).Fit "out"
      (siblingFiles "k" longName) task.repository (siblingStamps 0 task.position)) ∧
    ∃ batch, (siblingExtractor 1).moved? "out" (siblingStamps 0)
        (.ofRepositories ["k", longName] (siblingFiles "k" longName)) longTurns = some batch ∧
      batch.pending = [] ∧ batch.inFlight = [] ∧
      (⟨1, longName⟩, .error (.io .nameTooLong)) ∈ batch.finished ∧
      ((siblingExtractor 1).extract longName "out" (siblingStamps 0 1)
        (siblingFiles "k" longName)).result ≠ .error (.io .nameTooLong) := by
  have first : Sibling "k" := ⟨by decide, by decide, by decide, by decide, by decide⟩
  have separate := siblingsSeparate first longSibling (longUnlike (by decide)).symm 1
  have fits := siblingsFit first longSibling 1 0
  have begun : ((siblingExtractor 1).moved? "out" (siblingStamps 0)
      (.ofRepositories ["k", longName] (siblingFiles "k" longName)) (longTurns.take 5)).map
        (fun batch => (batch.pending, batch.inFlight.length, batch.finished.length,
          batch.files.content? ["k", "out"])) =
      some ([⟨1, longName⟩], 0, 1, some .directory) := by
    decide +kernel
  obtain ⟨middle, run, known⟩ := Option.map_eq_some_iff.mp begun
  simp only [Prod.mk.injEq, List.length_eq_zero_iff] at known
  obtain ⟨pending, inFlight, _, held⟩ := known
  obtain ⟨models, midway⟩ := Midway.reach separate fits run
  have late := (longExistence midway.filled.ground).2 held
  have early := (longExistence separate.ground).1 (by simp [siblingFiles, content?, List.lookup_cons])
  have checks : ∀ files, (siblingExtractor 1).isTaken
      ((siblingExtractor 1).destination longName "out") files =
      (files.tryExists (Identifier.destination longName "out" 1)).mapError .io := fun _ => rfl
  have refused := lastRefused (siblingStamps 0) pending inFlight (by rw [checks, late]; rfl)
  have free : (siblingExtractor 1).isTaken ((siblingExtractor 1).destination longName "out")
      (siblingFiles "k" longName) = .ok false := by
    rw [checks, early]
    rfl
  have whole : longTurns = longTurns.take 5 ++ [.start, .advance 0] := rfl
  have ends : (siblingExtractor 1).moved? "out" (siblingStamps 0)
      (.ofRepositories ["k", longName] (siblingFiles "k" longName)) longTurns =
      (siblingExtractor 1).moved? "out" (siblingStamps 0) middle [.start, .advance 0] := by
    rw [whole, moved?, List.foldlM_append]
    rw [moved?] at run
    rw [run]
    rfl
  exact ⟨separate, fits, _, ends.trans refused, rfl, rfl,
    List.mem_append_right _ (List.mem_singleton_self _), aloneFailure longName "out" _ _ free⟩

end Extractor

end SourceModels
