import SourceModels.Proofs.Batch.Files
import SourceModels.Proofs.Extraction.Fidelity
import SourceModels.Proofs.FileSystem.Aside
import SourceModels.Proofs.Identifier.Places

/-! An output directory that has been filled with models meanwhile: for a repository whose own model
is not among them, looking for it and storing it ends as it would have before. -/
namespace SourceModels
open FileSystem Identifier

theorem Identifier.placeApart {depth : Nat} {top : Location} {key other : String}
    (same : place depth top key = place depth top other) : key = other :=
  fileNameKey (List.cons.inj same).1

/-- Below the output directory there are these models and more directories, and all else is as it
was. -/
structure Filled (depth : Nat) (output : String) (top : Location) (before after : FileSystem)
    (models : List (String × Bytes)) : Prop where
  aside : Aside top before after
  ground : Ground after output top
  changed : ∀ location, after.content? location = before.content? location ∨
    (before.content? location = none ∧ after.content? location = some .directory ∧
      ShardPlace top location) ∨
    ∃ m ∈ models, location = place depth top m.1
  held : ∀ m ∈ models, after.content? (place depth top m.1) = some (.file m.2)

namespace Filled

variable {depth : Nat} {output : String} {top : Location} {before after later : FileSystem}
  {models : List (String × Bytes)} {identifier key : String}

theorem refl (ground : Ground before output top) : Filled depth output top before before [] where
  aside := ⟨.refl .., fun _ held => held⟩
  ground := ground
  changed := fun _ => .inl rfl
  held := by simp

theorem directoriesMade (filled : Filled depth output top before after models)
    (made : MadeBelow after later top (plainNames (shards depth key))) :
    Filled depth output top before later models where
  aside := ⟨filled.aside.outside.trans made.outside,
    fun location held => made.directories (filled.aside.directories location held)⟩
  ground := filled.ground.made made
  changed := by
    intro location
    rcases made.added location with same | ⟨free, directory, front, name, within, here, _⟩
    · rw [same]
      exact filled.changed location
    · have shard : ShardPlace top location :=
        ⟨front.reverse, name, here, by simpa using shardLevel within⟩
      rcases filled.changed location with same | ⟨_, other, _⟩ | ⟨m, _, rfl⟩
      · exact .inr (.inl ⟨same ▸ free, directory, shard⟩)
      · rw [free] at other
        cases other
      · exact (placeUnlikeShard _ _ _ shard).elim
  held := fun m inside => made.directories (filled.held m inside)

theorem modelPut (filled : Filled depth output top before after models)
    (apart : ∀ m ∈ models, m.1 ≠ key)
    (up : after.content? ((plainNames (shards depth key)).reverse ++ top) = some .directory)
    (clear : after.content? (place depth top key) ≠ some .directory) (data : Bytes) :
    Filled depth output top before (after.put (place depth top key) (.file data))
      ((key, data) :: models) where
  aside := by
    refine ⟨filled.aside.outside.trans (.put after (List.suffix_append ..) _), ?_⟩
    intro location held
    have kept := filled.aside.directories location held
    rw [place, contentPut, if_neg]
    · exact kept
    · rintro rfl
      exact clear kept
  ground := filled.ground.filePut up clear data
  changed := by
    intro location
    by_cases here : location = place depth top key
    · exact .inr (.inr ⟨_, List.mem_cons_self, here⟩)
    · have same : (after.put (place depth top key) (.file data)).content? location =
          after.content? location := (contentPut ..).trans (if_neg here)
      rw [same]
      exact (filled.changed location).imp_right (.imp_right fun ⟨m, inside, there⟩ =>
        ⟨m, List.mem_cons_of_mem _ inside, there⟩)
  held := by
    intro m inside
    rcases List.mem_cons.mp inside with rfl | old
    · simp [place, contentPut]
    · rw [place, place, contentPut, if_neg]
      · exact filled.held m old
      · exact fun same => apart m old (placeApart same)

theorem target (filled : Filled depth output top before after models)
    (apart : ∀ m ∈ models, m.1 ≠ key) :
    after.content? (place depth top key) = before.content? (place depth top key) := by
  rcases filled.changed (place depth top key) with same | ⟨_, _, shard⟩ | ⟨m, inside, same⟩
  · exact same
  · exact (placeUnlikeShard _ _ _ shard).elim
  · exact absurd (placeApart same).symm (apart m inside)

theorem way (filled : Filled depth output top before after models) (key : String) :
    WayAlike before after top (plainNames (shards depth key)) := by
  intro front name within
  rcases filled.changed (name :: (front.reverse ++ top)) with
    same | ⟨free, directory, _⟩ | ⟨m, _, same⟩
  · exact .inl same
  · exact .inr ⟨free, directory⟩
  · have shard : ShardPlace top (name :: (front.reverse ++ top)) :=
      ⟨front.reverse, name, rfl, by simpa using shardLevel within⟩
    exact (placeUnlikeShard _ _ _ (same ▸ shard)).elim

theorem unused (filled : Filled depth output top before after models) {name : String}
    (fresh : ∀ directory, before.content? (name :: directory) = none)
    (unlike : ∀ key, name ≠ modelFileName key) : NoFileNamed after name := by
  intro directory content held
  rcases filled.changed (name :: directory) with same | ⟨_, other, _⟩ | ⟨m, _, same⟩
  · rw [same, fresh] at held
    cases held
  · exact Option.some.inj (held.symm.trans other)
  · exact absurd (List.cons.inj same).1 (unlike m.1)

theorem existence (filled : Filled depth output top before after models)
    (ground : Ground before output top) (grounded : ¬ ['.', '.'] <+: (Identifier.key identifier).toList)
    (apart : ∀ m ∈ models, m.1 ≠ Identifier.key identifier) :
    after.tryExists (destination identifier output depth) =
        before.tryExists (destination identifier output depth) ∨
      maxNameBytes < byteLength (modelFileName (Identifier.key identifier)) ∧
        before.tryExists (destination identifier output depth) = .ok false ∧
        after.tryExists (destination identifier output depth) = .error .nameTooLong := by
  have below := @destinationBelow identifier output depth grounded
  have alike := filled.way (Identifier.key identifier)
  have there := filled.target apart
  rw [ground.existsBelow below, filled.ground.existsBelow below]
  cases checkText (destination identifier output depth) with
  | error fault => exact .inl rfl
  | ok _ =>
    simp only [Except.bind]
    rcases enterBelowAlike alike with same | missing
    · rw [same]
      cases through : before.enterBelow top (plainNames (shards depth (Identifier.key identifier))) with
      | error fault => exact .inl rfl
      | ok directory =>
        rw [place, ← enterBelowPlace through] at there
        exact .inl (by simp only [there])
    · have long : ∀ fault, after.enterBelow top (plainNames (shards depth
          (Identifier.key identifier))) = .error fault → fault = .nameTooLong →
          maxNameBytes < byteLength (modelFileName (Identifier.key identifier)) := by
        rintro fault blocked rfl
        by_contra short
        refine enterBelowShort (fun name inside => ?_) blocked
        have shorter := shardsShorter (plainNamesMember.mp inside).1
        omega
      have free := enterBelowMissing ground.nested missing
        (modelFileName (Identifier.key identifier))
      rcases enterBelowFurther ground.nested alike missing with stopped | stopped | through
      · exact .inl (by simp only [missing, stopped])
      · simp only [missing, stopped]
        exact .inr ⟨long _ stopped rfl, rfl, rfl⟩
      · rw [place, free] at there
        simp only [missing, through, there]
        split
        · rename_i long
          exact .inr ⟨long, rfl, rfl⟩
        · exact .inl rfl

theorem readiness (filled : Filled depth output top before after models) (key path : String) :
    Store.readyBelow after top (shards depth key) path =
      Store.readyBelow before top (shards depth key) path := by
  simp only [Store.readyBelow, makeBelowAlike (filled.way _)]

theorem freedom (filled : Filled depth output top before after models)
    (apart : ∀ m ∈ models, m.1 ≠ Identifier.key identifier) {token other : String}
    (first : Store.Token token) (second : Store.Token other) :
    Store.freeBelow after top (shards depth (Identifier.key identifier))
        (destination identifier output depth) (modelFileName (Identifier.key identifier)) token =
      Store.freeBelow before top (shards depth (Identifier.key identifier))
        (destination identifier output depth) (modelFileName (Identifier.key identifier)) other := by
  have texts := Store.placedAlike (destinationNames identifier output depth).1
    (fileNameUnlikeDots identifier) first second
  have there := filled.target apart
  rw [place] at there
  simp only [Store.freeBelow, texts, there]

end Filled

def Model.stamped (model : Model) (stamp : Stamp) : Model :=
  { model with metadata := { model.metadata with createdAt := stamp.now, uuid := stamp.uuid } }

theorem Draft.finalizeStamped (draft : Draft) (repository : String) (stamp other : Stamp) :
    draft.finalize repository other = (draft.finalize repository stamp).map (·.stamped other) := by
  have valid : ∀ stamp : Stamp, Model.validate ⟨⟨Model.sourceKind, [], stamp.now, stamp.uuid,
      Model.currentVersion⟩, repository, draft.filenames, draft.sources, draft.trees⟩ =
      Model.validate ⟨⟨Model.sourceKind, [], other.now, other.uuid,
        Model.currentVersion⟩, repository, draft.filenames, draft.sources, draft.trees⟩ :=
    fun _ => rfl
  simp only [finalize, bind, Except.bind, valid stamp]
  split
  · rfl
  split <;> rfl

def Wrote (result : Except Failure Outcome) : Prop :=
  ∃ path count, result = .ok (.written path count)

namespace Extractor

structure Fit (x : Extractor) (output : String) (fs : FileSystem) (repository : String)
    (stamp : Stamp) : Prop where
  token : Store.Token stamp.token
  fresh : Store.FreshToken fs (x.destination repository output) stamp.token

def preparing (x : Extractor) (repository output : String) (top : Location) (draft : Draft)
    (stamp : Stamp) (fs : FileSystem) : Except Failure (Option Model) :=
  if draft.filenames.isEmpty then .ok none
  else
    match draft.finalize repository stamp with
    | .error fault => .error (.model fault)
    | .ok model =>
      match Store.readyBelow fs top (shards x.config.shardDepth (key repository))
          (x.destination repository output) with
      | .ok () => .ok (some model)
      | .error fault =>
        .error (.model (.writeFailed (x.destination repository output) fault.message))

def installing (x : Extractor) (repository output : String) (top : Location) (model : Model)
    (stamp : Stamp) (fs : FileSystem) : Except Failure Outcome :=
  match Store.freeBelow fs top (shards x.config.shardDepth (key repository))
      (x.destination repository output) (modelFileName (key repository)) stamp.token with
  | .ok () => .ok (.written (x.destination repository output) model.size)
  | .error fault => .error (.model (.writeFailed (x.destination repository output) fault.message))

def storing (x : Extractor) (repository output : String) (top : Location) (draft : Draft)
    (stamp : Stamp) (fs : FileSystem) : Except Failure Outcome :=
  match x.preparing repository output top draft stamp fs with
  | .error failure => .error failure
  | .ok none => .ok .empty
  | .ok (some model) => x.installing repository output top model stamp fs

variable {x : Extractor} {output repository : String} {top : Location}
  {before after : FileSystem} {models : List (String × Bytes)} {stamp other : Stamp}

theorem preparingAlike (filled : Filled x.config.shardDepth output top before after models)
    (draft : Draft) :
    x.preparing repository output top draft stamp after =
      x.preparing repository output top draft stamp before := by
  simp only [preparing, filled.readiness]

theorem installingAlike (filled : Filled x.config.shardDepth output top before after models)
    (apart : ∀ m ∈ models, m.1 ≠ key repository) {model model' : Model}
    (sized : model.size = model'.size)
    (first : Store.Token stamp.token) (second : Store.Token other.token) :
    x.installing repository output top model stamp after =
      x.installing repository output top model' other before := by
  have free := filled.freedom apart first second
  unfold installing
  simp only [destination, free, sized]

theorem storingStamped (ground : Ground before output top) (draft : Draft)
    (first : Store.Token stamp.token) (second : Store.Token other.token) :
    x.storing repository output top draft stamp before =
      x.storing repository output top draft other before := by
  simp only [storing, preparing, draft.finalizeStamped repository stamp other]
  by_cases bare : draft.filenames.isEmpty = true
  · simp only [if_pos bare]
  simp only [if_neg bare]
  cases draft.finalize repository stamp with
  | error fault => rfl
  | ok model =>
    cases Store.readyBelow before top (shards x.config.shardDepth (key repository))
        (x.destination repository output) with
    | error fault => rfl
    | ok _ => exact installingAlike (.refl ground) (by simp) rfl first second

theorem preparedReady {draft : Draft} {model : Model}
    (prepared : x.preparing repository output top draft stamp before = .ok (some model)) :
    draft.finalize repository stamp = .ok model ∧
      Store.readyBelow before top (shards x.config.shardDepth (key repository))
        (x.destination repository output) = .ok () := by
  simp only [preparing] at prepared
  split at prepared
  · cases prepared
  split at prepared
  · cases prepared
  rename_i finished
  split at prepared
  · rename_i ready
    cases prepared
    exact ⟨finished, ready⟩
  · cases prepared

theorem prepareFilled (container : x.writer = Store.writer .sound)
    (filled : Filled x.config.shardDepth output top before after models)
    (grounded : ¬ ['.', '.'] <+: (key repository).toList) (draft : Draft) (stamp : Stamp) :
    ∃ later, x.prepare repository (x.destination repository output) draft stamp after =
        (later, x.preparing repository output top draft stamp before) ∧
      Filled x.config.shardDepth output top before later models ∧
      (∀ location, after.content? location = some .directory →
        later.content? location = some .directory) ∧
      ∀ model, x.preparing repository output top draft stamp before = .ok (some model) →
        later.enterBelow top (plainNames (shards x.config.shardDepth (key repository))) =
          .ok ((plainNames (shards x.config.shardDepth (key repository))).reverse ++ top) := by
  rw [← preparingAlike filled draft]
  have below : Below output (x.destination repository output)
      (shards x.config.shardDepth (key repository)) (modelFileName (key repository)) :=
    destinationBelow grounded
  have made := madeBelow after top (plainNames (shards x.config.shardDepth (key repository)))
  have kept : ∀ location, after.content? location = some .directory →
      (after.makeBelow top (plainNames (shards x.config.shardDepth (key repository)))).1.content?
        location = some .directory := fun location => made.directories
  by_cases bare : draft.filenames.isEmpty = true
  · simp only [prepare, preparing, if_pos bare]
    exact ⟨after, rfl, filled, fun _ held => held, by simp⟩
  cases finished : draft.finalize repository stamp with
  | error fault =>
    simp only [prepare, preparing, if_neg bare, finished]
    exact ⟨after, rfl, filled, fun _ held => held, by simp⟩
  | ok model =>
    obtain ⟨done, failed⟩ :=
      Store.preparedBelow filled.ground below (Draft.finalizeDone finished).2.1
    cases ready : Store.readyBelow after top (shards x.config.shardDepth (key repository))
        (x.destination repository output) with
    | error fault =>
      obtain ⟨later, refused, same⟩ := failed fault ready
      simp only [prepare, preparing, if_neg bare, finished, container, refused, ready]
      rcases same with rfl | rfl
      · exact ⟨_, rfl, filled, fun _ held => held, by simp⟩
      · exact ⟨_, rfl, filled.directoriesMade made, kept, by simp⟩
    | ok _ =>
      simp only [prepare, preparing, if_neg bare, finished, container, done ready, ready]
      exact ⟨_, rfl, filled.directoriesMade made, kept,
        fun _ _ => makeBelowDone (Store.readyMade ready).2⟩

theorem installFilled (container : x.writer = Store.writer .sound)
    (filled : Filled x.config.shardDepth output top before after models)
    (grounded : ¬ ['.', '.'] <+: (key repository).toList)
    (apart : ∀ m ∈ models, m.1 ≠ key repository)
    (fit : x.Fit output before repository stamp) (model : Model)
    (through : after.enterBelow top (plainNames (shards x.config.shardDepth (key repository))) =
      .ok ((plainNames (shards x.config.shardDepth (key repository))).reverse ++ top)) :
    ∃ later, x.install (x.destination repository output) model stamp after =
        (later, x.installing repository output top model stamp before) ∧
      (∀ location, after.content? location = some .directory →
        later.content? location = some .directory) ∧
      (¬ Wrote (x.installing repository output top model stamp before) ∧
          Filled x.config.shardDepth output top before later models ∨
        Wrote (x.installing repository output top model stamp before) ∧
          Filled x.config.shardDepth output top before later
            ((key repository, model.encode) :: models)) := by
  rw [← installingAlike filled apart rfl fit.token fit.token]
  have below : Below output (x.destination repository output)
      (shards x.config.shardDepth (key repository)) (modelFileName (key repository)) :=
    destinationBelow grounded
  have unlike : ∀ other, Store.stagingName (x.destination repository output) stamp.token ≠
      modelFileName other := fun other => stagingUnlike _ _ other
  have free : after.content? (Store.stagingName (x.destination repository output) stamp.token ::
      ((plainNames (shards x.config.shardDepth (key repository))).reverse ++ top)) = none := by
    rcases filled.changed (Store.stagingName (x.destination repository output) stamp.token ::
        ((plainNames (shards x.config.shardDepth (key repository))).reverse ++ top)) with
      same | ⟨_, _, shard⟩ | ⟨m, _, same⟩
    · rw [same, fit.fresh.free]
    · exact (stagingUnlikeShard _ _ _ _ _ shard).elim
    · rw [place] at same
      exact absurd (List.cons.inj same).1 (unlike m.1)
  have placed := Store.placedBelow filled.ground below fit.token.plain
    (filled.unused fit.fresh.free unlike) through free model
  unfold installing
  simp only [install, container, placed]
  cases verdict : Store.freeBelow after top (shards x.config.shardDepth (key repository))
      (x.destination repository output) (modelFileName (key repository)) stamp.token with
  | error fault =>
    exact ⟨after, rfl, fun _ held => held, .inl ⟨by rintro ⟨path, count, ⟨⟩⟩, filled⟩⟩
  | ok _ =>
    have clear := Store.freeClear verdict
    refine ⟨_, rfl, ?_, .inr ⟨⟨_, _, rfl⟩, filled.modelPut apart
      (enterBelowHeld filled.ground.held through) clear _⟩⟩
    intro location held
    rw [contentPut, if_neg]
    · exact held
    · rintro rfl
      exact clear held

end Extractor

end SourceModels
