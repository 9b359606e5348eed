import SourceModels.Proofs.CommandLine.Configuration

/-! A settings file that is named among the arguments, and the same file at its usual place: the two
come to the same settings, but for one order of checks. -/
namespace SourceModels.CommandLine
open Config

def Options.naming (o : Options) (path : String) : Options := { o with config := some path }

section Naming

variable {o : Options} (path : String)

theorem setNaming {read : Options} {s : Setting} {text : String}
    (set : o.set s text = .ok read) (unnamed : read.config = none) :
    o.config = none ∧ (o.naming path).set s text = .ok (read.naming path) := by
  cases s
  case config =>
    simp only [Options.set] at set
    cases given : once o.config (path? text) with
    | error stop => simp [given, bind, Except.bind] at set
    | ok value =>
      have named : read.config = value := by
        simp only [given, bind, Except.bind, pure, Except.pure, Except.ok.injEq] at set
        rw [← set]
      rw [← named, unnamed] at given
      unfold once at given
      split at given <;> simp at given
  all_goals
    simp only [Options.set, bind, Except.bind, pure, Except.pure] at set ⊢
    simp only [Options.naming]
    split at set
    · cases set
    · cases set
      simp_all

theorem setFlagNaming {read : Options} {flag : Meaning} (set : o.setFlag flag = .ok read)
    (unnamed : read.config = none) :
    o.config = none ∧ (o.naming path).setFlag flag = .ok (read.naming path) := by
  cases flag <;> simp only [Options.setFlag, bind, Except.bind, pure, Except.pure] at set ⊢
  case overwrite | verbose =>
    simp only [Options.naming]
    split at set
    · cases set
    · cases set
      simp_all
  all_goals cases set

theorem setMapNaming {read : Options} {s : Setting} {text : String} {waiting : Option Setting}
    (taken : (o.set s text).map (fun o => (o, (none : Option Setting))) = .ok (read, waiting))
    (unnamed : read.config = none) :
    o.config = none ∧
      ((o.naming path).set s text).map (fun o => (o, (none : Option Setting))) =
        .ok (read.naming path, waiting) := by
  obtain ⟨set, done, same⟩ := mappedDone taken
  cases same
  obtain ⟨before, again⟩ := setNaming path done unnamed
  exact ⟨before, by rw [again]; rfl⟩

theorem takeLettersValue {c : Char} {s : Setting} {rest : List Char}
    (meant : shortNames.lookup c = some (.setting s)) (more : rest ≠ []) :
    ∃ text, ∀ o : Options,
      takeLetters o (c :: rest) = (o.set s text).map fun o => (o, (none : Option Setting)) := by
  obtain ⟨next, value, rfl⟩ := List.exists_cons_of_ne_nil more
  by_cases assigned : next = '='
  · subst assigned
    exact ⟨String.ofList value, fun o => by simp [takeLetters, meant]⟩
  · exact ⟨String.ofList (next :: value), fun o => by simp [takeLetters, meant, assigned]⟩

theorem takeLettersNaming {read : Options} {waiting : Option Setting} {letters : List Char}
    (taken : takeLetters o letters = .ok (read, waiting)) (unnamed : read.config = none) :
    o.config = none ∧ takeLetters (o.naming path) letters = .ok (read.naming path, waiting) := by
  induction letters generalizing o with
  | nil =>
    cases taken
    exact ⟨unnamed, rfl⟩
  | cons c rest ih =>
    cases meant : shortNames.lookup c with
    | none => simp [takeLetters, meant] at taken
    | some meaning =>
      cases meaning with
      | setting s =>
        rcases rest with _ | ⟨next, value⟩
        · simp only [takeLetters, meant, Except.ok.injEq, Prod.mk.injEq] at taken ⊢
          obtain ⟨rfl, rfl⟩ := taken
          exact ⟨unnamed, rfl, rfl⟩
        · have more : next :: value ≠ [] := List.cons_ne_nil next value
          obtain ⟨text, valued⟩ := takeLettersValue meant more
          rw [valued] at taken ⊢
          exact setMapNaming path taken unnamed
      | _ =>
        simp only [takeLetters, meant] at taken ⊢
        split at taken
        · rename_i set done
          obtain ⟨between, after⟩ := ih taken
          obtain ⟨before, again⟩ := setFlagNaming path done between
          exact ⟨before, by simp only [again, after]⟩
        · cases taken

theorem takeTokenNaming {read : Options} {waiting : Option Setting} {t : Token}
    (taken : takeToken o t = .ok (read, waiting)) (unnamed : read.config = none) :
    o.config = none ∧ takeToken (o.naming path) t = .ok (read.naming path, waiting) := by
  cases t with
  | long name value =>
    cases meant : longNames.lookup name with
    | none => simp [takeToken, meant] at taken
    | some meaning =>
      cases meaning <;> cases value <;> simp only [takeToken, meant] at taken ⊢
      case setting.none s =>
        cases taken
        exact ⟨unnamed, rfl⟩
      case setting.some s text => exact setMapNaming path taken unnamed
      case overwrite.none | verbose.none | entries.none | version.none | help.none =>
        obtain ⟨set, done, same⟩ := mappedDone taken
        cases same
        obtain ⟨before, again⟩ := setFlagNaming path done unnamed
        exact ⟨before, by rw [again]; rfl⟩
      all_goals cases taken
  | short letters => exact takeLettersNaming path taken unnamed
  | endOfOptions =>
    cases taken
    exact ⟨unnamed, rfl⟩
  | plain text =>
    cases taken
    exact ⟨unnamed, rfl⟩

theorem takeAllNaming {read : Options} {waiting : Option Setting} {arguments : List String}
    (taken : takeAll o waiting arguments = .ok read) (unnamed : read.config = none) :
    o.config = none ∧ takeAll (o.naming path) waiting arguments = .ok (read.naming path) := by
  induction arguments generalizing o waiting with
  | nil =>
    cases waiting with
    | none =>
      cases taken
      exact ⟨unnamed, rfl⟩
    | some s => cases taken
  | cons argument rest ih =>
    cases waiting with
    | some s =>
      cases kind : token argument with
      | plain text =>
        simp only [takeAll, kind] at taken ⊢
        split at taken
        · rename_i set done
          obtain ⟨between, after⟩ := ih taken
          obtain ⟨before, again⟩ := setNaming path done between
          exact ⟨before, by simp only [again, after]⟩
        · cases taken
      | _ => simp [takeAll, kind] at taken
    | none =>
      cases kind : token argument with
      | endOfOptions =>
        simp only [takeAll, kind] at taken ⊢
        cases taken
        exact ⟨unnamed, rfl⟩
      | _ =>
        simp only [takeAll, kind] at taken ⊢
        split at taken
        · rename_i set waiting done
          obtain ⟨between, after⟩ := ih taken
          obtain ⟨before, again⟩ := takeTokenNaming path done between
          exact ⟨before, by simp only [again, after]⟩
        · cases taken

theorem namedToken (path : String) : token ("--config=" ++ path) = .long "config" (some path) := by
  simp [token]

theorem readExtractUnnamed {env : Environment} {arguments : List String}
    (done : readExtract env arguments = .ok (.extract o)) (unnamed : o.config = none) :
    takeAll {} none arguments = .ok o ∧ o.conflicts = false := by
  cases taken : takeAll {} none arguments with
  | error stop => simp [readExtract, taken, bind, Except.bind] at done
  | ok read =>
    cases apart : read.conflicts <;> cases named : read.config <;>
      cases elsewhere : configFrom env <;>
      simp [readExtract, taken, apart, named, elsewhere, bind, Except.bind, pure, Except.pure]
        at done
    case false.some.error | false.some.ok => simp [← done] at unnamed
    case false.none.ok found =>
      have nothing : found = none := by simpa [← done] using unnamed
      have same : read = o := by
        rw [← done, nothing, ← named]
      exact ⟨same ▸ rfl, same ▸ apart⟩

theorem readExtractNaming {env : Environment} {arguments : List String} (given : path ≠ "")
    (taken : takeAll {} none arguments = .ok o) (unnamed : o.config = none)
    (apart : o.conflicts = false) :
    readExtract env (("--config=" ++ path) :: arguments) = .ok (.extract (o.naming path)) := by
  have first : takeToken {} (.long "config" (some path)) =
      .ok (({} : Options).naming path, none) := by
    have meant : longNames.lookup "config" = some (.setting .config) := by decide
    simp [takeToken, meant, Options.set, once, path?, given, Options.naming, bind, Except.bind,
      pure, Except.pure, Except.map]
  have all : takeAll {} none (("--config=" ++ path) :: arguments) = .ok (o.naming path) := by
    simp only [takeAll, namedToken, first, (takeAllNaming path taken unnamed).2]
  have still : (o.naming path).conflicts = false := apart
  have named : (o.naming path).config = some path := rfl
  simp only [readExtract, all, named, still, bind, Except.bind, pure, Except.pure]
  rfl

theorem showReads {env : Environment} {arguments : List String} :
    readShow env arguments ≠ .ok (.extract o) := by
  intro done
  cases taken : ShowOptions.takeAll {} arguments <;> cases named : configFrom env <;>
    simp [readShow, taken, named, bind, Except.bind, pure, Except.pure] at done
  split at done <;> simp at done

theorem helpReads {arguments : List String} : readHelp arguments ≠ .ok (.extract o) := by
  intro done
  unfold readHelp at done
  split at done
  · cases done
  · split at done <;> cases done
  · cases done

theorem extractRead {env : Environment} {arguments : List String}
    (done : read? env arguments = some (.extract o)) :
    readExtract env arguments = .ok (.extract o) := by
  unfold read? at done
  split at done
  · rename_i command read
    cases done
    unfold readCommand at read
    split at read
    · exact absurd read showReads
    · exact absurd read helpReads
    · exact read
  · cases done
  · cases done
  · cases done

theorem readNaming {env : Environment} {arguments : List String} (given : path ≠ "")
    (done : read? env arguments = some (.extract o)) (unnamed : o.config = none) :
    read? env (("--config=" ++ path) :: arguments) = some (.extract (o.naming path)) := by
  obtain ⟨taken, apart⟩ := readExtractUnnamed (extractRead done) unnamed
  have dashed (word : String) (plain : word.toList.head? ≠ some '-') :
      "--config=" ++ path ≠ word := by
    intro same
    simp [← same] at plain
  have command : readCommand env (("--config=" ++ path) :: arguments) =
      .ok (.extract (o.naming path)) := by
    unfold readCommand
    split
    · rename_i same
      exact absurd (List.cons.inj same).1 (dashed "show" (by decide))
    · rename_i same
      exact absurd (List.cons.inj same).1 (dashed "help" (by decide))
    · exact readExtractNaming path given taken unnamed apart
  rw [read?, command]

end Naming

section Agreement

variable {fs other : FileSystem} {env : Environment} {o : Options} {path : String} {file : Config}

structure Repaired (o : Options) (env : Environment) (file : Config) : Prop where
  wrong : (file.withEnvironment env).validate ≠ .ok ()
  right : (o.over (file.withEnvironment env)).validate = .ok ()

theorem fileAlike (here : fs.pathExists path = true) {place : String}
    (there : other.pathExists place = true)
    (same : fs.readBytes path = other.readBytes place) : ofFile other place = ofFile fs path := by
  have text : fs.readText path = other.readText place := by
    simp only [FileSystem.readText, same]
  simp only [ofFile, here, there, text, Bool.true_eq_false, if_false]

theorem namedFileAgrees (env : Environment) (arguments : List String) (o : Options)
    (path : String) (fs other : FileSystem) (given : path ≠ "")
    (read : read? env arguments = some (.extract o)) (unnamed : o.config = none)
    (here : fs.pathExists path = true) (there : other.pathExists (defaultPath env) = true)
    (same : fs.readBytes path = other.readBytes (defaultPath env)) :
    ∃ named, read? env (("--config=" ++ path) :: arguments) = some (.extract named) ∧
      ((configuration named env fs).toOption = (configuration o env other).toOption ↔
        ∀ file, ofFile fs path = .ok file → ¬ Repaired o env file) ∧
      ∀ file, ofFile fs path = .ok file → Repaired o env file →
        configuration named env fs = .ok (o.over (file.withEnvironment env)) ∧
        ∃ fault, (file.withEnvironment env).validate = .error fault ∧
          configuration o env other = .error fault := by
  refine ⟨o.naming path, readNaming path given read unnamed, ?_⟩
  have usual : configuration o env other = (loadOrDefault other env).bind fun file =>
      (checked (file.withEnvironment env)).bind fun base => checked (o.over base) :=
    configurationUsual unnamed
  rw [loadOrDefault, if_pos there, fileAlike here there same] at usual
  have named : configuration (o.naming path) env fs =
      (ofFile fs path).bind fun file => checked (o.over (file.withEnvironment env)) :=
    configurationNamed rfl
  rw [usual, named]
  cases loaded : ofFile fs path with
  | error fault => simp [Except.bind, Except.toOption]
  | ok file =>
    simp only [Except.bind, Except.ok.injEq, forall_eq']
    cases first : (file.withEnvironment env).validate with
    | ok _ =>
      have valid : checked (file.withEnvironment env) = .ok (file.withEnvironment env) :=
        checkedOk.mpr ⟨first, rfl⟩
      have kept : ¬ Repaired o env file := fun repaired => repaired.wrong first
      simp [valid, kept]
    | error fault =>
      have refused : checked (file.withEnvironment env) = .error fault := by
        simp [checked, first, Except.map]
      cases last : (o.over (file.withEnvironment env)).validate with
      | ok _ =>
        have repaired : Repaired o env file := ⟨by simp [first], last⟩
        simp [refused, repaired, checkedOk.mpr ⟨last, rfl⟩, Except.toOption]
      | error again =>
        have kept : ¬ Repaired o env file := fun repaired => by simpa [last] using repaired.right
        have refusedToo : checked (o.over (file.withEnvironment env)) = .error again := by
          simp [checked, last, Except.map]
        simp [refused, refusedToo, kept, Except.toOption]

end Agreement

theorem workersGiven : read? noWorkers ["--workers=2"] =
    some (.extract { workers := some 2 }) := by
  decide

theorem storedSettingsThere :
    storedSettings.pathExists (defaultPath noWorkers) = true := by
  decide +kernel

theorem storedSettingsAgree : ∃ named,
    read? noWorkers ["--config=/c/repo2source/config.toml", "--workers=2"] =
      some (.extract named) ∧
    configuration named noWorkers storedSettings = .ok { shardDepth := 3, workers := 2 } := by
  have wrong : (Config.withEnvironment { shardDepth := 3 } noWorkers).validate =
      .error (.invalidValue "workers.num_workers" zeroReason) := rfl
  have repaired : Repaired { workers := some 2 } noWorkers { shardDepth := 3 } :=
    ⟨by simp [wrong], rfl⟩
  obtain ⟨named, read, -, apart⟩ := namedFileAgrees noWorkers ["--workers=2"]
    { workers := some 2 } storedPath storedSettings storedSettings (by decide) workersGiven rfl
    storedSettingsThere storedSettingsThere rfl
  exact ⟨named, read, (apart _ storedSettingsRead repaired).1⟩

theorem overriddenVariableRefused :
    defaultPath noWorkers = storedPath ∧
    read? noWorkers ["--workers=2"] = some (.extract { workers := some 2 }) ∧
    (configuration { workers := some 2 } noWorkers storedSettings).toOption = none ∧
    read? noWorkers ["--config=/c/repo2source/config.toml", "--workers=2"] =
      some (.extract { workers := some 2, config := some storedPath }) ∧
    (configuration { workers := some 2, config := some storedPath } noWorkers storedSettings).toOption
      = some { shardDepth := 3, workers := 2 } := by
  have usual : loadOrDefault storedSettings noWorkers = .ok { shardDepth := 3 } := by
    rw [loadOrDefault, if_pos storedSettingsThere]
    exact storedSettingsRead
  refine ⟨by decide, workersGiven, ?_, by decide, ?_⟩
  · rw [configurationUsual rfl, usual]
    rfl
  · rw [configurationNamed rfl, storedSettingsRead]
    rfl

end SourceModels.CommandLine
