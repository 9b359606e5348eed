import SourceModels.Proofs.Batch.Files
import SourceModels.Proofs.Identifier.Forms
import SourceModels.Proofs.Identifier.Places

/-! Destinations are different for different keys, and none of them lies on the way to another: a
directory is named by at most one character more than there are directories above it, and the name
of a model's file is longer than its key, which bounds the directories above the file. -/
namespace SourceModels

namespace Path

open FileSystem

def components (path : String) : List String :=
  (if isAbsolute path then ["/"] else if (names path).head? = some "." then ["."] else []) ++
    plainNames (names path)

def Ancestor (above path : String) : Prop :=
  components above <+: components path ∧ components above ≠ components path

theorem componentsPlain (path : String) : plainNames (components path) =
    (if isAbsolute path then ["/"] else []) ++ plainNames (names path) := by
  have twice : plainNames (plainNames (names path)) = plainNames (names path) := by
    simp [plainNames]
  rw [components, plainNamesAppend, twice]
  split
  · rfl
  · split <;> rfl

theorem componentsWithin {path other : String} (start : isAbsolute path = isAbsolute other)
    (within : components path <+: components other) :
    plainNames (names path) <+: plainNames (names other) := by
  have plain : plainNames (components path) <+: plainNames (components other) :=
    within.filter _
  rw [componentsPlain, componentsPlain, start] at plain
  exact (List.prefix_append_right_inj _).mp plain

theorem componentsJoined {name : String} (plain : '/' ∉ name.toList) (filled : name.toList ≠ [])
    (base : String) :
    components (join base name) = components base ∨
      components (join base name) = components base ++ [name] := by
  unfold components
  rw [namesJoined plain filled, joinedStart plain, plainNamesAppend]
  by_cases dot : name = "."
  · subst dot
    cases held : names base with
    | nil => cases isAbsolute base <;> simp [plainNames]
    | cons first rest => exact .inl (by simp [plainNames])
  · have kept : plainNames [name] = [name] := by simp [plainNames, dot]
    rw [kept]
    cases names base with
    | nil => exact .inr (by simp [plainNames, dot])
    | cons first rest => exact .inr (by simp)

theorem abovePlain {path above : String} (higher : Above path above) :
    isAbsolute above = isAbsolute path ∧ plainNames (names above) <+: plainNames (names path) := by
  have once : ∀ {path above : String}, parent? path = some above →
      isAbsolute above = isAbsolute path ∧
        plainNames (names above) <+: plainNames (names path) := by
    intro path above part
    obtain ⟨⟨dots, last, more, split, -, -⟩, -, -, -, start⟩ := parentParts part
    rw [split, List.append_assoc, plainNamesAppend]
    exact ⟨start, List.prefix_append ..⟩
  induction higher with
  | parent part => exact once part
  | further part _ ih => exact ⟨ih.1.trans (once part).1, ih.2.trans (once part).2⟩

theorem aboveNamed {path above last : String} {front : List String} (higher : Above path above)
    (split : names path = front ++ [last]) (named : last ≠ ".") :
    isAbsolute above = isAbsolute path ∧ plainNames (names above) <+: plainNames front := by
  refine ⟨(abovePlain higher).1, ?_⟩
  have once : ∀ {above : String}, parent? path = some above →
      plainNames (names above) <+: plainNames front := by
    intro above part
    obtain ⟨dots, same, -⟩ := parentNames part split named
    rw [same, plainNamesAppend]
    exact List.prefix_append ..
  cases higher with
  | parent part => exact once part
  | further part higher => exact (abovePlain higher).2.trans (once part)

end Path

namespace Identifier

open FileSystem

def starts (count : Nat) (key : String) : List String :=
  (List.range count).map fun index => String.ofList (key.toList.take (index + 1))

theorem shardsStarts (depth : Nat) (key : String) :
    shards depth key = starts (min depth key.toList.length) key := by
  rw [shards, growingStarts, List.map_map, starts]
  rfl

theorem startsNext (count : Nat) (key : String) :
    starts (count + 1) key = starts count key ++ [String.ofList (key.toList.take (count + 1))] := by
  simp [starts, List.range_succ]

def directory (key root : String) (depth : Nat) : String := (shards depth key).foldl Path.join root

theorem directoryNames (identifier root : String) (depth : Nat) :
    names (directory (key identifier) root depth) =
        names root ++ shards depth (key identifier) ∧
      Path.isAbsolute (directory (key identifier) root depth) = Path.isAbsolute root :=
  foldedNames (fun _ => shardPlain) root

theorem directoryNext (key root : String) (depth : Nat) :
    directory key root (depth + 1) =
      if depth < key.toList.length then
        Path.join (directory key root depth) (String.ofList (key.toList.take (depth + 1)))
      else directory key root depth := by
  simp only [directory, shardsStarts]
  split
  · rename_i shorter
    rw [Nat.min_eq_left shorter, Nat.min_eq_left (Nat.le_of_lt shorter), startsNext,
      List.foldl_concat]
  · rename_i whole
    rw [Nat.min_eq_right (by omega), Nat.min_eq_right (by omega)]

theorem fileUnlikeShard {depth other : Nat} {a b : String} :
    ¬ plainNames (shards depth a) ++ [modelFileName a] <+: plainNames (shards other b) := by
  intro within
  have short := shardLevel within
  have few := shardsCount depth a
  rw [fileNameLength] at short
  omega

example : modelFileName "x" ∈ shards 13 "source_x.asdf.y" ∧
    ¬ shards 1 "x" ++ [modelFileName "x"] <+: shards 13 "source_x.asdf.y" := by decide

theorem filesShareKey {depth other : Nat} {a b : String}
    (within : plainNames (shards depth a) ++ [modelFileName a] <+:
      plainNames (shards other b) ++ [modelFileName b]) : a = b := by
  rcases List.prefix_concat_iff.mp within with same | shorter
  · exact fileNameKey (List.concat_inj.mp (by simpa using same)).2
  · exact absurd shorter fileUnlikeShard

theorem destinationPlain (identifier root : String) (depth : Nat) :
    plainNames (names (destination identifier root depth)) = plainNames (names root) ++
      (plainNames (shards depth (key identifier)) ++ [modelFileName (key identifier)]) := by
  have named := (fileNameUnlikeDots identifier).1
  have kept : plainNames [modelFileName (key identifier)] = [modelFileName (key identifier)] := by
    simp [plainNames, named]
  rw [(destinationNames identifier root depth).1, plainNamesAppend, plainNamesAppend, kept,
    List.append_assoc]

theorem destinationsShareKey {root a b : String} {depth : Nat}
    (within : Path.components (destination a root depth) <+:
      Path.components (destination b root depth)) : key a = key b := by
  have start : Path.isAbsolute (destination a root depth) =
      Path.isAbsolute (destination b root depth) := by
    rw [(destinationNames a root depth).2, (destinationNames b root depth).2]
  have plain := Path.componentsWithin start within
  rw [destinationPlain, destinationPlain, List.prefix_append_right_inj] at plain
  exact filesShareKey plain

theorem destinationAside {root path b : String} {other : Nat}
    (start : Path.isAbsolute path = Path.isAbsolute root)
    (along : plainNames (names path) <+: plainNames (names root ++ shards other b))
    (a : String) (depth : Nat) :
    Path.components path ≠ Path.components (destination a root depth) := by
  intro same
  have start : Path.isAbsolute (destination a root depth) = Path.isAbsolute path := by
    rw [(destinationNames a root depth).2, start]
  have plain := (Path.componentsWithin start (by simp [same])).trans along
  rw [destinationPlain, plainNamesAppend, List.prefix_append_right_inj] at plain
  exact fileUnlikeShard plain

theorem directoryAside (root a b : String) (depth level : Nat) :
    Path.components (directory (key b) root level) ≠
      Path.components (destination a root depth) := by
  obtain ⟨split, start⟩ := directoryNames b root level
  have along : plainNames (names (directory (key b) root level)) <+:
      plainNames (names root ++ shards level (key b)) := by simp [split]
  exact destinationAside start along a depth

theorem aboveAside (root a b : String) (depth : Nat) {above : String}
    (higher : Path.Above (destination b root depth) above) :
    Path.components above ≠ Path.components (destination a root depth) := by
  obtain ⟨split, start⟩ := destinationNames b root depth
  obtain ⟨began, along⟩ := Path.aboveNamed higher split (fileNameUnlikeDots b).1
  exact destinationAside (began.trans start) along a depth

theorem directoryDeeper (identifier root : String) (depth : Nat) :
    Path.components (directory (key identifier) root (depth + 1)) =
        Path.components (directory (key identifier) root depth) ∨
      ∃ name, Path.components (directory (key identifier) root (depth + 1)) =
        Path.components (directory (key identifier) root depth) ++ [name] := by
  rw [directoryNext]
  split
  · rename_i shorter
    have listed : String.ofList ((key identifier).toList.take (depth + 1)) ∈
        shards (depth + 1) (key identifier) := by
      rw [shardsStarts, Nat.min_eq_left shorter, startsNext]
      exact List.mem_append_right _ List.mem_cons_self
    obtain ⟨plain, filled⟩ := shardPlain listed
    rcases Path.componentsJoined plain filled (directory (key identifier) root depth) with
      same | below
    · exact .inl same
    · exact .inr ⟨_, below⟩
  · exact .inl rfl

structure Apart (root : String) (depth : Nat) (a b : String) : Prop where
  text : destination a root depth = destination b root depth ↔ key a = key b
  path : Path.components (destination a root depth) = Path.components (destination b root depth) ↔
    key a = key b
  ancestor : ¬ Path.Ancestor (destination a root depth) (destination b root depth)
  above : ∀ {above}, Path.Above (destination b root depth) above →
    Path.components above ≠ Path.components (destination a root depth)
  directories : ∀ level, Path.components (directory (key b) root level) ≠
    Path.components (destination a root depth)

structure Laid (root : String) (depth : Nat) (key path : String) : Prop where
  text : path = Path.join (directory key root depth) (modelFileName key)
  directories : directory key root depth =
    (starts (min depth key.toList.length) key).foldl Path.join root
  names : FileSystem.names path = FileSystem.names root ++
    starts (min depth key.toList.length) key ++ [modelFileName key]
  start : Path.isAbsolute path = Path.isAbsolute root

theorem destinationsApart (root : String) (depth : Nat) (a b : String) :
    Apart root depth a b ∧
    Laid root depth (key a) (destination a root depth) ∧
    (directory (key a) root (depth + 1) =
      if depth < (key a).toList.length then
        Path.join (directory (key a) root depth) (String.ofList ((key a).toList.take (depth + 1)))
      else directory (key a) root depth) ∧
    (Path.components (directory (key a) root (depth + 1)) =
        Path.components (directory (key a) root depth) ∨
      ∃ name, Path.components (directory (key a) root (depth + 1)) =
        Path.components (directory (key a) root depth) ++ [name]) := by
  have shared : key a = key b → destination a root depth = destination b root depth :=
    fun same => destinationOfKey same root depth
  have apart : Path.components (destination a root depth) =
      Path.components (destination b root depth) → key a = key b := by
    intro same
    have within : Path.components (destination a root depth) <+:
        Path.components (destination b root depth) := by simp [same]
    exact destinationsShareKey within
  refine ⟨⟨⟨?text, shared⟩, ⟨apart, ?path⟩, ?ancestor, aboveAside root a b depth,
    directoryAside root a b depth⟩, ⟨rfl, ?directories, ?names, (destinationNames a root depth).2⟩,
    directoryNext (key a) root depth, directoryDeeper a root depth⟩
  case text =>
    intro same
    exact apart (congrArg Path.components same)
  case path =>
    intro same
    exact congrArg Path.components (shared same)
  case ancestor =>
    rintro ⟨within, other⟩
    have same := shared (destinationsShareKey within)
    exact other (congrArg Path.components same)
  case directories => rw [directory, shardsStarts]
  case names => rw [(destinationNames a root depth).1, shardsStarts]

end Identifier

end SourceModels
