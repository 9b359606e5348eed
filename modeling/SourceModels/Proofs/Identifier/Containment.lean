import SourceModels.Extraction
import SourceModels.Proofs.PathNames

/-! Where destinations lie: below the output root, except that a key which starts with two dots
names the directory above the root as soon as there are two levels of directories. -/
namespace SourceModels

namespace Path

def levelBelow : (level : Nat) → List String → Option Nat
  | level, [] => some level
  | level, name :: rest =>
    if name = "." then levelBelow level rest
    else if name = ".." then
      match level with
      | 0 => none
      | level + 1 => levelBelow level rest
    else levelBelow (level + 1) rest

/-- Read name by name from the root on, the path never leaves the root and ends in the name of an
entry below it. -/
structure Inside (root path : String) : Prop where
  start : isAbsolute path = isAbsolute root
  way : ∃ below last level, FileSystem.names path = FileSystem.names root ++ below ++ [last] ∧
    (last ≠ "." ∧ last ≠ "..") ∧ levelBelow 0 (below ++ [last]) = some (level + 1)

theorem levelNamed {names : List String} (plain : ∀ name ∈ names, name ≠ "." ∧ name ≠ "..")
    (level : Nat) : levelBelow level names = some (level + names.length) := by
  induction names generalizing level with
  | nil => rfl
  | cons name rest ih =>
    have here := plain name List.mem_cons_self
    have later := ih fun other inside => plain other (List.mem_cons_of_mem _ inside)
    simp only [levelBelow, here.1, here.2, if_false, later, List.length_cons]
    congr 1
    omega

end Path

namespace Identifier

theorem keyPlain (identifier : String) : '/' ∉ (key identifier).toList := by
  simp only [key, keyChars, Text.replaceChar, String.toList_ofList, List.mem_map, not_exists,
    not_and]
  intro c _
  split <;> simp_all

theorem growingStarts {α : Type} (depth : Nat) (xs : List α) : growing depth xs =
    (List.range (min depth xs.length)).map fun index => xs.take (index + 1) := by
  induction xs generalizing depth with
  | nil => cases depth <;> simp [growing]
  | cons x rest ih =>
    cases depth with
    | zero => simp [growing]
    | succ depth =>
      rw [growing, ih, List.length_cons, Nat.succ_min_succ, List.range_succ_eq_map]
      simp [Function.comp_def]

theorem growingNames {depth : Nat} {chars name : List Char} (inside : name ∈ growing depth chars) :
    name ≠ [] ∧ name <+: chars := by
  rw [growingStarts, List.mem_map] at inside
  obtain ⟨index, within, rfl⟩ := inside
  have shorter : index < chars.length :=
    Nat.lt_of_lt_of_le (List.mem_range.mp within) (Nat.min_le_right ..)
  refine ⟨List.ne_nil_of_length_pos ?_, List.take_prefix ..⟩
  rw [List.length_take]
  omega

theorem shardPlain {depth : Nat} {identifier shard : String}
    (inside : shard ∈ shards depth (key identifier)) :
    '/' ∉ shard.toList ∧ shard.toList ≠ [] := by
  simp only [shards, List.mem_map] at inside
  obtain ⟨name, grown, rfl⟩ := inside
  obtain ⟨nonempty, start⟩ := growingNames grown
  rw [String.toList_ofList]
  exact ⟨fun slash => keyPlain identifier (start.subset slash), nonempty⟩

theorem fileNamePlain (identifier : String) :
    '/' ∉ (modelFileName (key identifier)).toList ∧
      2 < (modelFileName (key identifier)).toList.length := by
  have plain := keyPlain identifier
  constructor <;> simp [modelFileName, String.toList_append, plain]

theorem fileNameUnlikeDots (identifier : String) :
    modelFileName (key identifier) ≠ "." ∧ modelFileName (key identifier) ≠ ".." := by
  have long := (fileNamePlain identifier).2
  constructor <;> intro same <;> simp [same] at long

theorem foldedNames {names : List String}
    (plain : ∀ name ∈ names, '/' ∉ name.toList ∧ name.toList ≠ []) (root : String) :
    FileSystem.names (names.foldl Path.join root) = FileSystem.names root ++ names ∧
      Path.isAbsolute (names.foldl Path.join root) = Path.isAbsolute root := by
  induction names generalizing root with
  | nil => simp
  | cons name rest ih =>
    have here := plain name List.mem_cons_self
    have later := ih (fun other inside => plain other (List.mem_cons_of_mem _ inside))
      (Path.join root name)
    rw [List.foldl_cons, later.1, later.2, FileSystem.namesJoined here.1 here.2,
      Path.joinedStart here.1]
    simp

theorem destinationNames (identifier root : String) (depth : Nat) :
    FileSystem.names (destination identifier root depth) = FileSystem.names root ++
        shards depth (key identifier) ++ [modelFileName (key identifier)] ∧
      Path.isAbsolute (destination identifier root depth) = Path.isAbsolute root := by
  have directories := @foldedNames (shards depth (key identifier)) (fun _ => shardPlain) root
  obtain ⟨plain, long⟩ := fileNamePlain identifier
  have nonempty := List.ne_nil_of_length_pos (Nat.lt_trans (by decide) long)
  simp only [destination]
  rw [FileSystem.namesJoined plain nonempty, Path.joinedStart plain, directories.1, directories.2]
  exact ⟨rfl, rfl⟩

def Climbs (depth : Nat) (key : String) : Prop := 2 ≤ depth ∧ ['.', '.'] <+: key.toList

instance (depth : Nat) (key : String) : Decidable (Climbs depth key) :=
  inferInstanceAs (Decidable (_ ∧ _))

theorem longUnlikeDots {name : List Char} (long : 2 < name.length) :
    String.ofList name ≠ "." ∧ String.ofList name ≠ ".." := by
  constructor <;> intro same <;>
    simp [← String.toList_inj, String.toList_ofList] at same <;> simp [same] at long

theorem laterShardsPlain (depth : Nat) (c d : Char) (rest : List Char) :
    ∀ name ∈ (growing depth rest).map fun more => String.ofList (c :: d :: more),
      name ≠ "." ∧ name ≠ ".." := by
  intro name inside
  obtain ⟨more, grown, rfl⟩ := List.mem_map.mp inside
  have filled := List.length_pos_iff.mpr (growingNames grown).1
  exact longUnlikeDots (by simp only [List.length_cons]; omega)

theorem shardsTwice (depth : Nat) (c d : Char) (rest : List Char) :
    (growing (depth + 2) (c :: d :: rest)).map String.ofList =
      String.ofList [c] :: String.ofList [c, d] ::
        (growing depth rest).map fun more => String.ofList (c :: d :: more) := by
  simp [growing, List.map_map, Function.comp_def]

theorem shardsOnce (depth : Nat) (c : Char) {rest : List Char} (short : depth = 0 ∨ rest = []) :
    (growing (depth + 1) (c :: rest)).map String.ofList = [String.ofList [c]] := by
  rcases short with rfl | rfl
  · simp [growing]
  · cases depth <;> simp [growing]

theorem levelChar (c : Char) (level : Nat) (rest : List String) :
    Path.levelBelow level (String.ofList [c] :: rest) =
      Path.levelBelow (if c = '.' then level else level + 1) rest := by
  have dot : String.ofList [c] = "." ↔ c = '.' := by
    rw [← String.toList_inj, String.toList_ofList]
    simp
  have noDots : String.ofList [c] ≠ ".." := by
    rw [ne_eq, ← String.toList_inj, String.toList_ofList]
    simp
  simp only [Path.levelBelow, dot, noDots, if_false]
  split <;> rfl

theorem levelPair {c d : Char} (level : Nat) (rest : List String) :
    Path.levelBelow level (String.ofList [c, d] :: rest) =
      if c = '.' ∧ d = '.' then Path.levelBelow level (".." :: rest)
      else Path.levelBelow (level + 1) rest := by
  have noDot : String.ofList [c, d] ≠ "." := by
    rw [ne_eq, ← String.toList_inj, String.toList_ofList]
    simp
  have dots : String.ofList [c, d] = ".." ↔ c = '.' ∧ d = '.' := by
    rw [← String.toList_inj, String.toList_ofList]
    simp
  split
  · rename_i same
    rw [dots.mpr same]
  · rename_i other
    simp only [Path.levelBelow, noDot, dots, other, if_false]

theorem shardsLevel (depth : Nat) (key last : String) (named : last ≠ "." ∧ last ≠ "..") :
    (Climbs depth key → Path.levelBelow 0 (shards depth key ++ [last]) = none) ∧
    (¬ Climbs depth key →
      ∃ level, Path.levelBelow 0 (shards depth key ++ [last]) = some (level + 1)) := by
  have ends : ∀ level, Path.levelBelow level [last] = some (level + 1) :=
    fun level => Path.levelNamed (by simpa using named) level
  unfold Climbs shards
  cases chars : key.toList with
  | nil => cases depth <;> simp [growing, ends]
  | cons c more =>
    match depth, more with
    | 0, _ => simp [growing, ends]
    | 1, _ =>
      rw [shardsOnce 0 c (.inl rfl), List.singleton_append, levelChar, ends]
      simp
    | depth + 2, [] =>
      rw [shardsOnce (depth + 1) c (.inr rfl), List.singleton_append, levelChar, ends]
      simp
    | depth + 2, d :: rest =>
      -- only the starts of one and two characters can be dots
      have plain : ∀ name ∈ ((growing depth rest).map fun more => String.ofList (c :: d :: more)) ++
          [last], name ≠ "." ∧ name ≠ ".." := by
        intro name inside
        rcases List.mem_append.mp inside with shard | file
        · exact laterShardsPlain depth c d rest name shard
        · rw [List.mem_singleton.mp file]
          exact named
      rw [shardsTwice, List.cons_append, List.cons_append, levelChar, levelPair]
      by_cases dots : c = '.' ∧ d = '.'
      · simp [dots, Path.levelBelow]
      · have climbs : ¬ ['.', '.'] <+: c :: d :: rest := by
          simpa [eq_comm] using dots
        rw [if_neg dots, Path.levelNamed plain]
        simp only [climbs, and_false, false_implies, not_false_eq_true, true_implies, true_and,
          List.length_append, List.length_singleton]
        exact ⟨_, rfl⟩

theorem insideLevel (identifier root : String) (depth : Nat) :
    Path.Inside root (destination identifier root depth) ↔ ∃ level,
      Path.levelBelow 0 (shards depth (key identifier) ++ [modelFileName (key identifier)]) =
        some (level + 1) := by
  obtain ⟨names, start⟩ := destinationNames identifier root depth
  constructor
  · intro inside
    obtain ⟨below, last, level, same, _, found⟩ := inside.way
    have split : shards depth (key identifier) ++ [modelFileName (key identifier)] =
        below ++ [last] := by
      refine (List.append_right_inj (FileSystem.names root)).mp ?_
      rw [← List.append_assoc, ← List.append_assoc, ← names, same]
    exact ⟨level, by rw [split, found]⟩
  · rintro ⟨level, found⟩
    exact ⟨start, _, _, level, names, fileNameUnlikeDots identifier, found⟩

theorem destinationContained (identifier root : String) (depth : Nat) :
    Path.Inside root (destination identifier root depth) ↔ ¬ Climbs depth (key identifier) := by
  obtain ⟨leaves, stays⟩ := shardsLevel depth (key identifier) _ (fileNameUnlikeDots identifier)
  rw [insideLevel]
  constructor
  · rintro ⟨level, found⟩ climbs
    simp [leaves climbs] at found
  · exact stays

def dottedFiles : FileSystem where
  entries := [(["o"], .directory), (["..r"], .directory), (["a.py", "..r"], .file [0x61]),
    (["source_..r.asdf"], .file [0x00])]
  current := []

def dottedRun : Run (Except Failure Outcome) :=
  (Extractor.new { overwrite := true, shardDepth := 2 } fun _ => .tree (.leaf "module")).extract
    "..r" "o" ⟨.ofEpoch 0 0, .zero, "0"⟩ dottedFiles

theorem dottedKeyLeavesRoot :
    ¬ Path.Inside "o" (destination "..r" "o" 2) ∧
    dottedRun.result.toOption = some (.written "o/./../source_..r.asdf" 1) ∧
    dottedFiles.content? ["source_..r.asdf"] = some (.file [0x00]) ∧
    dottedRun.files.content? ["source_..r.asdf"] ≠ some (.file [0x00]) := by
  refine ⟨?_, by decide +kernel, by decide, by decide +kernel⟩
  rw [insideLevel]
  rintro ⟨level, found⟩
  have lost : Path.levelBelow 0 (shards 2 (key "..r") ++ [modelFileName (key "..r")]) = none := by
    decide +kernel
  simp [lost] at found

end Identifier

end SourceModels
