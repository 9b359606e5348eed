import SourceModels.Proofs.Identifier.Containment
import SourceModels.Proofs.Store.Placement

/-! Where the models of repositories lie below an output directory: no model lies where one of the
nested directories lies. -/
namespace SourceModels.Identifier
open FileSystem

theorem fileNameSize (key : String) : byteLength (modelFileName key) = byteLength key + 12 := by
  have source : byteLength "source_" = 7 := by decide
  have suffix : byteLength ".asdf" = 5 := by decide
  simp only [modelFileName, byteLengthAppend]
  omega

theorem shardsShorter {depth : Nat} {key shard : String} (inside : shard ∈ shards depth key) :
    byteLength shard < byteLength (modelFileName key) := by
  obtain ⟨name, grown, rfl⟩ := List.mem_map.mp inside
  have within : byteLength (String.ofList name) ≤ byteLength key :=
    byteLengthPrefix (by simpa using (growingNames grown).2)
  rw [fileNameSize]
  omega

theorem shardsGrounded {depth : Nat} {key : String}
    (grounded : ¬ ['.', '.'] <+: key.toList) : ".." ∉ shards depth key := by
  intro inside
  obtain ⟨name, grown, same⟩ := List.mem_map.mp inside
  rw [← String.toList_inj, String.toList_ofList] at same
  subst same
  exact grounded (growingNames grown).2

theorem plainShards (depth : Nat) (key : String) :
    plainNames (shards depth key) = shards depth key ∨
      ∃ first, shards depth key = first :: plainNames (shards depth key) := by
  unfold shards
  cases key.toList with
  | nil => cases depth <;> exact .inl rfl
  | cons c rest =>
    cases depth with
    | zero => exact .inl rfl
    | succ depth =>
      have longer : ∀ name ∈ ((growing depth rest).map (c :: ·)).map String.ofList, name ≠ "." := by
        intro name inside same
        subst same
        obtain ⟨chars, grown, dot⟩ := List.mem_map.mp inside
        obtain ⟨more, later, rfl⟩ := List.mem_map.mp grown
        rw [← String.toList_inj, String.toList_ofList] at dot
        exact (growingNames later).1 (by simpa using congrArg List.tail dot)
      have kept : plainNames (((growing depth rest).map (c :: ·)).map String.ofList) =
          ((growing depth rest).map (c :: ·)).map String.ofList :=
        List.filter_eq_self.mpr (by simpa using longer)
      rw [growing, List.map_cons]
      by_cases dot : String.ofList [c] = "."
      · refine .inr ⟨String.ofList [c], ?_⟩
        rw [plainNames, List.filter_cons_of_neg (by simpa using dot), ← plainNames, kept]
      · refine .inl ?_
        rw [plainNames, List.filter_cons_of_pos (by simpa using dot), ← plainNames, kept]

theorem shardLength {depth : Nat} {key name : String} {front : List String}
    (start : front ++ [name] <+: shards depth key) : name.toList.length = front.length + 1 := by
  obtain ⟨rest, whole⟩ := start
  have there : (shards depth key)[front.length]? = some name := by
    rw [← whole]
    simp
  simp only [shards, growingStarts, List.getElem?_map, Option.map_eq_some_iff] at there
  obtain ⟨chars, ⟨index, placed, rfl⟩, rfl⟩ := there
  obtain ⟨within, rfl⟩ := List.getElem?_eq_some_iff.mp placed
  rw [List.length_range] at within
  rw [String.toList_ofList, List.length_take, List.getElem_range]
  omega

theorem shardLevel {depth : Nat} {key name : String} {front : List String}
    (start : front ++ [name] <+: plainNames (shards depth key)) :
    name.toList.length ≤ front.length + 2 := by
  rcases plainShards depth key with same | ⟨first, same⟩
  · rw [same] at start
    exact Nat.le_succ_of_le (Nat.le_of_eq (shardLength start))
  · have whole : (first :: front) ++ [name] <+: shards depth key := by
      rw [same]
      exact List.cons_prefix_cons.mpr ⟨rfl, start⟩
    exact Nat.le_of_eq (shardLength whole)

def ShardPlace (top location : Location) : Prop :=
  ∃ front name, location = name :: (front ++ top) ∧ name.toList.length ≤ front.length + 2

def place (depth : Nat) (top : Location) (key : String) : Location :=
  modelFileName key :: ((plainNames (shards depth key)).reverse ++ top)

theorem fileNameLength (key : String) :
    (modelFileName key).toList.length = key.toList.length + 12 := by
  have source : "source_".toList.length = 7 := by decide
  have suffix : ".asdf".toList.length = 5 := by decide
  simp only [modelFileName, String.toList_append, List.length_append, source, suffix]
  omega

theorem shardsCount (depth : Nat) (key : String) :
    (plainNames (shards depth key)).length ≤ key.toList.length := by
  have plain : (plainNames (shards depth key)).length ≤ (shards depth key).length :=
    List.length_filter_le ..
  have few : (shards depth key).length ≤ key.toList.length := by
    rw [shards, growingStarts, List.length_map, List.length_map, List.length_range]
    exact Nat.min_le_right ..
  exact Nat.le_trans plain few

theorem longUnlikeShard {depth : Nat} {top : Location} {key name : String}
    (long : key.toList.length + 2 < name.toList.length) :
    ¬ ShardPlace top (name :: ((plainNames (shards depth key)).reverse ++ top)) := by
  rintro ⟨front, name', same, short⟩
  obtain ⟨rfl, rest⟩ := List.cons.inj same
  have count := congrArg List.length rest
  have few := shardsCount depth key
  simp only [List.length_append, List.length_reverse] at count
  omega

theorem placeUnlikeShard (depth : Nat) (top : Location) (key : String) :
    ¬ ShardPlace top (place depth top key) :=
  longUnlikeShard (by rw [fileNameLength]; omega)

theorem stagingUnlikeShard (depth : Nat) (top : Location) (identifier output token : String) :
    ¬ ShardPlace top (Store.stagingName (destination identifier output depth) token ::
      ((plainNames (shards depth (key identifier))).reverse ++ top)) := by
  have split := (destinationNames identifier output depth).1
  have staged := (Store.stagingJoined split (fileNameUnlikeDots identifier) token).1
  refine longUnlikeShard ?_
  rw [staged]
  simp only [String.toList_append, List.length_append, fileNameLength]
  omega

theorem destinationBelow {identifier output : String} {depth : Nat}
    (grounded : ¬ ['.', '.'] <+: (key identifier).toList) :
    Below output (destination identifier output depth) (shards depth (key identifier))
      (modelFileName (key identifier)) where
  split := (destinationNames identifier output depth).1
  within := shardsGrounded grounded
  named := fileNameUnlikeDots identifier
  start := (destinationNames identifier output depth).2
  ends := by
    have filled : (modelFileName (key identifier)).toList ≠ [] :=
      List.ne_nil_of_length_pos (by rw [fileNameLength]; omega)
    have last : (modelFileName (key identifier)).toList.getLast? = some 'f' := by
      simp only [modelFileName, String.toList_append, List.getLast?_append]
      rfl
    simp [hasTrailingSlash, destination, Path.join, Path.joinedLast filled, last]

end SourceModels.Identifier
