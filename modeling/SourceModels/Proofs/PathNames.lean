import SourceModels.FileSystem.Lookup
import SourceModels.Proofs.Utf8
import SourceModels.Store

/-! The names in joined paths: joining adds one name at the end, and the staging file of a model is
named beside its target. -/
namespace SourceModels.Path

theorem splitNonempty (sep : Char) (text : List Char) : Text.splitOn sep text ≠ [] := by
  cases text with
  | nil => simp [Text.splitOn]
  | cons c rest =>
    simp only [Text.splitOn]
    split
    · simp
    · split <;> simp

theorem splitAppend (sep : Char) (front back : List Char) :
    Text.splitOn sep (front ++ sep :: back) = Text.splitOn sep front ++ Text.splitOn sep back := by
  induction front with
  | nil =>
    cases h : Text.splitOn sep back with
    | nil => exact absurd h (splitNonempty sep back)
    | cons piece more => simp [Text.splitOn, h]
  | cons c rest ih =>
    cases h : Text.splitOn sep rest with
    | nil => exact absurd h (splitNonempty sep rest)
    | cons piece more =>
      simp only [List.cons_append, Text.splitOn, ih, h]
      split <;> simp

theorem splitSingle {sep : Char} {text : List Char} (absent : sep ∉ text) :
    Text.splitOn sep text = [text] := by
  induction text with
  | nil => rfl
  | cons c rest ih =>
    have other : c ≠ sep := by
      intro same
      exact absent (by simp [same])
    have tail : sep ∉ rest := fun inside => absent (List.mem_cons_of_mem c inside)
    simp [Text.splitOn, ih tail, other]

theorem splitInside {sep c : Char} {text part : List Char} (listed : part ∈ Text.splitOn sep text)
    (inside : c ∈ part) : c ∈ text := by
  induction text generalizing part with
  | nil =>
    rw [Text.splitOn, List.mem_singleton] at listed
    rwa [listed] at inside
  | cons x rest ih =>
    rw [Text.splitOn] at listed
    cases split : Text.splitOn sep rest with
    | nil => exact absurd split (splitNonempty sep rest)
    | cons piece more =>
      rw [split] at listed ih
      have later : ∀ {part}, part ∈ more → c ∈ part → c ∈ x :: rest := fun listed inside =>
        List.mem_cons_of_mem _ (ih (List.mem_cons_of_mem _ listed) inside)
      have first : c ∈ piece → c ∈ x :: rest := fun inside =>
        List.mem_cons_of_mem _ (ih List.mem_cons_self inside)
      dsimp only at listed
      split at listed
      · rcases List.mem_cons.mp listed with rfl | listed
        · cases inside
        · rcases List.mem_cons.mp listed with rfl | listed
          · exact first inside
          · exact later listed inside
      · rcases List.mem_cons.mp listed with rfl | listed
        · rcases List.mem_cons.mp inside with rfl | inside
          · exact List.mem_cons_self
          · exact first inside
        · exact later listed inside

theorem splitCovers {sep c : Char} {text : List Char} (inside : c ∈ text) (other : c ≠ sep) :
    ∃ part ∈ Text.splitOn sep text, c ∈ part := by
  induction text with
  | nil => contradiction
  | cons x rest ih =>
    cases split : Text.splitOn sep rest with
    | nil => exact absurd split (splitNonempty sep rest)
    | cons piece more =>
      rw [split] at ih
      simp only [Text.splitOn, split]
      split
      · rename_i same
        rcases List.mem_cons.mp inside with rfl | later
        · exact absurd same other
        · obtain ⟨part, listed, held⟩ := ih later
          exact ⟨part, List.mem_cons_of_mem _ listed, held⟩
      · rcases List.mem_cons.mp inside with rfl | later
        · exact ⟨_, List.mem_cons_self, List.mem_cons_self⟩
        · obtain ⟨part, listed, held⟩ := ih later
          rcases List.mem_cons.mp listed with rfl | listed
          · exact ⟨_, List.mem_cons_self, List.mem_cons_of_mem _ held⟩
          · exact ⟨part, List.mem_cons_of_mem _ listed, held⟩

theorem partsSlash (front back : List Char) :
    parts (front ++ '/' :: back) = parts front ++ parts back := by
  simp [parts, splitAppend]

theorem partsSingle {name : List Char} (plain : '/' ∉ name) (nonempty : name ≠ []) :
    parts name = [name] := by
  simp [parts, splitSingle plain, nonempty]

theorem partsJoined {base name : List Char} (plain : '/' ∉ name) (nonempty : name ≠ []) :
    parts (joinChars base name) = parts base ++ [name] := by
  have single := partsSingle plain nonempty
  have empty : parts [] = [] := by simp [parts, Text.splitOn]
  unfold joinChars
  split
  · rename_i rest
    exact absurd (List.mem_cons_self ..) plain
  · split
    · rename_i none
      have nothing : base = [] := by simpa using none
      simp [nothing, single, empty]
    · rename_i slash
      obtain ⟨front, same⟩ := List.getLast?_eq_some_iff.mp slash
      subst same
      rw [List.append_assoc, List.singleton_append, partsSlash, partsSlash, single, empty]
      simp
    · rw [partsSlash, single]

theorem joinedLast {base name : List Char} (nonempty : name ≠ []) :
    (joinChars base name).getLast? = name.getLast? := by
  unfold joinChars
  split
  · rfl
  · split
    · rfl
    · simp [List.getLast?_append, List.getLast?_eq_some_getLast nonempty]
    · simp [List.getLast?_append, List.getLast?_cons, List.getLast?_eq_some_getLast nonempty]

def joint (base : List Char) : List Char :=
  if base = [] ∨ base.getLast? = some '/' then base else base ++ ['/']

theorem joinedAs (base : List Char) {part : List Char} (relative : part.head? ≠ some '/') :
    joinChars base part = joint base ++ part := by
  unfold joinChars
  split
  · simp at relative
  · split
    · rename_i none
      simp [joint, List.getLast?_eq_none_iff.mp none]
    · rename_i slash
      simp [joint, slash]
    · rename_i c other last
      have filled : base ≠ [] := by
        rintro rfl
        simp at last
      have plain : c ≠ '/' := fun slash => other slash
      simp [joint, filled, last, plain]

theorem joinedStart {base name : String} (plain : '/' ∉ name.toList) :
    isAbsolute (join base name) = isAbsolute base := by
  cases base' : base.toList with
  | nil =>
    have relative : name.toList.head? ≠ some '/' := by
      intro slash
      exact plain (List.mem_of_mem_head? slash)
    cases name' : name.toList with
    | nil => simp [isAbsolute, join, joinChars, base', name']
    | cons c rest =>
      simp only [name', List.head?_cons, ne_eq, Option.some.injEq] at relative
      simp [isAbsolute, join, joinChars, base', name', relative]
  | cons b more =>
    unfold isAbsolute join joinChars
    split
    · rename_i rest slash
      exact absurd (slash ▸ List.mem_cons_self) plain
    · split <;> simp_all

theorem stripNamePlain {reversed before name : List Char} {fuel : Nat}
    (found : splitLast.strip reversed fuel = some (before, name)) : '/' ∉ name := by
  induction fuel generalizing reversed with
  | zero => simp [splitLast.strip] at found
  | succ fuel ih =>
    simp only [splitLast.strip] at found
    split at found
    · contradiction
    · split at found
      · exact ih found
      · cases found
        intro inside
        have kept := List.all_eq_true.mp List.all_takeWhile '/' (List.mem_reverse.mp inside)
        simp at kept

theorem fileNamePlain {path name : String} (found : fileName? path = some name) :
    '/' ∉ name.toList := by
  unfold fileName? at found
  split at found
  · rename_i before last split
    split at found
    · contradiction
    · cases found
      simpa using stripNamePlain split
  · contradiction

theorem withFileNameJoins (path name : String) : ∃ base, withFileName path name = join base name := by
  unfold withFileName
  split
  · exact ⟨_, rfl⟩
  · exact ⟨_, rfl⟩

end SourceModels.Path

namespace SourceModels.FileSystem

theorem namesJoined {base name : String} (plain : '/' ∉ name.toList) (nonempty : name.toList ≠ []) :
    names (Path.join base name) = names base ++ [name] := by
  simp [names, Path.join, Path.partsJoined plain nonempty]

end SourceModels.FileSystem

namespace SourceModels.Store

theorem stagingNamePlain {path token : String} (plain : '/' ∉ token.toList) :
    '/' ∉ (stagingName path token).toList := by
  have name : '/' ∉ ((Path.fileName? path).getD "").toList := by
    cases h : Path.fileName? path with
    | none => simp
    | some name => simpa using Path.fileNamePlain h
  simp [stagingName, String.toList_append, plain, name]

theorem stagingNameLong (path token : String) : 2 < (stagingName path token).toList.length := by
  simp [stagingName, String.toList_append]
  omega

theorem stagingNameUnlikeDots (path token : String) :
    stagingName path token ≠ "." ∧ stagingName path token ≠ ".." := by
  have long := stagingNameLong path token
  constructor <;> intro same <;> simp [same] at long

theorem stagingPathNames {path token : String} (plain : '/' ∉ token.toList) :
    ∃ front, FileSystem.names (stagingPath path token) = front ++ [stagingName path token] := by
  obtain ⟨base, same⟩ := Path.withFileNameJoins path (stagingName path token)
  have long := stagingNameLong path token
  refine ⟨FileSystem.names base, ?_⟩
  rw [stagingPath, same]
  exact FileSystem.namesJoined (stagingNamePlain plain) (List.ne_nil_of_length_pos (by omega))

theorem stagingPathEnds (path token : String) :
    FileSystem.hasTrailingSlash (stagingPath path token) = false := by
  obtain ⟨base, same⟩ := Path.withFileNameJoins path (stagingName path token)
  have long := stagingNameLong path token
  have last : (Path.joinChars base.toList (stagingName path token).toList).getLast? = some 'p' := by
    rw [Path.joinedLast (List.ne_nil_of_length_pos (by omega))]
    simp only [stagingName, String.toList_append, List.getLast?_append]
    rfl
  simp [FileSystem.hasTrailingSlash, stagingPath, same, Path.join, last]

end SourceModels.Store

namespace SourceModels.FileSystem

theorem byteLengthAppend (front back : String) :
    byteLength (front ++ back) = byteLength front + byteLength back := by
  simp only [byteLength, Utf8.ofTextChars, String.toList_append, Bytes.ofCharsAppend,
    List.length_append]

theorem byteLengthPrefix {front whole : String} (starts : front.toList <+: whole.toList) :
    byteLength front ≤ byteLength whole := by
  obtain ⟨rest, same⟩ := starts
  simp only [byteLength, Utf8.ofTextChars, ← same, Bytes.ofCharsAppend, List.length_append]
  exact Nat.le_add_right ..

end SourceModels.FileSystem
