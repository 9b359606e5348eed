import SourceModels.Proofs.MessagePack.Records
import SourceModels.Proofs.Model.Stored

/-! What is loaded from bytes, whoever made them, can be accessed: entry by entry or in a row, and no
entry reaches into another. -/
namespace SourceModels
open MessagePack

namespace Column

def Rebuilt (column : Column) : Prop := ofParts column.data column.lengths = .ok column

theorem valueRebuilt {v : Value} {column : Column} (read : ofValue v = .ok column) :
    column.Rebuilt := by
  cases parts : partsOf? v with
  | none => simp [ofValue, parts, orMalformed, bind, Except.bind] at read
  | some found =>
    obtain ⟨data, lengths⟩ := found
    simp only [ofValue, parts, orMalformed, bind, Except.bind] at read
    have made := mapErrorDone.mp read
    obtain ⟨-, same⟩ := ofPartsDone.mp made
    rw [Rebuilt, same]
    rw [same] at made
    exact made

end Column

theorem Store.readOk {fs : FileSystem} {path : String} {model : Model}
    (loaded : Store.read fs path = .ok model) :
    ∃ bytes, fs.readBytes path = .ok bytes ∧ Model.ofBytes bytes = .ok model := by
  unfold Store.read at loaded
  split at loaded
  · cases loaded
  · rename_i bytes held
    exact ⟨bytes, held, loaded⟩

namespace Model

structure Partial.Rebuilt (parts : Partial) : Prop where
  sources : ∀ column, parts.sources = some column → column.Rebuilt
  trees : ∀ column, parts.trees = some column → column.Rebuilt

theorem putRebuilt {parts grown : Partial} {index : Nat} {v : Value} (before : parts.Rebuilt)
    (done : parts.put index v = .ok grown) : grown.Rebuilt := by
  unfold Partial.put at done
  split at done <;> try split at done
  all_goals first
    | cases done
    | (obtain ⟨read, value, same⟩ := boundDone done
       cases same)
  · exact ⟨before.sources, before.trees⟩
  · exact ⟨before.sources, before.trees⟩
  · exact ⟨before.sources, before.trees⟩
  · refine ⟨?_, before.trees⟩
    rintro _ ⟨⟩
    exact Column.valueRebuilt value
  · refine ⟨before.sources, ?_⟩
    rintro _ ⟨⟩
    exact Column.valueRebuilt value

theorem flatKeyed {flat : List Value} {parts out : Partial} (read : ofFlat parts flat = .ok out) :
    Value.Keyed fields (fun parts i v grown => parts.put i v = .ok grown) parts flat out := by
  fun_induction ofFlat parts flat with
  | case1 parts key v rest i known ih =>
    obtain ⟨grown, done, later⟩ := boundDone read
    exact .field known done (ih grown later)
  | case2 parts key v rest unknown whole ih => exact .other unknown whole (ih read)
  | case3 => cases read
  | case4 => cases read
  | case5 => cases read; exact .done
  | case6 => cases read

theorem itemsPlaced {items : List Value} {index : Nat} {parts out : Partial}
    (read : ofItems index parts items = .ok out) :
    Value.Placed (fun parts i v grown => parts.put i v = .ok grown) index parts items out := by
  induction items generalizing index parts with
  | nil => cases read; exact .done
  | cons v rest ih =>
    obtain ⟨grown, done, later⟩ := boundDone read
    exact .item done (ih later)

theorem finishRebuilt {parts : Partial} {model : Model} (rebuilt : parts.Rebuilt)
    (done : parts.finish = .ok model) : model.sources.Rebuilt ∧ model.trees.Rebuilt := by
  obtain ⟨metadata, repository, filenames, sources, trees⟩ := parts
  cases metadata <;> cases repository <;> cases filenames <;> cases sources <;> cases trees <;>
    cases done
  exact ⟨rebuilt.sources _ rfl, rebuilt.trees _ rfl⟩

theorem valueRebuilt {v : Value} {model : Model} (read : ofValue v = .ok model) :
    model.sources.Rebuilt ∧ model.trees.Rebuilt := by
  have nothing : Partial.Rebuilt {} := ⟨by simp, by simp⟩
  unfold ofValue at read
  split at read
  · obtain ⟨parts, taken, done⟩ := boundDone read
    have rebuilt := (flatKeyed taken).kept (fun _ put before => putRebuilt before put) nothing
    exact finishRebuilt rebuilt done
  · obtain ⟨parts, taken, done⟩ := boundDone read
    have rebuilt := (itemsPlaced taken).kept (fun put before => putRebuilt before put) nothing
    exact finishRebuilt rebuilt done
  · cases read

structure Valid (model : Model) : Prop where
  kind : model.metadata.kind = sourceKind
  sources : model.sources.size = model.size
  trees : model.trees.size = model.size
  sourcesCovered : model.sources.total = model.sources.data.length
  treesCovered : model.trees.total = model.trees.data.length

theorem columnCovered {column : Column} (checked : checkColumn column = .ok ()) :
    column.total = column.data.length := by
  have valid : column.validate = .ok () := mapErrorDone.mp checked
  unfold Column.validate at valid
  split at valid
  · cases valid
  · rename_i covered
    simp only [not_or, Decidable.not_not] at covered
    exact covered.1

theorem valid {model : Model} (accepted : model.validate = .ok ()) : model.Valid := by
  unfold validate at accepted
  split at accepted
  · cases accepted
  rename_i kind
  split at accepted
  · cases accepted
  rename_i aligned
  simp only [not_or, Decidable.not_not] at aligned
  obtain ⟨_, sources, trees⟩ := boundDone accepted
  exact ⟨Decidable.not_not.mp kind, aligned.1.symm, aligned.2.symm, columnCovered sources,
    columnCovered trees⟩

theorem bytesRead {bytes : Bytes} {model : Model} (read : ofBytes bytes = .ok model) :
    decode bytes = .ok model ∧ model.validate = .ok () := by
  obtain ⟨found, decoded, checked⟩ := boundDone read
  obtain ⟨_, accepted, same⟩ := boundDone checked
  cases same
  exact ⟨mapErrorDone.mp decoded, accepted⟩

structure Accessible (model : Model) : Prop where
  kind : model.metadata.kind = "source"
  sourcesAligned : model.sources.size = model.size
  treesAligned : model.trees.size = model.size
  sourcesCovered : model.sources.total = model.sources.data.length
  treesCovered : model.trees.total = model.trees.data.length
  count : model.entries.length = model.size
  filenames : model.entries.map Entry.filename = model.filenames
  each : ∀ index < model.size, ∃ entry, model.entry index = .ok entry ∧
    model.entries[index]? = some entry
  sources : (model.entries.map Entry.source).flatten = model.sources.data
  trees : (model.entries.map Entry.tree).flatten = model.trees.data
  sourceLengths : model.entries.map (·.source.length) = model.sources.lengths.map UInt32.toNat
  treeLengths : model.entries.map (·.tree.length) = model.trees.lengths.map UInt32.toNat
  beyond : ∀ index, model.size ≤ index →
    model.entry index = .error (.outOfRange index model.size) ∧
    model.tree index = .error (.outOfRange index model.size)

section Columns

variable {model : Model} {sources trees : List Bytes} (files : model.sources.Holds sources)
  (parsed : model.trees.Holds trees)

include files parsed

theorem entriesHeld : model.entries =
    (model.filenames.zip (sources.zip trees)).map fun (filename, source, tree) =>
      ⟨filename, source, tree⟩ := by
  rw [entries, files.entries, parsed.entries]

theorem entryHeld (index : Nat) : model.entry? index = model.entries[index]? := by
  rw [entriesHeld files parsed, entry?, files.get, parsed.get]
  simp only [List.getElem?_map, List.zip, List.getElem?_zipWith]
  cases model.filenames[index]? <;> cases sources[index]? <;> cases trees[index]? <;> rfl

variable (aligned : sources.length = model.size) (alongside : trees.length = model.size)

include aligned alongside

theorem entriesCount : model.entries.length = model.size := by
  simp only [entriesHeld files parsed, List.length_map, List.length_zip, aligned, alongside, size,
    Nat.min_self]

theorem entryColumns : model.entries.map Entry.filename = model.filenames ∧
    model.entries.map Entry.source = sources ∧ model.entries.map Entry.tree = trees := by
  have inner : sources.length ≤ trees.length := by omega
  have outer : (sources.zip trees).length = model.filenames.length := by
    simp only [List.length_zip, aligned, alongside, size, Nat.min_self]
  have seconds : (model.filenames.zip (sources.zip trees)).map Prod.snd = sources.zip trees :=
    List.map_snd_zip (Nat.le_of_eq outer)
  rw [entriesHeld files parsed]
  simp only [List.map_map, Function.comp_def]
  refine ⟨?_, ?_, ?_⟩
  · exact List.map_fst_zip (Nat.le_of_eq outer.symm)
  · have firsts := congrArg (List.map Prod.fst) seconds
    rw [List.map_map, List.map_fst_zip inner] at firsts
    exact firsts
  · have lasts := congrArg (List.map Prod.snd) seconds
    rw [List.map_map, List.map_snd_zip (by omega)] at lasts
    exact lasts

theorem entryInside {index : Nat} (inside : index < model.size) :
    ∃ entry, model.entry index = .ok entry ∧ model.entries[index]? = some entry := by
  have count := entriesCount files parsed aligned alongside
  have found := List.getElem?_eq_getElem (l := model.entries) (count.symm ▸ inside)
  refine ⟨_, ?_, found⟩
  simp only [entry, entryHeld files parsed, found]

theorem entryBeyond {index : Nat} (outside : model.size ≤ index) :
    model.entry index = .error (.outOfRange index model.size) ∧
      model.tree index = .error (.outOfRange index model.size) := by
  have count := entriesCount files parsed aligned alongside
  have missing : model.entries[index]? = none := List.getElem?_eq_none (count.symm ▸ outside)
  have refused : model.entry index = .error (.outOfRange index model.size) := by
    simp only [entry, entryHeld files parsed, missing]
  exact ⟨refused, by rw [tree, refused]; rfl⟩

end Columns

theorem loadedAccessible {fs : FileSystem} {path : String} {model : Model}
    (loaded : Store.read fs path = .ok model) : model.Accessible := by
  obtain ⟨bytes, held, read⟩ := Store.readOk loaded
  obtain ⟨decoded, accepted⟩ := bytesRead read
  obtain ⟨sourcesRebuilt, treesRebuilt⟩ := valueRebuilt decoded
  have valid := valid accepted
  have files := Column.coveredHolds sourcesRebuilt valid.sourcesCovered
  have parsed := Column.coveredHolds treesRebuilt valid.treesCovered
  obtain ⟨sourcesWhole, sourceSizes⟩ := Column.cutWhole valid.sourcesCovered
  obtain ⟨treesWhole, treeSizes⟩ := Column.cutWhole valid.treesCovered
  have aligned : (Column.cut model.sources.data model.sources.lengths).length = model.size := by
    have same := congrArg List.length sourceSizes
    simpa [← valid.sources, Column.size] using same
  have alongside : (Column.cut model.trees.data model.trees.lengths).length = model.size := by
    have same := congrArg List.length treeSizes
    simpa [← valid.trees, Column.size] using same
  obtain ⟨filenames, sources, trees⟩ := entryColumns files parsed aligned alongside
  exact {
    kind := valid.kind
    sourcesAligned := valid.sources
    treesAligned := valid.trees
    sourcesCovered := valid.sourcesCovered
    treesCovered := valid.treesCovered
    count := entriesCount files parsed aligned alongside
    filenames := filenames
    each := fun index inside => entryInside files parsed aligned alongside inside
    sources := by rw [sources, sourcesWhole]
    trees := by rw [trees, treesWhole]
    sourceLengths := by rw [← sourceSizes, ← sources, List.map_map]; rfl
    treeLengths := by rw [← treeSizes, ← trees, List.map_map]; rfl
    beyond := fun index outside => entryBeyond files parsed aligned alongside outside }

def looselyStored : Value :=
  .array [
    .array [.ofText "source", .ofTexts [], .ofText "1970-01-01T00:00:00Z",
      .binary (List.replicate 16 0), .array [.unsigned 1, .unsigned 0, .unsigned 0]],
    .ofText "r", .ofTexts ["a", "b"], .array [.binary [1, 2, 3], .binary [2, 1]],
    .map [.unsigned 1, .array [.unsigned 0, .unsigned 1], .ofText "data", .text [192]]]

def loosely : FileSystem := ⟨[(["m"], .file looselyStored.write)], [], []⟩

theorem looselyAccessible : ∃ model, Store.read loosely "m" = .ok model ∧ model.size = 2 ∧
    model.Accessible := by
  have sizes : (Store.read loosely "m").toOption.map Model.size = some 2 := by decide +kernel
  cases loaded : Store.read loosely "m" with
  | error fault => simp [loaded, Except.toOption] at sizes
  | ok model =>
    have two : model.size = 2 := by simpa [loaded, Except.toOption] using sizes
    exact ⟨model, rfl, two, loadedAccessible loaded⟩

end Model

end SourceModels
