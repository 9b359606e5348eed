import SourceModels.Model.Stored
import SourceModels.Proofs.Column
import SourceModels.Proofs.Instant
import SourceModels.Proofs.MessagePack.Parts

/-! The values that columns, metadata and models are kept in: how they fit, and that each is read as
what it was made from. -/
namespace SourceModels
open MessagePack

namespace Column

structure Fits (column : Column) : Prop where
  data : column.data.length < lengthBound
  count : column.lengths.length < lengthBound

theorem Fits.rebuilt {column : Column} (fits : column.Fits) (made : column.Made) :
    ofParts column.data column.lengths = .ok column := by
  have bound := fits.data
  refine made.rebuilt ?_
  simp only [lengthBound, maxPlace] at bound ⊢
  omega

theorem fieldsFit : ∀ name ∈ fields, Value.TextFits name := by decide

theorem valueFits {column : Column} (fits : column.Fits) : column.toValue.Fits := by
  have names := fieldsFit
  simp only [fields, List.forall_mem_cons] at names
  obtain ⟨data, lengths, _⟩ := names
  exact Value.recordFits (by simp) (by simp [lengthBound])
    ⟨data, fits.data, lengths, Value.wordsFit fits.count, trivial⟩

theorem valueDepth (column : Column) : column.toValue.depth = 2 := by
  have flat : Value.maxDepth (column.lengths.map .ofWord) = 0 :=
    Value.maxDepthFlat (by simp [Value.depthWord])
  simp [toValue, Value.depth, Value.maxDepth, Value.depthText, flat]

theorem valueRead {column : Column} (rebuilt : ofParts column.data column.lengths = .ok column) :
    ofValue column.toValue = .ok column := by
  have data : Value.key fields (.ofText "data") = .field 0 := Value.keyRead (by decide)
  have lengths : Value.key fields (.ofText "lengths") = .field 1 := Value.keyRead (by decide)
  have parts : partsOf? column.toValue = some (column.data, column.lengths) := by
    simp [partsOf?, toValue, ofFlat, data, lengths, Partial.put, Value.bytes?]
  simp only [ofValue, parts, orMalformed, bind, Except.bind]
  exact mapErrorDone.mpr rebuilt

end Column

namespace Metadata

structure Fits (m : Metadata) : Prop where
  kind : Value.TextFits m.kind
  dependencies : Value.TextsFit m.dependencies

theorem fieldsFit : ∀ name ∈ fields, Value.TextFits name := by decide

theorem instantFits {t : Instant} (valid : t.isValid = true) : Value.TextFits t.stored := by
  have chars := Instant.storedShort valid
  have bytes := Utf8.lengthBounded t.stored.toList
  simp only [Value.TextFits, Utf8.ofTextChars, lengthBound]
  omega

theorem versionFits (v : Version) : v.toValue.Fits := by
  simp [Version.toValue, Value.Fits, Value.AllFit, Value.wordFits, lengthBound]

theorem valueFits {m : Metadata} (fits : m.Fits) (valid : m.createdAt.isValid = true) :
    m.toValue.Fits := by
  have names := fieldsFit
  simp only [fields, List.forall_mem_cons] at names
  obtain ⟨model, dependencies, createdAt, uuid, version, _⟩ := names
  have bytes : m.uuid.bytes.length < lengthBound := by
    rw [m.uuid.length_eq]
    decide
  exact Value.recordFits (by simp) (by simp [lengthBound])
    ⟨model, fits.kind, dependencies, Value.textsFit fits.dependencies, createdAt,
      instantFits valid, uuid, bytes, version, versionFits m.version, trivial⟩

theorem versionDepth (v : Version) : v.toValue.depth = 1 := by
  simp [Version.toValue, Value.depth, Value.maxDepth, Value.depthWord]

theorem valueDepth (m : Metadata) : m.toValue.depth = 2 := by
  simp [toValue, Value.depth, Value.maxDepth, Value.depthText, Value.depthTexts, versionDepth]

theorem instantRead {t : Instant} (valid : t.isValid = true) :
    Instant.ofValue? (.ofText t.stored) = some t := by
  simp [Instant.ofValue?, Value.ofText, Instant.storedRead valid]

theorem uuidRead (u : Uuid) : Uuid.ofValue? (.binary u.bytes) = some u := by
  simp [Uuid.ofValue?, Uuid.ofBytes?, u.length_eq]

theorem versionRead (v : Version) : Version.ofValue? v.toValue = some v := by
  simp [Version.ofValue?, Version.toValue]

theorem valueRead {m : Metadata} (valid : m.createdAt.isValid = true) :
    ofValue? m.toValue = some m := by
  have model : Value.key fields (.ofText "model") = .field 0 := Value.keyRead (by decide)
  have dependencies : Value.key fields (.ofText "dependencies") = .field 1 :=
    Value.keyRead (by decide)
  have createdAt : Value.key fields (.ofText "created_at") = .field 2 := Value.keyRead (by decide)
  have uuid : Value.key fields (.ofText "uuid") = .field 3 := Value.keyRead (by decide)
  have version : Value.key fields (.ofText "version") = .field 4 := Value.keyRead (by decide)
  simp [ofValue?, toValue, ofFlat, model, dependencies, createdAt, uuid, version, Partial.put,
    Partial.finish, instantRead valid, uuidRead, versionRead]

end Metadata

namespace Model

structure Fits (model : Model) : Prop where
  metadata : model.metadata.Fits
  repository : Value.TextFits model.repository
  filenames : Value.TextsFit model.filenames
  sources : model.sources.Fits
  trees : model.trees.Fits

theorem fieldsFit : ∀ name ∈ fields, Value.TextFits name := by decide

theorem valueFits {model : Model} (fits : model.Fits)
    (valid : model.metadata.createdAt.isValid = true) : model.toValue.Fits := by
  have names := fieldsFit
  simp only [fields, List.forall_mem_cons] at names
  obtain ⟨metadata, repository, filenames, sources, trees, _⟩ := names
  exact Value.recordFits (by simp) (by simp [lengthBound])
    ⟨metadata, Metadata.valueFits fits.metadata valid, repository, fits.repository, filenames,
      Value.textsFit fits.filenames, sources, Column.valueFits fits.sources, trees,
      Column.valueFits fits.trees, trivial⟩

theorem valueDepth (model : Model) : model.toValue.depth = 3 := by
  simp [toValue, Value.depth, Value.maxDepth, Value.depthText, Value.depthTexts,
    Metadata.valueDepth, Column.valueDepth]

theorem valueRead {model : Model} (valid : model.metadata.createdAt.isValid = true)
    (sources : Column.ofParts model.sources.data model.sources.lengths = .ok model.sources)
    (trees : Column.ofParts model.trees.data model.trees.lengths = .ok model.trees) :
    ofValue model.toValue = .ok model := by
  have metadata : Value.key fields (.ofText "meta") = .field 0 := Value.keyRead (by decide)
  have repository : Value.key fields (.ofText "repository") = .field 1 :=
    Value.keyRead (by decide)
  have filenames : Value.key fields (.ofText "filenames") = .field 2 := Value.keyRead (by decide)
  have contents : Value.key fields (.ofText "sources") = .field 3 := Value.keyRead (by decide)
  have stored : Value.key fields (.ofText "uasts") = .field 4 := Value.keyRead (by decide)
  simp [ofValue, toValue, ofFlat, metadata, repository, filenames, contents, stored, Partial.put,
    Partial.finish, orMalformed, Metadata.valueRead valid, Column.valueRead sources,
    Column.valueRead trees, bind, Except.bind, pure, Except.pure]

end Model

end SourceModels
