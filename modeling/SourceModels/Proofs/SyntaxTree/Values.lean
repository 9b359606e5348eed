import SourceModels.SyntaxTree.Stored
import SourceModels.Proofs.MessagePack.Parts

/-! The values that trees are kept in: how they fit, how deep they are, and that each is read as its
tree. -/
namespace SourceModels
open MessagePack

namespace Position

theorem fieldsFit : ∀ name ∈ fields, Value.TextFits name := by decide

theorem valueFits (p : Position) : p.toValue.Fits := by
  have names := fieldsFit
  simp only [fields, List.forall_mem_cons] at names
  obtain ⟨offset, line, column, _⟩ := names
  simp [toValue, Value.Fits, Value.AllFit, Value.wordFits, Value.textFits, lengthBound, *]

@[simp]
theorem valueRead (p : Position) : ofValue? p.toValue = some p := by
  have offset : Value.key fields (.ofText "offset") = .field 0 := Value.keyRead (by decide)
  have line : Value.key fields (.ofText "line") = .field 1 := Value.keyRead (by decide)
  have column : Value.key fields (.ofText "col") = .field 2 := Value.keyRead (by decide)
  simp [ofValue?, toValue, ofFlat, offset, line, column, Partial.put, Partial.finish]

@[simp]
theorem orNilRead (p : Position) : orNil? p.toValue = some (some p) := by
  have read := valueRead p
  simp only [toValue] at read ⊢
  simp [orNil?, read]

theorem valueDepth (p : Position) : p.toValue.depth = 1 := by
  simp [toValue, Value.depth, Value.maxDepth, Value.depthText, Value.depthWord]

end Position

namespace Properties

def Fits (properties : Properties) : Prop :=
  properties.entries.length < lengthBound ∧
    ∀ e ∈ properties.entries, Value.TextFits e.1 ∧ Value.TextFits e.2

theorem insertLast {key value : String} {entries : List (String × String)}
    (last : ∀ e ∈ entries, e.1 < key) :
    insertEntry key value entries = entries ++ [(key, value)] := by
  induction entries with
  | nil => rfl
  | cons first rest ih =>
    obtain ⟨k, v⟩ := first
    have less : k < key := last (k, v) List.mem_cons_self
    have notGreater : ¬ key < k := String.lt_asymm less
    have later := ih fun e inside => last e (List.mem_cons_of_mem _ inside)
    simp [insertEntry, less, notGreater, later]

def flat (entries : List (String × String)) : List Value :=
  entries.flatMap fun e => [.ofText e.1, .ofText e.2]

theorem entriesRead {properties : Properties} {entries : List (String × String)}
    (ascending : (properties.entries ++ entries).Pairwise (fun a b => a.1 < b.1)) :
    ∃ read, ofFlat properties (flat entries) = some read ∧
      read.entries = properties.entries ++ entries := by
  induction entries generalizing properties with
  | nil => exact ⟨properties, rfl, by simp⟩
  | cons e rest ih =>
    have last : ∀ d ∈ properties.entries, d.1 < e.1 := by
      intro d inside
      exact (List.pairwise_append.mp ascending).2.2 d inside e List.mem_cons_self
    have grown : (properties.insert e.1 e.2).entries = properties.entries ++ [e] := insertLast last
    obtain ⟨read, reads, whole⟩ := @ih (properties.insert e.1 e.2) (by simpa [grown] using ascending)
    refine ⟨read, ?_, ?_⟩
    · simpa [flat, ofFlat] using reads
    · simp [whole, grown]

@[simp]
theorem valueRead (properties : Properties) : ofValue? properties.toValue = some properties := by
  obtain ⟨read, reads, whole⟩ := @entriesRead empty properties.entries properties.ascending
  have same : read = properties := by
    cases read
    cases properties
    simpa [empty] using whole
  have value : properties.toValue = .map (flat properties.entries) := rfl
  rw [value, ofValue?, reads, same]

theorem valueDepth (properties : Properties) : properties.toValue.depth = 1 := by
  have flat : Value.maxDepth (flat properties.entries) = 0 := by
    apply Value.maxDepthFlat
    simp only [flat, List.mem_flatMap, List.mem_cons, List.not_mem_nil, or_false]
    rintro v ⟨e, _, rfl | rfl⟩ <;> rfl
  have value : properties.toValue = .map (Properties.flat properties.entries) := rfl
  simp [value, Value.depth, flat]

theorem valueFits {properties : Properties} (fits : properties.Fits) : properties.toValue.Fits := by
  obtain ⟨count, texts⟩ := fits
  have twice : (flat properties.entries).length = properties.entries.length * 2 := by
    simp [flat, List.length_flatMap, List.map_const']
  have value : properties.toValue = .map (flat properties.entries) := rfl
  rw [value]
  refine ⟨by omega, by omega, ?_⟩
  simp only [Value.allFitAll, flat, List.mem_flatMap, List.mem_cons, List.not_mem_nil, or_false]
  rintro v ⟨e, inside, rfl | rfl⟩
  · exact Value.textFits (texts e inside).1
  · exact Value.textFits (texts e inside).2

end Properties

structure Node.Fits (node : Node) : Prop where
  internalType : Value.TextFits node.internalType
  token : Value.TextFits node.token
  roles : Value.TextsFit node.roles
  properties : node.properties.Fits

namespace SyntaxTree

mutual

def Fits : SyntaxTree → Prop
  | .branch node children => node.Fits ∧ children.length < lengthBound ∧ AllFit children

def AllFit : List SyntaxTree → Prop
  | [] => True
  | t :: rest => Fits t ∧ AllFit rest

end

theorem fieldsFit : ∀ name ∈ fields, Value.TextFits name := by decide

theorem positionFits {name : String} (short : Value.TextFits name) (p : Option Position) :
    Value.AllFit (positionField name p) := by
  cases p with
  | none => trivial
  | some p => exact ⟨Value.textFits short, p.valueFits, trivial⟩

theorem positionLength (name : String) (p : Option Position) :
    (positionField name p).length = 0 ∨ (positionField name p).length = 2 := by
  cases p <;> simp [positionField]

theorem valuesLength (trees : List SyntaxTree) : (toValues trees).length = trees.length := by
  induction trees with
  | nil => rfl
  | cons t rest ih => simp [toValues, ih]

theorem positionDepth (name : String) (p : Option Position) :
    Value.maxDepth (positionField name p) ≤ 1 := by
  cases p <;> simp [positionField, Value.maxDepth, Value.depthText, Position.valueDepth]

theorem fieldsDepth (node : Node) : Value.maxDepth (nodeFields node) = 1 := by
  have start := positionDepth "start_position" node.start
  have stop := positionDepth "end_position" node.stop
  simp only [nodeFields, Value.maxDepthAppend, Value.maxDepth, Value.depthText, Value.depthTexts,
    Properties.valueDepth]
  omega

mutual

theorem valueDepth : (t : SyntaxTree) → t.toValue.depth = 2 * t.levels
  | .branch node children => by
    have inner := valuesDepth children
    simp only [toValue, Value.depth, Value.maxDepthAppend, fieldsDepth, Value.maxDepth,
      Value.depthText, levels, inner]
    omega

theorem valuesDepth : (trees : List SyntaxTree) →
    Value.maxDepth (toValues trees) = 2 * maxLevels trees
  | [] => rfl
  | t :: rest => by
    have first := valueDepth t
    have others := valuesDepth rest
    simp only [toValues, Value.maxDepth, maxLevels, first, others]
    omega

end

theorem fieldsStored {node : Node} (fits : node.Fits) :
    Value.AllFit (nodeFields node) ∧ (nodeFields node).length % 2 = 0 ∧
      (nodeFields node).length ≤ 12 := by
  have names := fieldsFit
  simp only [fields, List.forall_mem_cons] at names
  obtain ⟨internalType, token, roles, properties, start, stop, _⟩ := names
  have startFits := positionFits start node.start
  have stopFits := positionFits stop node.stop
  have startLength := positionLength "start_position" node.start
  have stopLength := positionLength "end_position" node.stop
  refine ⟨?_, ?_, ?_⟩
  · rw [Value.allFitAll] at startFits stopFits ⊢
    simp only [nodeFields, List.forall_mem_append, List.forall_mem_cons, List.not_mem_nil]
    exact ⟨⟨⟨internalType, fits.internalType, token, fits.token, roles, Value.textsFit fits.roles,
      properties, Properties.valueFits fits.properties, by simp⟩, startFits⟩, stopFits⟩
  · simp only [nodeFields, List.length_append, List.length_cons, List.length_nil]
    omega
  · simp only [nodeFields, List.length_append, List.length_cons, List.length_nil]
    omega

mutual

theorem valueFits : (t : SyntaxTree) → t.Fits → t.toValue.Fits
  | .branch node children, fits => by
    obtain ⟨own, count, below⟩ := fits
    obtain ⟨stored, even, few⟩ := fieldsStored own
    have inner := valuesFit children below
    have named : Value.TextFits "children" := by decide
    simp only [toValue, Value.Fits, Value.allFitAppend, Value.AllFit, List.length_append,
      List.length_cons, List.length_nil, valuesLength, lengthBound] at count ⊢
    exact ⟨by omega, by omega, stored, named, ⟨count, inner⟩, trivial⟩

theorem valuesFit : (trees : List SyntaxTree) → AllFit trees → Value.AllFit (toValues trees)
  | [], _ => trivial
  | t :: rest, fits => ⟨valueFits t fits.1, valuesFit rest fits.2⟩

end

theorem fieldRead {name : String} {index : Nat} (known : fields.findIdx? (· = name) = some index)
    {v : Value} {field : Field} (value : field? index v = some field) {parts grown : Partial}
    (added : parts.put field = some grown) (rest : List Value) :
    ofFlat parts (.ofText name :: v :: rest) = ofFlat grown rest := by
  simp [ofFlat, Value.keyRead known, value, added]

theorem startRead {parts : Partial} (fresh : parts.start = none) (p : Option Position)
    (rest : List Value) :
    ofFlat parts (positionField "start_position" p ++ rest) =
      ofFlat { parts with start := p.map some } rest := by
  cases p with
  | none =>
    cases parts
    simp_all [positionField]
  | some p =>
    have value : field? 4 p.toValue = some (.start (some p)) := by simp [field?, plainField?]
    exact fieldRead (by decide) value (by simp [Partial.put, fresh]) rest

theorem stopRead {parts : Partial} (fresh : parts.stop = none) (p : Option Position)
    (rest : List Value) :
    ofFlat parts (positionField "end_position" p ++ rest) =
      ofFlat { parts with stop := p.map some } rest := by
  cases p with
  | none =>
    cases parts
    simp_all [positionField]
  | some p =>
    have value : field? 5 p.toValue = some (.stop (some p)) := by simp [field?, plainField?]
    exact fieldRead (by decide) value (by simp [Partial.put, fresh]) rest

def Partial.ofNode (node : Node) : Partial :=
  { internalType := some node.internalType
    token := some node.token
    roles := some node.roles
    properties := some node.properties
    start := node.start.map some
    stop := node.stop.map some }

theorem nodeRead (node : Node) (rest : List Value) :
    ofFlat {} (nodeFields node ++ rest) = ofFlat (.ofNode node) rest := by
  have internalType : field? 0 (.ofText node.internalType) = some (.internalType node.internalType)
    := by simp [field?, plainField?]
  have token : field? 1 (.ofText node.token) = some (.token node.token) := by
    simp [field?, plainField?]
  have roles : field? 2 (.ofTexts node.roles) = some (.roles node.roles) := by
    simp [field?, plainField?]
  have properties : field? 3 node.properties.toValue = some (.properties node.properties) := by
    simp [field?, plainField?]
  simp only [nodeFields, List.append_assoc, List.cons_append, List.nil_append]
  rw [fieldRead (by decide) internalType rfl, fieldRead (by decide) token rfl,
    fieldRead (by decide) roles rfl, fieldRead (by decide) properties rfl, startRead rfl,
    stopRead rfl]
  rfl

theorem finishNode (node : Node) (children : List SyntaxTree) :
    ({ Partial.ofNode node with children := some children } : Partial).finish =
      some (.branch node children) := by
  cases node with
  | mk internalType token roles properties start stop =>
    cases start <;> cases stop <;> rfl

mutual

theorem valueRead : (t : SyntaxTree) → ofValue? t.toValue = some t
  | .branch node children => by
    have all : field? childrenField (.array (toValues children)) = some (.children children) := by
      simp [field?, valuesRead children]
    rw [toValue, ofValue?, nodeRead, fieldRead (by decide) all rfl, ofFlat, Option.bind_some]
    exact finishNode node children

theorem valuesRead : (trees : List SyntaxTree) → ofValues (toValues trees) = some trees
  | [] => rfl
  | t :: rest => by simp [toValues, ofValues, valueRead t, valuesRead rest]

end

end SyntaxTree

end SourceModels
