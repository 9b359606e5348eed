import SourceModels.Proofs.Json.Grammar

/-! Which values tokens list. The machine that reads them comes to an end with a value just where
they list it and nothing else. -/
namespace SourceModels.Json

mutual

inductive Listed : Value → List Token → List Token → Prop where
  | scalar {v : Value} {rest : List Token} : Listed v (.scalar v :: rest) rest
  | emptyArray {rest : List Token} : Listed (.array []) (.openArray :: .closeArray :: rest) rest
  | array {v : Value} {items : List Value} {tokens more rest : List Token}
      (first : Listed v tokens more) (others : ListedItems items more rest) :
      Listed (.array (v :: items)) (.openArray :: tokens) rest
  | emptyObject {rest : List Token} :
      Listed (.object []) (.openObject :: .closeObject :: rest) rest
  | object {key : Bytes} {v : Value} {flat : List Value} {tokens more rest : List Token}
      (first : Listed v tokens more) (others : ListedMembers flat more rest) :
      Listed (.object (.string key :: v :: flat))
        (.openObject :: .scalar (.string key) :: .colon :: tokens) rest

inductive ListedItems : List Value → List Token → List Token → Prop where
  | close {rest : List Token} : ListedItems [] (.closeArray :: rest) rest
  | next {v : Value} {items : List Value} {tokens more rest : List Token}
      (first : Listed v tokens more) (others : ListedItems items more rest) :
      ListedItems (v :: items) (.comma :: tokens) rest

inductive ListedMembers : List Value → List Token → List Token → Prop where
  | close {rest : List Token} : ListedMembers [] (.closeObject :: rest) rest
  | next {key : Bytes} {v : Value} {flat : List Value} {tokens more rest : List Token}
      (first : Listed v tokens more) (others : ListedMembers flat more rest) :
      ListedMembers (.string key :: v :: flat)
        (.comma :: .scalar (.string key) :: .colon :: tokens) rest

end

def Closes : List Frame → Value → List Token → Value → Prop
  | [], v, tokens, last => tokens = [] ∧ v = last
  | .array seen :: outer, v, tokens, last =>
    ∃ items rest, ListedItems items tokens rest ∧
      Closes outer (.array (seen.reverse ++ v :: items)) rest last
  | .object seen :: outer, v, tokens, last =>
    ∃ flat rest, ListedMembers flat tokens rest ∧
      Closes outer (.object (seen.reverse ++ v :: flat)) rest last

def Begins (frames : List Frame) (tokens : List Token) (last : Value) : Prop :=
  ∃ v rest, Listed v tokens rest ∧ Closes frames v rest last

def Continues : List Frame → List Token → Value → Prop
  | .array seen :: outer, tokens, last => ∃ items rest, ListedItems items tokens rest ∧
      Closes outer (.array (seen.reverse ++ items)) rest last
  | .object seen :: outer, tokens, last => ∃ flat rest, ListedMembers flat tokens rest ∧
      Closes outer (.object (seen.reverse ++ flat)) rest last
  | [], _, _ => False

def Awaits (state : State) (tokens : List Token) (last : Value) : Prop :=
  match state.expect with
  | .value orClose => Begins state.frames tokens last ∨
      orClose = true ∧ ∃ seen outer rest, state.frames = .array seen :: outer ∧
        tokens = .closeArray :: rest ∧ Closes outer (.array seen.reverse) rest last
  | .key orClose =>
    (∃ seen outer key rest, state.frames = .object seen :: outer ∧
      tokens = .scalar (.string key) :: .colon :: rest ∧
        Begins (.object (.string key :: seen) :: outer) rest last) ∨
      orClose = true ∧ ∃ seen outer rest, state.frames = .object seen :: outer ∧
        tokens = .closeObject :: rest ∧ Closes outer (.object seen.reverse) rest last
  | .colon => ∃ rest, tokens = .colon :: rest ∧ Begins state.frames rest last
  | .more => Continues state.frames tokens last
  | .nothing v => tokens = [] ∧ v = last

section
variable {v : Value} {items flat : List Value} {tokens rest : List Token} {last : Value}
  {frames : List Frame}

@[simp]
theorem listedNone : ¬ Listed v [] rest := nofun

@[simp]
theorem listedScalar {w : Value} : Listed v (.scalar w :: tokens) rest ↔ v = w ∧ tokens = rest := by
  constructor
  · rintro ⟨⟩
    exact ⟨rfl, rfl⟩
  · rintro ⟨rfl, rfl⟩
    exact .scalar

theorem listedArray : Listed v (.openArray :: tokens) rest ↔
    (v = .array [] ∧ tokens = .closeArray :: rest) ∨ ∃ first more items,
      Listed first tokens more ∧ ListedItems items more rest ∧ v = .array (first :: items) := by
  constructor
  · intro listed
    cases listed with
    | emptyArray => exact .inl ⟨rfl, rfl⟩
    | array first others => exact .inr ⟨_, _, _, first, others, rfl⟩
  · rintro (⟨rfl, rfl⟩ | ⟨_, _, _, first, others, rfl⟩)
    · exact .emptyArray
    · exact .array first others

theorem listedObject : Listed v (.openObject :: tokens) rest ↔
    (v = .object [] ∧ tokens = .closeObject :: rest) ∨ ∃ key next first more flat,
      tokens = .scalar (.string key) :: .colon :: next ∧ Listed first next more ∧
        ListedMembers flat more rest ∧ v = .object (.string key :: first :: flat) := by
  constructor
  · intro listed
    cases listed with
    | emptyObject => exact .inl ⟨rfl, rfl⟩
    | object first others => exact .inr ⟨_, _, _, _, _, rfl, first, others, rfl⟩
  · rintro (⟨rfl, rfl⟩ | ⟨_, _, _, _, _, rfl, first, others, rfl⟩)
    · exact .emptyObject
    · exact .object first others

end

section
variable {frames : List Frame} {orClose : Bool} {tokens : List Token} {last : Value}

@[simp]
theorem awaitsValue : Awaits ⟨frames, .value orClose⟩ tokens last ↔ Begins frames tokens last ∨
    orClose = true ∧ ∃ seen outer rest, frames = .array seen :: outer ∧
      tokens = .closeArray :: rest ∧ Closes outer (.array seen.reverse) rest last := Iff.rfl

@[simp]
theorem awaitsKey : Awaits ⟨frames, .key orClose⟩ tokens last ↔
    (∃ seen outer key rest, frames = .object seen :: outer ∧
      tokens = .scalar (.string key) :: .colon :: rest ∧
        Begins (.object (.string key :: seen) :: outer) rest last) ∨
    orClose = true ∧ ∃ seen outer rest, frames = .object seen :: outer ∧
      tokens = .closeObject :: rest ∧ Closes outer (.object seen.reverse) rest last := Iff.rfl

@[simp]
theorem awaitsColon : Awaits ⟨frames, .colon⟩ tokens last ↔
    ∃ rest, tokens = .colon :: rest ∧ Begins frames rest last := Iff.rfl

@[simp]
theorem awaitsMore : Awaits ⟨frames, .more⟩ tokens last ↔ Continues frames tokens last := Iff.rfl

@[simp]
theorem awaitsNothing {v : Value} :
    Awaits ⟨frames, .nothing v⟩ tokens last ↔ tokens = [] ∧ v = last := Iff.rfl

@[simp]
theorem awaitsComplete {v : Value} :
    Awaits (complete frames v) tokens last ↔ Closes frames v tokens last := by
  cases frames with
  | nil => rfl
  | cons frame outer => cases frame <;> simp [complete, Continues, Closes]

theorem awaitsNone {state : State} : Awaits state [] last ↔ state.expect = .nothing last := by
  obtain ⟨frames, expect⟩ := state
  cases expect with
  | value orClose => simp [Begins]
  | key orClose => simp
  | colon => simp
  | more =>
    simp only [awaitsMore, reduceCtorEq, iff_false]
    cases frames with
    | nil => exact id
    | cons frame outer => cases frame <;> rintro ⟨_, _, ⟨⟩, _⟩
  | nothing v => simp

end

section
variable {frames : List Frame} {token : Token} {rest : List Token} {last : Value}

theorem beginsScalar {v : Value} :
    Begins frames (.scalar v :: rest) last ↔ Closes frames v rest last := by
  simp [Begins, and_assoc]

theorem beginsArray : Begins frames (.openArray :: rest) last ↔
    Awaits ⟨.array [] :: frames, .value true⟩ rest last := by
  simp only [Begins, listedArray, awaitsValue, Closes, true_and]
  constructor
  · rintro ⟨v, after, ⟨rfl, rfl⟩ | ⟨first, more, items, listed, others, rfl⟩, closes⟩
    · exact .inr ⟨[], frames, after, rfl, rfl, closes⟩
    · exact .inl ⟨first, more, listed, items, after, others, closes⟩
  · rintro (⟨first, more, listed, items, after, others, closes⟩ |
      ⟨seen, outer, after, same, rfl, closes⟩)
    · exact ⟨_, after, .inr ⟨first, more, items, listed, others, rfl⟩, closes⟩
    · cases same
      exact ⟨_, after, .inl ⟨rfl, rfl⟩, closes⟩

theorem beginsObject : Begins frames (.openObject :: rest) last ↔
    Awaits ⟨.object [] :: frames, .key true⟩ rest last := by
  simp only [Begins, listedObject, awaitsKey, Closes, true_and]
  constructor
  · rintro ⟨v, after, ⟨rfl, rfl⟩ | ⟨key, next, first, more, flat, rfl, listed, others, rfl⟩, closes⟩
    · exact .inr ⟨[], frames, after, rfl, rfl, closes⟩
    · exact .inl ⟨[], frames, key, next, rfl, rfl, first, more, listed, flat, after, others, closes⟩
  · rintro (⟨seen, outer, key, next, same, rfl, first, more, listed, flat, after, others, closes⟩ |
      ⟨seen, outer, after, same, rfl, closes⟩)
    · cases same
      exact ⟨_, after, .inr ⟨key, next, first, more, flat, rfl, listed, others, rfl⟩, closes⟩
    · cases same
      exact ⟨_, after, .inl ⟨rfl, rfl⟩, closes⟩

theorem beginsOther
    (other : token = .closeArray ∨ token = .closeObject ∨ token = .colon ∨ token = .comma) :
    ¬ Begins frames (token :: rest) last := by
  rintro ⟨v, after, listed, _⟩
  rcases other with rfl | rfl | rfl | rfl <;> cases listed

theorem stepValue (orClose : Bool) : Awaits ⟨frames, .value orClose⟩ (token :: rest) last ↔
    ∃ next, step ⟨frames, .value orClose⟩ token = some next ∧ Awaits next rest last := by
  rw [awaitsValue]
  cases token with
  | scalar v => simp [step, beginsScalar]
  | openArray => simp [step, beginsArray]
  | openObject => simp [step, beginsObject]
  | closeArray =>
    cases orClose with
    | false => simp [step, beginsOther]
    | true =>
      cases frames with
      | nil => simp [step, close, beginsOther]
      | cons frame outer => cases frame <;> simp [step, close, beginsOther, and_assoc]
  | _ => cases orClose <;> simp [step, beginsOther]

theorem stepKey (orClose : Bool) : Awaits ⟨frames, .key orClose⟩ (token :: rest) last ↔
    ∃ next, step ⟨frames, .key orClose⟩ token = some next ∧ Awaits next rest last := by
  rw [awaitsKey]
  cases token with
  | scalar v =>
    cases v with
    | string key =>
      cases frames with
      | nil => simp [step]
      | cons frame outer => cases frame <;> simp [step, and_assoc]
    | _ => simp [step]
  | closeObject =>
    cases orClose with
    | false => simp [step]
    | true =>
      cases frames with
      | nil => simp [step, close]
      | cons frame outer => cases frame <;> simp [step, close, and_assoc]
  | _ => cases orClose <;> simp [step]

theorem continuesArray {seen : List Value} : Continues (.array seen :: frames) (token :: rest) last ↔
    token = .comma ∧ Begins (.array seen :: frames) rest last ∨
      token = .closeArray ∧ Closes frames (.array seen.reverse) rest last := by
  constructor
  · rintro ⟨items, after, listed, closes⟩
    cases listed with
    | close => exact .inr ⟨rfl, by simpa using closes⟩
    | next first others => exact .inl ⟨rfl, _, _, first, _, _, others, closes⟩
  · rintro (⟨rfl, v, more, first, items, after, others, closes⟩ | ⟨rfl, closes⟩)
    · exact ⟨_, _, .next first others, closes⟩
    · exact ⟨_, _, .close, by simpa using closes⟩

theorem continuesObject {seen : List Value} :
    Continues (.object seen :: frames) (token :: rest) last ↔
      token = .comma ∧ Awaits ⟨.object seen :: frames, .key false⟩ rest last ∨
        token = .closeObject ∧ Closes frames (.object seen.reverse) rest last := by
  constructor
  · rintro ⟨flat, after, listed, closes⟩
    cases listed with
    | close => exact .inr ⟨rfl, by simpa using closes⟩
    | next first others =>
      exact .inl ⟨rfl, .inl ⟨_, _, _, _, rfl, rfl, _, _, first, _, _, others, by simpa using closes⟩⟩
  · rintro (⟨rfl, key | ⟨no, _⟩⟩ | ⟨rfl, closes⟩)
    · obtain ⟨_, _, key, next, same, rfl, v, more, first, flat, after, others, closes⟩ := key
      cases same
      exact ⟨_, _, .next first others, by simpa using closes⟩
    · contradiction
    · exact ⟨_, _, .close, by simpa using closes⟩

theorem stepMore : Awaits ⟨frames, .more⟩ (token :: rest) last ↔
    ∃ next, step ⟨frames, .more⟩ token = some next ∧ Awaits next rest last := by
  rw [awaitsMore]
  cases frames with
  | nil => cases token <;> simp [step, close, Continues]
  | cons frame outer =>
    cases frame with
    | array seen => cases token <;> simp [step, close, continuesArray]
    | object seen => cases token <;> simp [step, close, continuesObject]

theorem awaitsStep {state : State} : Awaits state (token :: rest) last ↔
    ∃ next, step state token = some next ∧ Awaits next rest last := by
  obtain ⟨frames, expect⟩ := state
  cases expect with
  | value orClose => exact stepValue orClose
  | key orClose => exact stepKey orClose
  | colon => cases token <;> simp [step]
  | more => exact stepMore
  | nothing v => simp [step]

end

theorem stepsListed (tokens : List Token) (state : State) (last : Value) :
    (∃ final, tokens.foldlM step state = some final ∧ final.expect = .nothing last) ↔
      Awaits state tokens last := by
  -- a token is one that is awaited just when the tokens behind it are awaited after it
  induction tokens generalizing state with
  | nil => simp [awaitsNone]
  | cons token rest ih =>
    simp only [List.foldlM_cons, Option.bind_eq_bind, Option.bind_eq_some_iff, awaitsStep, ← ih]
    constructor
    · rintro ⟨final, ⟨next, first, later⟩, ends⟩
      exact ⟨next, first, final, later, ends⟩
    · rintro ⟨next, first, final, later, ends⟩
      exact ⟨final, ⟨next, first, later⟩, ends⟩

theorem valueListed (tokens : List Token) (last : Value) :
    (∃ final, tokens.foldlM step ⟨[], .value false⟩ = some final ∧ final.expect = .nothing last) ↔
      Listed last tokens [] := by
  rw [stepsListed]
  constructor
  · rintro (⟨v, rest, listed, rfl, rfl⟩ | ⟨no, _⟩)
    · exact listed
    · contradiction
  · exact fun listed => .inl ⟨_, _, listed, rfl, rfl⟩

def Document (v : Value) (bytes : Bytes) : Prop :=
  ∃ tokens, Cut tokens bytes ∧ Listed v tokens []

def Quiet (tokens : List Token) : Prop := ∀ token, tokens.head? = some token → token.isScalar = false

theorem apartNext {token : Token} {tokens : List Token}
    (quiet : token.isScalar = true → Quiet tokens) (apart : Apart tokens) :
    Apart (token :: tokens) := by
  cases tokens with
  | nil => trivial
  | cons next rest => exact ⟨fun scalar => quiet scalar next rfl, apart⟩

theorem quietSign {token : Token} {tokens : List Token} (sign : token.isScalar = false) :
    Quiet (token :: tokens) := by
  rintro _ ⟨⟩
  exact sign

mutual

theorem Listed.apart {v : Value} {tokens rest : List Token} (listed : Listed v tokens rest)
    (quiet : Quiet rest) (apart : Apart rest) : Apart tokens := by
  cases listed with
  | scalar => exact apartNext (fun _ => quiet) apart
  | emptyArray => exact apartNext nofun (apartNext nofun apart)
  | array first others =>
    obtain ⟨apart, quiet⟩ := others.apart apart
    exact apartNext nofun (first.apart quiet apart)
  | emptyObject => exact apartNext nofun (apartNext nofun apart)
  | object first others =>
    obtain ⟨apart, quiet⟩ := others.apart apart
    exact apartNext nofun (apartNext (fun _ => quietSign rfl)
      (apartNext nofun (first.apart quiet apart)))

theorem ListedItems.apart {items : List Value} {tokens rest : List Token}
    (listed : ListedItems items tokens rest) (apart : Apart rest) : Apart tokens ∧ Quiet tokens := by
  cases listed with
  | close => exact ⟨apartNext nofun apart, quietSign rfl⟩
  | next first others =>
    obtain ⟨apart, quiet⟩ := others.apart apart
    exact ⟨apartNext nofun (first.apart quiet apart), quietSign rfl⟩

theorem ListedMembers.apart {flat : List Value} {tokens rest : List Token}
    (listed : ListedMembers flat tokens rest) (apart : Apart rest) :
    Apart tokens ∧ Quiet tokens := by
  cases listed with
  | close => exact ⟨apartNext nofun apart, quietSign rfl⟩
  | next first others =>
    obtain ⟨apart, quiet⟩ := others.apart apart
    exact ⟨apartNext nofun (apartNext (fun _ => quietSign rfl)
      (apartNext nofun (first.apart quiet apart))), quietSign rfl⟩

end

theorem documentRead {bytes : Bytes} {v : Value} : read? bytes = some v ↔ Document v bytes := by
  have ends : read? bytes = some v ↔ ∃ tokens, Json.tokens bytes = some tokens ∧
      ∃ final, tokens.foldlM step ⟨[], .value false⟩ = some final ∧ final.expect = .nothing v := by
    simp only [read?, Option.bind_eq_bind, Option.bind_eq_some_iff]
    refine exists_congr fun tokens => and_congr_right fun _ =>
      exists_congr fun final => and_congr_right fun _ => ?_
    cases final.expect <;> simp
  rw [ends]
  refine exists_congr fun tokens => ?_
  rw [valueListed]
  refine and_congr_left fun listed => tokensCut (listed.apart nofun trivial)

end SourceModels.Json
