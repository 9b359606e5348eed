import SourceModels.Glob

/-! What a pattern matches. Matching byte by byte keeps what may follow, so that a text is taken
exactly when it can be cut into texts that the parts of the pattern match. -/
namespace SourceModels.Glob

def Matches : Glob → Bytes → Prop
  | .empty, text => text = []
  | .byte b, text => text = [b]
  | .anyByte, text => ∃ b, text = [b]
  | .anyRun, _ => True
  | .oneOf negated ranges, text =>
    ∃ b, text = [b] ∧ (ranges.any (fun r => r.1 ≤ b && b ≤ r.2) != negated) = true
  | .leading, text => text = [] ∨ ∃ front, text = front ++ [slash]
  | .between, text => text = [slash] ∨ ∃ inner, text = slash :: (inner ++ [slash])
  | .inside, text => ∃ rest, text = slash :: rest
  | .seq first second, text =>
    ∃ front back, text = front ++ back ∧ first.Matches front ∧ second.Matches back
  | .either left right, text => left.Matches text ∨ right.Matches text

theorem emptyBefore (pattern : Glob) (text : Bytes) :
    (Glob.seq .empty pattern).Matches text ↔ pattern.Matches text := by
  constructor
  · rintro ⟨_, back, rfl, rfl, matched⟩
    exact matched
  · exact fun matched => ⟨[], text, rfl, rfl, matched⟩

theorem emptyBehind (pattern : Glob) (text : Bytes) :
    (Glob.seq pattern .empty).Matches text ↔ pattern.Matches text := by
  constructor
  · rintro ⟨front, _, rfl, matched, rfl⟩
    rwa [List.append_nil]
  · exact fun matched => ⟨text, [], by simp, matched, rfl⟩

theorem andThenMatches (first second : Glob) (text : Bytes) :
    (first.andThen second).Matches text ↔ (Glob.seq first second).Matches text := by
  unfold andThen
  split
  · exact (emptyBefore second text).symm
  · exact (emptyBehind first text).symm
  · rfl

theorem acceptsEmptyMeans (pattern : Glob) :
    pattern.acceptsEmpty = true ↔ pattern.Matches [] := by
  induction pattern with
  | seq first second ihFirst ihSecond =>
    simp only [acceptsEmpty, Bool.and_eq_true, ihFirst, ihSecond, Matches, List.nil_eq,
      List.append_eq_nil_iff]
    constructor
    · rintro ⟨front, back⟩
      exact ⟨[], [], ⟨rfl, rfl⟩, front, back⟩
    · rintro ⟨_, _, ⟨rfl, rfl⟩, front, back⟩
      exact ⟨front, back⟩
  | either left right ihLeft ihRight =>
    simp only [acceptsEmpty, Bool.or_eq_true, ihLeft, ihRight, Matches]
  | _ => simp [acceptsEmpty, Matches]

theorem seqMatches (first second : Glob) (b : UInt8) (text : Bytes) :
    (Glob.seq first second).Matches (b :: text) ↔
      (∃ front back, text = front ++ back ∧ first.Matches (b :: front) ∧ second.Matches back) ∨
      (first.Matches [] ∧ second.Matches (b :: text)) := by
  constructor
  · rintro ⟨front, back, cut, before, behind⟩
    cases front with
    | nil =>
      rw [List.nil_append] at cut
      exact .inr ⟨before, cut ▸ behind⟩
    | cons c front =>
      obtain ⟨rfl, rfl⟩ := List.cons.inj cut
      exact .inl ⟨front, back, rfl, before, behind⟩
  · rintro (⟨front, back, rfl, before, behind⟩ | ⟨none, behind⟩)
    · exact ⟨b :: front, back, rfl, before, behind⟩
    · exact ⟨[], b :: text, rfl, none, behind⟩

theorem endsWith (b : UInt8) (text : Bytes) (last : UInt8) :
    (∃ front, b :: text = front ++ [last]) ↔
      (b = last ∧ text = []) ∨ ∃ front, text = front ++ [last] := by
  constructor
  · rintro ⟨front, same⟩
    cases front with
    | nil => exact .inl (by simpa using same)
    | cons c front =>
      obtain ⟨_, rfl⟩ := List.cons.inj same
      exact .inr ⟨front, rfl⟩
  · rintro (⟨rfl, rfl⟩ | ⟨front, rfl⟩)
    · exact ⟨[], rfl⟩
    · exact ⟨b :: front, rfl⟩

theorem afterMatches (pattern : Glob) (b : UInt8) (text : Bytes) :
    (∃ more ∈ pattern.after b, more.Matches text) ↔ pattern.Matches (b :: text) := by
  induction pattern generalizing text with
  | seq first second ihFirst ihSecond =>
    rw [seqMatches]
    simp only [after, List.mem_append, List.mem_map, or_and_right, exists_or]
    refine or_congr ?_ ?_
    · constructor
      · rintro ⟨_, ⟨more, held, rfl⟩, matched⟩
        obtain ⟨front, back, cut, before, behind⟩ := (andThenMatches more second text).mp matched
        exact ⟨front, back, cut, (ihFirst front).mp ⟨more, held, before⟩, behind⟩
      · rintro ⟨front, back, cut, before, behind⟩
        obtain ⟨more, held, matched⟩ := (ihFirst front).mpr before
        exact ⟨_, ⟨more, held, rfl⟩,
          (andThenMatches more second text).mpr ⟨front, back, cut, matched, behind⟩⟩
    · rw [← acceptsEmptyMeans, ← ihSecond]
      by_cases none : first.acceptsEmpty = true <;> simp [none]
  | either left right ihLeft ihRight =>
    simp only [after, List.mem_append, or_and_right, exists_or, ihLeft, ihRight, Matches]
  | leading =>
    have ends := endsWith b text slash
    simp only [Matches, reduceCtorEq, false_or, ends]
    by_cases bar : b = slash <;> simp [after, Matches, bar, or_comm]
  | between =>
    by_cases bar : b = slash <;> simp [after, Matches, bar]
  | oneOf negated ranges =>
    simp only [Matches, List.cons.injEq, and_assoc, exists_eq_left']
    by_cases held : (ranges.any (fun r => r.1 ≤ b && b ≤ r.2) != negated) = true <;>
      simp only [after, held, if_pos, if_neg, Bool.false_eq_true, not_false_eq_true] <;>
      simp [Matches]
  | byte c => by_cases same : b = c <;> simp [after, Matches, same]
  | inside => by_cases bar : b = slash <;> simp [after, Matches, bar]
  | _ => simp [after, Matches]

theorem advanceMatches (patterns : List Glob) (b : UInt8) (text : Bytes) :
    (∃ more ∈ advance patterns b, more.Matches text) ↔
      ∃ pattern ∈ patterns, pattern.Matches (b :: text) := by
  simp only [advance, List.mem_eraseDups, List.mem_flatMap, ← afterMatches]
  constructor
  · rintro ⟨more, ⟨pattern, held, rest⟩, matched⟩
    exact ⟨pattern, held, more, rest, matched⟩
  · rintro ⟨pattern, held, more, rest, matched⟩
    exact ⟨more, ⟨pattern, held, rest⟩, matched⟩

theorem advancedMatches (patterns : List Glob) (text : Bytes) :
    (text.foldl advance patterns).any acceptsEmpty = true ↔
      ∃ pattern ∈ patterns, pattern.Matches text := by
  induction text generalizing patterns with
  | nil => simp only [List.foldl_nil, List.any_eq_true, acceptsEmptyMeans]
  | cons b rest ih => rw [List.foldl_cons, ih, advanceMatches]

theorem matchesAllMeans (pattern : Glob) (text : Bytes) :
    pattern.matchesAll text = true ↔ pattern.Matches text := by
  rw [matchesAll, advancedMatches]
  simp

theorem ofListMatches (part : Glob) (parts : List Glob) (text : Bytes) :
    (ofList (part :: parts)).Matches text ↔
      ∃ front back, text = front ++ back ∧ part.Matches front ∧ (ofList parts).Matches back :=
  andThenMatches part (ofList parts) text

def literal (bytes : Bytes) : List Glob := bytes.map .byte

theorem literalMatches (bytes : Bytes) (parts : List Glob) (text : Bytes) :
    (ofList (literal bytes ++ parts)).Matches text ↔
      ∃ rest, text = bytes ++ rest ∧ (ofList parts).Matches rest := by
  induction bytes generalizing text with
  | nil => simp [literal]
  | cons b more ih =>
    have cut : literal (b :: more) ++ parts = .byte b :: (literal more ++ parts) := rfl
    rw [cut, ofListMatches]
    constructor
    · rintro ⟨_, back, rfl, rfl, matched⟩
      obtain ⟨rest, cut, others⟩ := (ih back).mp matched
      exact ⟨rest, by simp [cut], others⟩
    · rintro ⟨rest, rfl, matched⟩
      exact ⟨[b], more ++ rest, rfl, rfl, (ih _).mpr ⟨rest, rfl, matched⟩⟩

theorem belowMatches (name text : Bytes) :
    (ofList (.leading :: (literal name ++ [.inside]))).Matches text ↔
      name ++ [slash] <+: text ∨ slash :: (name ++ [slash]) <:+: text := by
  rw [ofListMatches]
  have inner (back : Bytes) : (ofList (literal name ++ [.inside])).Matches back ↔
      name ++ [slash] <+: back := by
    rw [literalMatches]
    constructor
    · rintro ⟨_, rfl, rest, rfl⟩
      exact ⟨rest, by simp⟩
    · rintro ⟨rest, rfl⟩
      exact ⟨slash :: rest, by simp, rest, rfl⟩
  simp only [inner]
  constructor
  · rintro ⟨_, back, rfl, rfl | ⟨front, rfl⟩, rest, rfl⟩
    · exact .inl ⟨rest, rfl⟩
    · exact .inr ⟨front, rest, by simp⟩
  · rintro (⟨rest, rfl⟩ | ⟨front, rest, rfl⟩)
    · exact ⟨[], _, rfl, .inl rfl, rest, rfl⟩
    · exact ⟨front ++ [slash], name ++ [slash] ++ rest, by simp, .inr ⟨front, rfl⟩, rest, rfl⟩

theorem runBefore (parts : List Glob) (text : Bytes) :
    (ofList (.leading :: .anyRun :: parts)).Matches text ↔
      ∃ front back, text = front ++ back ∧ (ofList parts).Matches back := by
  simp only [ofListMatches]
  constructor
  · rintro ⟨front, _, rfl, _, middle, back, rfl, _, matched⟩
    exact ⟨front ++ middle, back, by simp, matched⟩
  · rintro ⟨front, back, rfl, matched⟩
    exact ⟨[], front ++ back, rfl, .inl rfl, front, back, rfl, trivial, matched⟩

theorem endingMatches (ending text : Bytes) :
    (ofList (.leading :: .anyRun :: literal ending)).Matches text ↔ ending <:+ text := by
  have whole (back : Bytes) : (ofList (literal ending)).Matches back ↔ back = ending := by
    have parts := literalMatches ending [] back
    rw [List.append_nil] at parts
    rw [parts]
    constructor
    · rintro ⟨_, rfl, rfl⟩
      exact List.append_nil ending
    · rintro rfl
      exact ⟨[], by simp, rfl⟩
  simp only [runBefore, whole, exists_eq_right]
  exact ⟨fun ⟨front, same⟩ => ⟨front, same.symm⟩, fun ⟨front, same⟩ => ⟨front, same.symm⟩⟩

theorem amongMatches (mark text : Bytes) :
    (ofList (.leading :: .anyRun :: (literal mark ++ [.anyRun]))).Matches text ↔
      mark <:+: text := by
  simp only [runBefore, literalMatches]
  constructor
  · rintro ⟨front, _, rfl, rest, rfl, _⟩
    exact ⟨front, rest, by simp⟩
  · rintro ⟨front, rest, rfl⟩
    exact ⟨front, mark ++ rest, by simp, rest, rfl, trivial⟩

end SourceModels.Glob
