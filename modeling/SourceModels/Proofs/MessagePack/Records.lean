import SourceModels.MessagePack.Value

/-! Records as they are stored: a map with fields under known keys, or an array with a field in each
place. Whatever a reader makes of the fields, it takes them in turn. -/
namespace SourceModels.MessagePack.Value

theorem keyWhole {names : List String} {v : Value} (known : key names v ≠ .invalid) :
    v.isWhole = true := by
  cases v <;> first | rfl | simp [key] at known

section
variable {P : Type} (names : List String) (step : P → Nat → Value → P → Prop)

inductive Keyed : P → List Value → P → Prop where
  | done {p : P} : Keyed p [] p
  | field {p q r : P} {key v : Value} {rest : List Value} {i : Nat}
      (known : Value.key names key = .field i) (made : step p i v q) (later : Keyed q rest r) :
      Keyed p (key :: v :: rest) r
  | other {p r : P} {key v : Value} {rest : List Value}
      (unknown : Value.key names key = .other) (whole : v.isWhole = true)
      (later : Keyed p rest r) : Keyed p (key :: v :: rest) r

inductive Placed : Nat → P → List Value → P → Prop where
  | done {i : Nat} {p : P} : Placed i p [] p
  | item {i : Nat} {p q r : P} {v : Value} {rest : List Value} (made : step p i v q)
      (later : Placed (i + 1) q rest r) : Placed i p (v :: rest) r

end

section
variable {P : Type} {names : List String} {step : P → Nat → Value → P → Prop} {p q : P}
  {flat items : List Value} {i : Nat}

theorem Keyed.allWhole (read : Keyed names step p flat q)
    (each : ∀ {p i v q}, step p i v q → v.isWhole = true) : Value.allWhole flat = true := by
  induction read with
  | done => rfl
  | @field _ _ _ key _ _ _ known made _ ih =>
    have first : key.isWhole = true := keyWhole (by rw [known]; simp)
    simp [Value.allWhole, first, each made, ih]
  | @other _ _ key _ _ unknown whole _ ih =>
    have first : key.isWhole = true := keyWhole (by rw [unknown]; simp)
    simp [Value.allWhole, first, whole, ih]

theorem Placed.allWhole (read : Placed step i p items q)
    (each : ∀ {p i v q}, step p i v q → v.isWhole = true) : Value.allWhole items = true := by
  induction read with
  | done => rfl
  | item made _ ih => simp [Value.allWhole, each made, ih]

theorem Keyed.kept {Kept : P → Prop} (read : Keyed names step p flat q)
    (each : ∀ {p i v q}, v ∈ flat → step p i v q → Kept p → Kept q) (before : Kept p) :
    Kept q := by
  induction read with
  | done => exact before
  | field _ made _ ih =>
    exact ih (fun inside => each (by simp [inside])) (each (by simp) made before)
  | other _ _ _ ih => exact ih (fun inside => each (by simp [inside])) before

theorem Placed.kept {Kept : P → Prop} (read : Placed step i p items q)
    (each : ∀ {p i v q}, step p i v q → Kept p → Kept q) (before : Kept p) : Kept q := by
  induction read with
  | done => exact before
  | item made _ ih => exact ih (each made before)

end

section
variable {P : Type} {names : List String} {put : P → Nat → Value → Option P} {p q : P}

theorem keyedRead {run : P → List Value → Option P} (none : ∀ p, run p [] = some p)
    (odd : ∀ p v, run p [v] = Option.none)
    (next : ∀ p key v rest, run p (key :: v :: rest) = match Value.key names key with
      | .field i => (put p i v).bind fun q => run q rest
      | .other => if v.isWhole then run p rest else Option.none
      | .invalid => Option.none) :
    (flat : List Value) → {p : P} → run p flat = some q →
      Keyed names (fun p i v q => put p i v = some q) p flat q
  | [], p, read => by
    obtain rfl := Option.some.inj ((none p).symm.trans read)
    exact .done
  | [v], p, read => by simp [odd] at read
  | key :: v :: rest, p, read => by
    rw [next] at read
    cases known : Value.key names key with
    | field i =>
      simp only [known, Option.bind_eq_some_iff] at read
      obtain ⟨grown, made, later⟩ := read
      exact .field known made (keyedRead none odd next rest later)
    | other =>
      simp only [known, Option.ite_none_right_eq_some] at read
      exact .other known read.1 (keyedRead none odd next rest read.2)
    | invalid => simp [known] at read

theorem placedRead {run : Nat → P → List Value → Option P} (none : ∀ i p, run i p [] = some p)
    (next : ∀ i p v rest, run i p (v :: rest) = (put p i v).bind fun q => run (i + 1) q rest)
    {items : List Value} {i : Nat} (read : run i p items = some q) :
    Placed (fun p i v q => put p i v = some q) i p items q := by
  induction items generalizing i p with
  | nil =>
    obtain rfl := Option.some.inj ((none i p).symm.trans read)
    exact .done
  | cons v rest ih =>
    rw [next, Option.bind_eq_some_iff] at read
    obtain ⟨grown, made, later⟩ := read
    exact .item made (ih later)

end

end SourceModels.MessagePack.Value
