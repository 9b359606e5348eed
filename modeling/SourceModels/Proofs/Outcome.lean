/-! Steps that may end in a fault: what a chain of them has done when it is done. -/
namespace SourceModels

variable {α β ε ε' : Type}

instance outcomesDecidable [DecidableEq ε] [DecidableEq α] : DecidableEq (Except ε α)
  | .error a, .error b => decidable_of_iff (a = b) ⟨congrArg _, Except.error.inj⟩
  | .ok a, .ok b => decidable_of_iff (a = b) ⟨congrArg _, Except.ok.inj⟩
  | .error _, .ok _ => isFalse nofun
  | .ok _, .error _ => isFalse nofun

theorem mapErrorDone {result : Except ε α} {f : ε → ε'} {a : α} :
    result.mapError f = .ok a ↔ result = .ok a := by
  cases result with
  | error fault =>
    change (Except.error (f fault) : Except ε' α) = .ok a ↔ _
    simp only [reduceCtorEq]
  | ok b =>
    change (Except.ok b : Except ε' α) = .ok a ↔ _
    simp only [Except.ok.injEq]

theorem mappedDone {result : Except ε α} {f : α → β} {b : β} (done : result.map f = .ok b) :
    ∃ a, result = .ok a ∧ f a = b := by
  cases result with
  | error fault => cases done
  | ok a => exact ⟨a, rfl, Except.ok.inj done⟩

theorem boundDone {first : Except ε α} {next : α → Except ε β} {b : β}
    (done : first.bind next = .ok b) : ∃ a, first = .ok a ∧ next a = .ok b := by
  cases first with
  | error fault => cases done
  | ok a => exact ⟨a, rfl, done⟩

end SourceModels
