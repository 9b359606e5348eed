import Mathlib.Data.List.Infix
import SourceModels.Text.Blank

/-! Ends that are dropped and marks that are looked for in a text. -/
namespace SourceModels.Text

variable {α : Type}

theorem dropEndAll {p : α → Bool} {tail : List α} (dropped : ∀ x ∈ tail, p x = true) (xs : List α) :
    dropEnd p (xs ++ tail) = dropEnd p xs := by
  have reversed : ∀ x ∈ tail.reverse, p x = true := by simpa using dropped
  rw [dropEnd, List.reverse_append, List.dropWhile_append_of_pos reversed, dropEnd]

theorem dropEndKept {p : α → Bool} {xs : List α} (kept : ∀ x, xs.getLast? = some x → p x = false) :
    dropEnd p xs = xs := by
  rw [← List.head?_reverse] at kept
  rw [dropEnd]
  cases reversed : xs.reverse with
  | nil => simpa using reversed.symm
  | cons x rest =>
    have last := kept x (by rw [reversed, List.head?_cons])
    rw [List.dropWhile_cons_of_neg (by simp [last]), ← reversed, List.reverse_reverse]

variable [DecidableEq α]

theorem frontPresent (front back : List α) : front.isPrefixOf? (front ++ back) = some back :=
  List.isPrefixOf?_eq_some_iff_append_eq.mpr rfl

theorem frontAbsent {front xs : List α} (absent : ¬ front <+: xs) : front.isPrefixOf? xs = none := by
  cases found : front.isPrefixOf? xs with
  | none => rfl
  | some back => exact absurd ⟨back, List.append_eq_of_isPrefixOf?_eq_some found⟩ absent

theorem stripPresent (xs tail : List α) : stripEnd? tail (xs ++ tail) = some xs := by
  rw [stripEnd?, List.reverse_append, frontPresent, Option.map_some, List.reverse_reverse]

theorem stripAbsent {tail xs : List α} (absent : ¬ tail <:+ xs) : stripEnd? tail xs = none := by
  rw [stripEnd?, frontAbsent (fun present => absent (List.reverse_prefix.mp present)),
    Option.map_none]

theorem afterLastAbsent {mark xs : List α} (absent : ¬ mark <:+: xs) :
    afterLast? mark xs = none := by
  induction xs with
  | nil => exact frontAbsent fun present => absent present.isInfix
  | cons x rest ih =>
    rw [List.infix_cons_iff, not_or] at absent
    rw [afterLast?, ih absent.2, frontAbsent absent.1]

theorem afterLastPresent {x : α} {mark back : List α} (once : ¬ x :: mark <:+: mark ++ back)
    (front : List α) : afterLast? (x :: mark) (front ++ (x :: mark ++ back)) = some back := by
  induction front with
  | nil =>
    rw [List.nil_append, List.cons_append, afterLast?, afterLastAbsent once, ← List.cons_append,
      frontPresent]
  | cons y rest ih => rw [List.cons_append, afterLast?, ih]

theorem afterLastMeans {x : α} {xs tail : List α} :
    afterLast? [x] xs = some tail ↔ (∃ front, xs = front ++ x :: tail) ∧ x ∉ tail := by
  have present {back : List α} (once : x ∉ back) (front : List α) :
      afterLast? [x] (front ++ x :: back) = some back :=
    afterLastPresent (fun again => once ((List.singleton_infix_iff _ _).mp again)) front
  constructor
  · intro found
    by_cases inside : x ∈ xs
    · obtain ⟨back, front, cut, once⟩ := List.eq_append_cons_of_mem (List.mem_reverse.mpr inside)
      have same : xs = front.reverse ++ x :: back.reverse := by
        simpa using congrArg List.reverse cut
      have last : x ∉ back.reverse := by simpa using once
      rw [same, present last] at found
      obtain rfl := Option.some.inj found
      exact ⟨⟨_, same⟩, last⟩
    · rw [afterLastAbsent fun again => inside ((List.singleton_infix_iff _ _).mp again)] at found
      contradiction
  · rintro ⟨⟨front, rfl⟩, once⟩
    exact present once front

end SourceModels.Text
