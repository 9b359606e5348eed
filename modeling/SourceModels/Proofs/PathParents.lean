import SourceModels.Proofs.PathNames

/-! The path above another: it has the same names up to the last one, less the single dots right
before that, and it is a start of the text. -/
namespace SourceModels.Path

theorem partsNone : parts [] = [] := by simp [parts, Text.splitOn]

theorem partsClosed (front : List Char) : parts (front ++ ['/']) = parts front := by
  rw [partsSlash, partsNone, List.append_nil]

theorem partsBackward (name : List Char) {rest : List Char}
    (stops : rest = [] ∨ rest.head? = some '/') :
    parts (name ++ rest).reverse = parts rest.reverse ++ parts name.reverse := by
  rcases stops with rfl | slash
  · simp [partsNone]
  · obtain ⟨more, rfl⟩ := List.head?_eq_some_iff.mp slash
    rw [List.reverse_append, List.reverse_cons, List.append_assoc, List.singleton_append, partsSlash,
      partsClosed]

theorem partsDot : parts ['.'] = [['.']] := partsSingle (by decide) (by decide)

theorem reversedName (reversed : List Char) :
    '/' ∉ reversed.takeWhile (· ≠ '/') ∧
      (reversed.dropWhile (· ≠ '/') = [] ∨ (reversed.dropWhile (· ≠ '/')).head? = some '/') := by
  constructor
  · intro inside
    have kept := List.all_eq_true.mp List.all_takeWhile '/' inside
    simp at kept
  · have first := List.head?_dropWhile_not (fun c : Char => decide (c ≠ '/')) reversed
    cases rest : reversed.dropWhile (· ≠ '/') with
    | nil => exact .inl rfl
    | cons c more =>
      rw [rest] at first
      exact .inr (by simpa using first)

theorem skippedEnd {last rest : List Char} (stops : rest = [] ∨ rest.head? = some '/')
    (present : ¬ (last = [] ∧ rest = [])) (skipped : last = [] ∨ last = ['.'] ∧ rest ≠ []) :
    (∃ more, rest = '/' :: more) ∧ ∀ part ∈ parts last.reverse, part = ['.'] := by
  constructor
  · refine List.head?_eq_some_iff.mp (stops.resolve_left fun none => ?_)
    rcases skipped with bare | ⟨_, more⟩
    · exact present ⟨bare, none⟩
    · exact more none
  · rcases skipped with rfl | ⟨rfl, _⟩
    · simp [partsNone]
    · simp [partsDot]

theorem strippedLast {reversed before name : List Char} {fuel : Nat}
    (found : splitLast.strip reversed fuel = some (before, name)) : ∃ tail dots,
      reversed.reverse = before ++ (name ++ tail) ∧
      parts reversed.reverse = parts before ++ name :: dots ∧ (∀ part ∈ dots, part = ['.']) ∧
      (before = [] ∨ before.getLast? = some '/') ∧ name ≠ [] := by
  induction fuel generalizing reversed with
  | zero => simp [splitLast.strip] at found
  | succ fuel ih =>
    obtain ⟨plain, stops⟩ := reversedName reversed
    have whole := @List.takeWhile_append_dropWhile _ (fun c : Char => decide (c ≠ '/')) reversed
    simp only [splitLast.strip] at found
    generalize reversed.takeWhile (fun c => decide (c ≠ '/')) = last at *
    generalize reversed.dropWhile (fun c => decide (c ≠ '/')) = rest at *
    have split := partsBackward last stops
    rw [whole] at split
    split at found
    · contradiction
    rename_i present
    split at found
    · rename_i skipped
      obtain ⟨⟨more, rfl⟩, lastDots⟩ := skippedEnd stops present skipped
      obtain ⟨tail, dots, text, same, alike, ends, filled⟩ := ih found
      rw [List.tail_cons] at text same
      refine ⟨tail ++ '/' :: last.reverse, dots ++ parts last.reverse, ?_, ?_, ?_, ends, filled⟩
      · rw [← whole, List.reverse_append, List.reverse_cons, text]
        simp
      · rw [split, List.reverse_cons, partsClosed, same]
        simp
      · intro part inside
        exact (List.mem_append.mp inside).elim (alike part) (lastDots part)
    · rename_i kept
      cases found
      have filled : last.reverse ≠ [] := fun none => kept (.inl (by simpa using none))
      have single := @partsSingle last.reverse (by simpa using plain) filled
      refine ⟨[], [], ?_, ?_, by simp, ?_, filled⟩
      · rw [← whole]
        simp
      · rw [split, single]
      · simpa using stops

structure Trimmed (path : List Char) : Prop where
  undotted : parts path = [['.']] ∨ (parts path).getLast? ≠ some ['.']
  ends : path.getLast? = some '/' → parts path = []

theorem trimmedName {reversed : List Char} (named : reversed.head? ≠ some '/')
    (undotted : ∀ more, reversed ≠ '.' :: '/' :: more) : Trimmed reversed.reverse := by
  cases reversed with
  | nil => exact ⟨.inr (by simp [partsNone]), fun _ => partsNone⟩
  | cons c more =>
    obtain ⟨plain, stops⟩ := reversedName (c :: more)
    have whole := @List.takeWhile_append_dropWhile _ (fun c : Char => decide (c ≠ '/')) (c :: more)
    have other : c ≠ '/' := by simpa using named
    refine ⟨?_, fun slash => absurd (by simpa using slash) other⟩
    have filled : (c :: more).takeWhile (fun c => decide (c ≠ '/')) ≠ [] := by simp [other]
    generalize (c :: more).takeWhile (fun c => decide (c ≠ '/')) = last at *
    generalize (c :: more).dropWhile (fun c => decide (c ≠ '/')) = rest at *
    have split := partsBackward last stops
    rw [whole, @partsSingle last.reverse (by simpa using plain) (by simpa using filled)]
      at split
    rw [split, List.getLast?_concat]
    by_cases dot : last = ['.']
    · subst dot
      rcases stops with rfl | slash
      · exact .inl (by simp [partsNone])
      · obtain ⟨further, rfl⟩ := List.head?_eq_some_iff.mp slash
        exact absurd whole.symm (undotted further)
    · refine .inr fun same => dot ?_
      have back := congrArg List.reverse (Option.some.inj same)
      simpa using back

theorem trimmedParts {reversed : List Char} {fuel : Nat} (enough : reversed.length ≤ fuel)
    (slash : reversed = [] ∨ reversed.head? = some '/') : ∃ tail dots,
      reversed.reverse = trimmedEnd reversed fuel ++ tail ∧
      parts reversed.reverse = parts (trimmedEnd reversed fuel) ++ dots ∧
      (∀ part ∈ dots, part = ['.']) ∧ Trimmed (trimmedEnd reversed fuel) := by
  induction fuel generalizing reversed with
  | zero =>
    have none : reversed = [] := List.eq_nil_of_length_eq_zero (Nat.le_zero.mp enough)
    subst none
    exact ⟨[], [], rfl, rfl, by simp, trimmedName (by simp) (by simp)⟩
  | succ fuel ih =>
    unfold trimmedEnd
    split
    · rename_i rest
      obtain ⟨tail, dots, text, same, alike, trimmed⟩ := @ih ('/' :: rest)
        (by simpa using enough) (.inr rfl)
      rw [List.reverse_cons] at text same
      refine ⟨tail ++ ['/'], dots, ?_, ?_, alike, trimmed⟩
      · rw [List.reverse_cons, List.reverse_cons, text, List.append_assoc]
      · rw [List.reverse_cons, List.reverse_cons, partsClosed, same]
    · rename_i rest
      obtain ⟨tail, dots, text, same, alike, trimmed⟩ := @ih ('/' :: rest)
        (by simp only [List.length_cons] at enough ⊢; omega) (.inr rfl)
      rw [List.reverse_cons] at text same
      refine ⟨tail ++ ['.', '/'], dots ++ [['.']], ?_, ?_, ?_, trimmed⟩
      · rw [List.reverse_cons, List.reverse_cons, List.reverse_cons, text]
        simp
      · rw [List.reverse_cons, List.reverse_cons, List.reverse_cons, partsClosed, List.append_assoc,
          List.singleton_append, partsSlash, partsDot, ← partsClosed rest.reverse, same,
          List.append_assoc]
      · intro part inside
        exact (List.mem_append.mp inside).elim (alike part) List.mem_singleton.mp
    · exact ⟨[], [], rfl, by simp, by simp, by decide, fun _ => by decide⟩
    · rename_i rest twice dotted bare
      refine ⟨['/'], [], by simp, ?_, by simp, ?_⟩
      · rw [List.reverse_cons, partsClosed, List.append_nil]
      · refine trimmedName ?_ fun more same => dotted more (by rw [same])
        intro slash
        obtain ⟨more, rfl⟩ := List.head?_eq_some_iff.mp slash
        exact twice more rfl
    · rename_i other _ _ _ unslashed
      rcases slash with rfl | slash
      · exact ⟨[], [], rfl, by simp, by simp, trimmedName (by simp) (by simp)⟩
      · obtain ⟨more, rfl⟩ := List.head?_eq_some_iff.mp slash
        exact absurd rfl (unslashed more)

theorem trimmedNone {reversed : List Char} {fuel : Nat}
    (none : trimmedEnd reversed fuel = []) : reversed = [] := by
  induction fuel generalizing reversed with
  | zero => simpa [trimmedEnd] using none
  | succ fuel ih =>
    unfold trimmedEnd at none
    split at none
    · exact absurd (ih none) (by simp)
    · exact absurd (ih none) (by simp)
    · cases none
    · rename_i rest _ _ bare
      exact absurd (List.reverse_eq_nil_iff.mp none) bare
    · simpa using none

theorem strippedNone {reversed : List Char} {fuel : Nat} (enough : reversed.length ≤ fuel)
    (none : splitLast.strip reversed fuel = none) :
    ∀ part ∈ parts reversed.reverse, part = ['.'] := by
  induction fuel generalizing reversed with
  | zero =>
    have empty : reversed = [] := List.eq_nil_of_length_eq_zero (Nat.le_zero.mp enough)
    simp [empty, partsNone]
  | succ fuel ih =>
    obtain ⟨_, stops⟩ := reversedName reversed
    have whole := @List.takeWhile_append_dropWhile _ (fun c : Char => decide (c ≠ '/')) reversed
    simp only [splitLast.strip] at none
    generalize reversed.takeWhile (fun c => decide (c ≠ '/')) = last at *
    generalize reversed.dropWhile (fun c => decide (c ≠ '/')) = rest at *
    split at none
    · rename_i bare
      simp [← whole, bare, partsNone]
    rename_i present
    split at none
    · rename_i skipped
      obtain ⟨⟨more, rfl⟩, lastDots⟩ := skippedEnd stops present skipped
      have shorter : more.length ≤ fuel := by
        rw [← whole, List.length_append, List.length_cons] at enough
        omega
      have upper := ih shorter none
      rw [← whole, partsBackward last stops, List.reverse_cons, partsClosed]
      intro part inside
      exact (List.mem_append.mp inside).elim (upper part) (lastDots part)
    · contradiction

theorem parentParts {path above : String} (found : parent? path = some above) :
    (∃ dots last more, FileSystem.names path = FileSystem.names above ++ dots ++ last :: more ∧
      (∀ name ∈ dots, name = ".") ∧ ∀ name ∈ more, name = ".") ∧
    above.toList <+: path.toList ∧ above.toList.length < path.toList.length ∧
    Trimmed above.toList ∧ isAbsolute above = isAbsolute path := by
  obtain ⟨⟨before, name⟩, stripped, rfl⟩ := Option.map_eq_some_iff.mp found
  obtain ⟨tail, more, text, same, laterDots, ends, filled⟩ := strippedLast stripped
  obtain ⟨rest, dots, front, alike, dotted, trimmed⟩ := @trimmedParts before.reverse before.length
    (by simp) (by simpa using ends)
  rw [List.reverse_reverse] at text same front alike
  have written : ∀ {dots : List (List Char)}, (∀ part ∈ dots, part = ['.']) →
      ∀ name ∈ dots.map String.ofList, name = "." := by
    intro dots alike name inside
    obtain ⟨part, listed, rfl⟩ := List.mem_map.mp inside
    rw [alike part listed]
  refine ⟨⟨dots.map String.ofList, String.ofList name, more.map String.ofList, ?_, written dotted,
    written laterDots⟩, ?_, ?_, ?_, ?_⟩
  · simp [FileSystem.names, same, alike]
  · rw [String.toList_ofList, text]
    exact List.IsPrefix.trans ⟨rest, front.symm⟩ (List.prefix_append ..)
  · have longer := congrArg List.length text
    have part := congrArg List.length front
    have some' := List.length_pos_iff.mpr filled
    simp only [List.length_append] at longer part
    rw [String.toList_ofList]
    omega
  · rwa [String.toList_ofList]
  · rw [isAbsolute, isAbsolute, String.toList_ofList, text]
    cases left : trimmedEnd before.reverse before.length with
    | nil =>
      have relative : name.head? ≠ some '/' := fun slash =>
        stripNamePlain stripped (List.mem_of_mem_head? slash)
      have none : before = [] := by simpa using trimmedNone left
      obtain ⟨c, rest, rfl⟩ := List.exists_cons_of_ne_nil filled
      simpa [none] using relative
    | cons c rest =>
      rw [front, left]
      rfl

theorem parentNames {path above last : String} {front : List String}
    (found : parent? path = some above) (split : FileSystem.names path = front ++ [last])
    (named : last ≠ ".") :
    ∃ dots, front = FileSystem.names above ++ dots ∧ ∀ name ∈ dots, name = "." := by
  obtain ⟨⟨dots, last', more, same, dotted, laterDots⟩, _⟩ := parentParts found
  rw [split] at same
  rcases List.eq_nil_or_concat more with rfl | ⟨back, final, rfl⟩
  · exact ⟨dots, (List.append_inj' same rfl).1, dotted⟩
  · rw [List.concat_eq_append] at same laterDots
    rw [← List.cons_append, ← List.append_assoc] at same
    obtain ⟨rfl⟩ := List.singleton_inj.mp (List.append_inj' same rfl).2
    exact absurd (laterDots last (by simp)) named

theorem fileNameLast {path last : String} {front : List String}
    (split : FileSystem.names path = front ++ [last]) (named : last ≠ "." ∧ last ≠ "..") :
    fileName? path = some last := by
  cases stripped : splitLast path.toList with
  | none =>
    have alike := strippedNone (by simp) stripped
    have inside : last ∈ FileSystem.names path := by simp [split]
    obtain ⟨part, listed, rfl⟩ := List.mem_map.mp inside
    rw [List.reverse_reverse] at alike
    exact absurd (by rw [alike part listed]) named.1
  | some pair =>
    obtain ⟨before, name⟩ := pair
    obtain ⟨_, dots, _, same, dotted, _⟩ := strippedLast stripped
    rw [List.reverse_reverse] at same
    rw [FileSystem.names, same, List.map_append, List.map_cons] at split
    rcases List.eq_nil_or_concat dots with rfl | ⟨more, final, rfl⟩
    · have whole := (List.append_inj' split rfl).2
      simp only [List.map_nil, List.cons.injEq, and_true] at whole
      subst whole
      have plain : ¬ (name = ['.'] ∨ name = ['.', '.']) := by
        rintro (rfl | rfl)
        · exact named.1 rfl
        · exact named.2 rfl
      simp [fileName?, stripped, plain]
    · rw [List.concat_eq_append, List.map_append, ← List.cons_append, ← List.append_assoc] at split
      have ends := (List.append_inj' split rfl).2
      have dot := dotted final (by simp)
      simp only [List.map_cons, List.map_nil, List.cons.injEq, and_true] at ends
      exact absurd (by rw [← ends, dot]) named.1

theorem parentNone {path : String} (none : parent? path = none) :
    ∀ name ∈ FileSystem.names path, name = "." := by
  have stripped := Option.map_eq_none_iff.mp none
  have alike := strippedNone (by simp) stripped
  intro name inside
  rw [List.reverse_reverse] at alike
  obtain ⟨part, listed, rfl⟩ := List.mem_map.mp inside
  rw [alike part listed]

end SourceModels.Path
