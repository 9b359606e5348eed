import Mathlib.Data.List.Forall2
import SourceModels.Proofs.Identifier.Containment
import SourceModels.Proofs.Text

/-! The ways of naming one repository: with or without a scheme, `.git` and trailing blanks, and with
slashes or ampersands. All of them have the same key and the same destination. -/
namespace SourceModels

namespace Identifier

structure Bare (chars : List Char) : Prop where
  schemeless : ¬ schemeMark <:+: chars
  suffixless : ¬ gitSuffix <:+ chars
  blankless : ∀ c, chars.getLast? = some c → isTrailing c = false

structure Form where
  scheme : Option String
  git : Bool
  tail : String
  blank : ∀ c ∈ tail.toList, isTrailing c = true

namespace Form

def front (form : Form) : String := (form.scheme.map (· ++ "://")).getD ""

def suffix (form : Form) : String := if form.git then ".git" else ""

def write (form : Form) (bare : String) : String :=
  form.front ++ bare ++ form.suffix ++ form.tail

theorem frontChars (form : Form) :
    form.front.toList = [] ∨ ∃ scheme, form.front.toList = scheme ++ schemeMark := by
  obtain ⟨scheme, git, tail, blank⟩ := form
  cases scheme with
  | none => exact .inl rfl
  | some scheme => exact .inr ⟨scheme.toList, by simp [front, String.toList_append, schemeMark]⟩

theorem suffixChars (form : Form) :
    form.suffix.toList = [] ∨ form.suffix.toList = gitSuffix := by
  cases git : form.git with
  | false => exact .inl (by simp [suffix, git])
  | true => exact .inr (by simp [suffix, git, gitSuffix])

end Form

namespace Bare

variable {chars : List Char} (bare : Bare chars) {front : List Char}
  (opens : front = [] ∨ ∃ scheme, front = scheme ++ schemeMark)

include bare opens

theorem frontBlankless (c : Char) (last : (front ++ chars).getLast? = some c) :
    isTrailing c = false := by
  cases ends : chars.getLast? with
  | some d =>
    rw [List.getLast?_append, ends, Option.some_or] at last
    exact bare.blankless c (ends.trans last)
  | none =>
    rw [List.getLast?_append, ends, Option.none_or] at last
    rcases opens with rfl | ⟨scheme, rfl⟩
    · cases last
    · rw [List.getLast?_append] at last
      cases last
      decide

theorem frontSuffixless : ¬ gitSuffix <:+ front ++ chars := by
  rcases opens with rfl | ⟨scheme, rfl⟩
  · exact bare.suffixless
  · -- the slash of the mark would have to be a letter of the suffix
    intro suffixed
    have slashed : '/' :: chars <:+ scheme ++ schemeMark ++ chars :=
      ⟨scheme ++ [':', '/'], by simp [schemeMark]⟩
    rcases List.suffix_or_suffix_of_suffix suffixed slashed with short | long
    · rcases List.suffix_cons_iff.mp short with same | within
      · simp [gitSuffix] at same
      · exact bare.suffixless within
    · have slash : '/' ∈ gitSuffix := long.subset List.mem_cons_self
      revert slash
      decide

theorem frontDropped :
    (Text.afterLast? schemeMark (front ++ chars)).getD (front ++ chars) = chars := by
  rcases opens with rfl | ⟨scheme, rfl⟩
  · rw [List.nil_append, Text.afterLastAbsent bare.schemeless, Option.getD_none]
  · -- a later mark would begin with a slash or lie within the inner part
    have once : ¬ schemeMark <:+: ['/', '/'] ++ chars := by
      intro later
      simp only [schemeMark, List.cons_append, List.nil_append, List.infix_cons_iff,
        List.cons_prefix_cons, Char.reduceEq, false_and, false_or] at later
      exact bare.schemeless later
    rw [List.append_assoc, schemeMark, Text.afterLastPresent once, Option.getD_some]

theorem keyOfParts {suffix tail : List Char} (ends : suffix = [] ∨ suffix = gitSuffix)
    (blank : ∀ c ∈ tail, isTrailing c = true) :
    keyChars (front ++ chars ++ suffix ++ tail) = Text.replaceChar '/' '&' chars := by
  have dropped := bare.frontDropped opens
  rcases ends with rfl | rfl
  · have kept := Text.dropEndKept (bare.frontBlankless opens)
    have absent := Text.stripAbsent (bare.frontSuffixless opens)
    simp only [keyChars, Text.dropEndAll blank, List.append_nil, kept, absent, Option.getD_none,
      dropped]
  · have kept : Text.dropEnd isTrailing (front ++ chars ++ gitSuffix) =
        front ++ chars ++ gitSuffix := by
      refine Text.dropEndKept fun c last => ?_
      rw [List.getLast?_append] at last
      cases last
      decide
    simp only [keyChars, Text.dropEndAll blank, kept, Text.stripPresent, Option.getD_some, dropped]

end Bare

theorem keyOfForm {bare : String} (plain : Bare bare.toList) (form : Form) :
    (key (form.write bare)).toList = Text.replaceChar '/' '&' bare.toList := by
  simp only [key, Form.write, String.toList_ofList, String.toList_append]
  exact plain.keyOfParts form.frontChars form.suffixChars form.blank

def Ampersanded : List Char → List Char → Prop :=
  List.Forall₂ fun c d => d = c ∨ c = '/' ∧ d = '&'

namespace Ampersanded

theorem replaced {chars written : List Char} (same : Ampersanded chars written) :
    Text.replaceChar '/' '&' written = Text.replaceChar '/' '&' chars := by
  induction same with
  | nil => rfl
  | cons here later ih =>
    simp only [Text.replaceChar, List.map_cons] at ih ⊢
    rw [ih]
    rcases here with rfl | ⟨rfl, rfl⟩ <;> rfl

theorem frontKept {chars written front : List Char} (same : Ampersanded chars written)
    (plain : '&' ∉ front) (starts : front <+: written) : front <+: chars := by
  induction same generalizing front with
  | nil => exact starts
  | cons here later ih =>
    cases front with
    | nil => exact List.nil_prefix
    | cons x rest =>
      obtain ⟨rfl, further⟩ := List.cons_prefix_cons.mp starts
      have within := ih (fun inside => plain (List.mem_cons_of_mem _ inside)) further
      rcases here with rfl | ⟨rfl, rfl⟩
      · exact List.cons_prefix_cons.mpr ⟨rfl, within⟩
      · exact absurd List.mem_cons_self plain

theorem reversed {chars written : List Char} (same : Ampersanded chars written) :
    Ampersanded chars.reverse written.reverse :=
  List.forall₂_reverse_iff.mpr same

theorem suffixKept {chars written suffix : List Char} (same : Ampersanded chars written)
    (plain : '&' ∉ suffix) (ends : suffix <:+ written) : suffix <:+ chars := by
  rw [← List.reverse_prefix] at ends ⊢
  exact same.reversed.frontKept (by simpa using plain) ends

theorem partKept {chars written part : List Char} (same : Ampersanded chars written)
    (plain : '&' ∉ part) (inside : part <:+: written) : part <:+: chars := by
  induction same with
  | nil => exact inside
  | cons here later ih =>
    rcases List.infix_cons_iff.mp inside with starts | within
    · have front := frontKept (.cons here later) plain starts
      exact front.isInfix
    · exact List.infix_cons_iff.mpr (.inr (ih within))

theorem firstKept {chars written : List Char} (same : Ampersanded chars written) {d : Char}
    (first : written.head? = some d) : d = '&' ∨ chars.head? = some d := by
  cases same with
  | nil => exact .inr first
  | cons here later =>
    cases first
    rcases here with rfl | ⟨rfl, rfl⟩
    · exact .inr rfl
    · exact .inl rfl

theorem lastKept {chars written : List Char} (same : Ampersanded chars written) {d : Char}
    (last : written.getLast? = some d) : d = '&' ∨ chars.getLast? = some d := by
  rw [← List.head?_reverse] at last ⊢
  exact same.reversed.firstKept last

end Ampersanded

theorem Bare.ampersanded {chars written : List Char} (bare : Bare chars)
    (same : Ampersanded chars written) : Bare written where
  schemeless := fun inside => bare.schemeless (same.partKept (by decide) inside)
  suffixless := fun ends => bare.suffixless (same.suffixKept (by decide) ends)
  blankless := by
    intro c last
    rcases same.lastKept last with rfl | kept
    · decide
    · exact bare.blankless c kept

theorem destinationOfKey {identifier other : String} (same : key identifier = key other)
    (root : String) (depth : Nat) :
    destination identifier root depth = destination other root depth := by
  rw [destination, destination, same]

theorem formsShareKey :
    (∀ {bare written : String}, Bare bare.toList → Ampersanded bare.toList written.toList →
      ∀ form : Form,
        (key (form.write written)).toList = bare.toList.map (fun c => if c = '/' then '&' else c) ∧
        key (form.write written) = key bare ∧
        ∀ (root : String) (depth : Nat),
          destination (form.write written) root depth = destination bare root depth) ∧
    ∀ identifier : String, '/' ∉ (key identifier).toList := by
  refine ⟨?_, keyPlain⟩
  intro bare written plain same form
  have spelled := keyOfForm (plain.ampersanded same) form
  rw [same.replaced] at spelled
  have alone := keyOfForm plain ⟨none, false, "", by simp⟩
  have unchanged : (⟨none, false, "", by simp⟩ : Form).write bare = bare := by
    simp [Form.write, Form.front, Form.suffix]
  rw [unchanged] at alone
  have shared : key (form.write written) = key bare :=
    String.toList_injective (spelled.trans alone.symm)
  exact ⟨spelled, shared, destinationOfKey shared⟩

def markedTwice : Form where
  scheme := some "git+://x"
  git := true
  tail := "\u3000\\\n"
  blank := by simp [isTrailing, Text.isBlank, Text.blankRanges]

theorem markedTwiceAlike :
    key "git+://x://h/a&b.git\u3000\\\n" = "h&a&b" ∧
      destination "git+://x://h/a&b.git\u3000\\\n" "out" 2 = destination "h/a/b" "out" 2 := by
  have plain : Bare "h/a/b".toList := ⟨by decide, by decide, fun c last => by cases last; decide⟩
  have same : Ampersanded "h/a/b".toList "h/a&b".toList := by
    simp [Ampersanded]
  obtain ⟨spelled, -, placed⟩ := formsShareKey.1 plain same markedTwice
  have written : markedTwice.write "h/a&b" = "git+://x://h/a&b.git\u3000\\\n" := by decide
  have ampersands : "h/a/b".toList.map (fun c => if c = '/' then '&' else c) = "h&a&b".toList := by
    decide
  rw [written, ampersands, String.toList_inj] at spelled
  rw [written] at placed
  exact ⟨spelled, placed "out" 2⟩

end Identifier

end SourceModels
