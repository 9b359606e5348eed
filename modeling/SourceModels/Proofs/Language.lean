import SourceModels.Language
import SourceModels.Proofs.Glob
import SourceModels.Proofs.Text
import SourceModels.Proofs.Utf8

/-! What is source code by default, in terms of the path text: the exclusions without patterns, the
extension without a search from the end, and lower case as Unicode has it. -/
namespace SourceModels.Language

def vendored : List String := ["vendor", "node_modules", "third_party", "bower_components"]

def generatedEndings : List String := [".min.js", "_pb2.py", ".pb.go"]

def generatedMark : String := ".generated."

def Excluded (path : String) : Prop :=
  (∃ name ∈ vendored, (name ++ "/").toList <+: path.toList ∨
    ("/" ++ name ++ "/").toList <:+: path.toList) ∨
  (∃ ending ∈ generatedEndings, ending.toList <:+ path.toList) ∨
  generatedMark.toList <:+: path.toList

instance (path : String) : Decidable (Excluded path) := inferInstanceAs (Decidable (_ ∨ _ ∨ _))

/-- What is known of lower case: capitals of ASCII have their small letters, the Kelvin sign has the
letter k, and no other text becomes one of ASCII letters alone. -/
structure Lowercase (lowercase : String → String) : Prop where
  plain : ∀ text, (∀ c ∈ text.toList, c.toNat < 128 ∨ c = '\u212A') → lowercase text = lower text
  foreign : ∀ text, ∀ c ∈ text.toList, ¬ (c.toNat < 128 ∨ c = '\u212A') →
    ∃ d ∈ (lowercase text).toList, 128 ≤ d.toNat

def Extension (path tail : String) : Prop :=
  (∃ before, path = before ++ "." ++ tail) ∧ '.' ∉ tail.toList ∧ '/' ∉ tail.toList

def belowPattern (name : String) : Glob :=
  .ofList (.leading :: (Glob.literal (Bytes.ofText name) ++ [.inside]))

def endingPattern (ending : String) : Glob :=
  .ofList (.leading :: .anyRun :: Glob.literal (Bytes.ofText ending))

def amongPattern (mark : String) : Glob :=
  .ofList (.leading :: .anyRun :: (Glob.literal (Bytes.ofText mark) ++ [.anyRun]))

theorem defaultsRead : exclusions defaultExclusions =
    vendored.map belowPattern ++ [endingPattern ".min.js", amongPattern generatedMark,
      endingPattern "_pb2.py", endingPattern ".pb.go"] := rfl

theorem defaultsMatch (text : Bytes) :
    (∃ pattern ∈ exclusions defaultExclusions, pattern.Matches text) ↔
      (∃ name ∈ vendored, (belowPattern name).Matches text) ∨
      (∃ ending ∈ generatedEndings, (endingPattern ending).Matches text) ∨
      (amongPattern generatedMark).Matches text := by
  rw [defaultsRead]
  simp only [List.mem_append, List.mem_map, List.mem_cons, List.not_mem_nil, generatedEndings,
    or_and_right, exists_or, exists_exists_and_eq_and, exists_eq_left, or_false]
  refine or_congr_right ?_
  constructor
  · rintro (script | mark | python | go)
    · exact .inl (.inl script)
    · exact .inr mark
    · exact .inl (.inr (.inl python))
    · exact .inl (.inr (.inr go))
  · rintro ((script | python | go) | mark)
    · exact .inl script
    · exact .inr (.inr (.inl python))
    · exact .inr (.inr (.inr go))
    · exact .inr (.inl mark)

theorem belowMeans (name path : String) : (belowPattern name).Matches (Bytes.ofText path) ↔
    (name ++ "/").toList <+: path.toList ∨ ("/" ++ name ++ "/").toList <:+: path.toList := by
  have first : Bytes.ofText name ++ [Glob.slash] = Bytes.ofChars (name ++ "/").toList := by
    rw [String.toList_append, Bytes.ofCharsAppend]
    rfl
  have inner : Bytes.ofChars ("/" ++ name ++ "/").toList =
      Glob.slash :: Bytes.ofChars (name ++ "/").toList := by
    rw [String.append_assoc, String.toList_append, Bytes.ofCharsAppend]
    rfl
  rw [belowPattern, Glob.belowMatches, first, ← inner, Utf8.ofTextChars, Bytes.startsAlike,
    Bytes.occursAlike inner (by decide)]

theorem endingMeans {ending : String} (known : ending ∈ generatedEndings) (path : String) :
    (endingPattern ending).Matches (Bytes.ofText path) ↔ ending.toList <:+ path.toList := by
  have opens : ∃ b rest, Bytes.ofChars ending.toList = b :: rest ∧ b < 128 := by
    simp only [generatedEndings, List.mem_cons, List.not_mem_nil, or_false] at known
    rcases known with rfl | rfl | rfl
    all_goals exact ⟨_, _, rfl, by decide⟩
  obtain ⟨b, rest, opens, plain⟩ := opens
  rw [endingPattern, Glob.endingMatches]
  exact Bytes.endsAlike opens plain

theorem amongMeans (path : String) : (amongPattern generatedMark).Matches (Bytes.ofText path) ↔
    generatedMark.toList <:+: path.toList := by
  rw [amongPattern, Glob.amongMatches]
  exact Bytes.occursAlike rfl (by decide)

theorem excludedMeans (path : String) :
    isExcluded (exclusions defaultExclusions) path = true ↔ Excluded path := by
  simp only [isExcluded, List.any_eq_true, Glob.matchesAllMeans]
  rw [defaultsMatch, Excluded, amongMeans]
  refine or_congr (exists_congr fun name => ?_) (or_congr (exists_congr fun text => ?_) Iff.rfl)
  · exact and_congr_right fun _ => belowMeans name path
  · exact and_congr_right fun known => endingMeans known path

theorem extensionMeans (path tail : String) :
    extension? path = some tail ↔ Extension path tail := by
  have cut (before : String) :
      (before ++ "." ++ tail).toList = before.toList ++ '.' :: tail.toList := by
    simp [String.toList_append]
  have known : (∃ before, path = before ++ "." ++ tail) ↔
      ∃ front, path.toList = front ++ '.' :: tail.toList := by
    constructor
    · rintro ⟨before, rfl⟩
      exact ⟨before.toList, cut before⟩
    · rintro ⟨front, same⟩
      exact ⟨String.ofList front, String.toList_inj.mp (by rw [same, cut, String.toList_ofList])⟩
  rw [Extension, known, ← and_assoc, ← Text.afterLastMeans, extension?]
  cases found : Text.afterLast? ['.'] path.toList with
  | none => simp
  | some text =>
    dsimp only
    constructor
    · intro taken
      split at taken
      · contradiction
      · rename_i slashless
        obtain rfl := Option.some.inj taken
        exact ⟨by rw [String.toList_ofList], by simpa using slashless⟩
    · rintro ⟨same, slashless⟩
      obtain rfl := Option.some.inj same
      simp [slashless]

theorem rowsApart : ∀ a ∈ table, ∀ b ∈ table, ∀ extension ∈ a.2, extension ∈ b.2 → a = b := by
  decide +kernel

theorem tablePlain : ∀ row ∈ table, ∀ extension ∈ row.2, ∀ c ∈ extension.toList, c.toNat < 128 := by
  have plain : ∀ row ∈ table, ∀ extension ∈ row.2,
      extension.toList.all (·.toNat < 128) = true := by decide +kernel
  simpa using plain

theorem languageMeans (text language : String) :
    ofExtension? text = some language ↔
      ∃ extensions, (language, extensions) ∈ table ∧ lower text ∈ extensions := by
  rw [ofExtension?, Option.map_eq_some_iff]
  constructor
  · rintro ⟨⟨_, extensions⟩, found, rfl⟩
    have held := List.find?_some found
    exact ⟨extensions, List.mem_of_find?_eq_some found, by simpa using held⟩
  · rintro ⟨extensions, listed, held⟩
    cases found : table.find? fun row => row.2.contains (lower text) with
    | none =>
      have absent := List.find?_eq_none.mp found _ listed
      simp [held] at absent
    | some row =>
      have other : lower text ∈ row.2 := by simpa using List.find?_some found
      have same := rowsApart _ (List.mem_of_find?_eq_some found) _ listed _ other held
      exact ⟨row, rfl, by rw [same]⟩

theorem lowerForeign {c : Char} (foreign : ¬ (c.toNat < 128 ∨ c = '\u212A')) :
    Text.lowerChar c = c := by
  rw [not_or] at foreign
  have beyond : ¬ (c.val ≥ 'A'.val ∧ c.val ≤ 'Z'.val) := by
    rintro ⟨_, upper⟩
    have small : c.toNat ≤ 90 := UInt32.le_iff_toNat_le.mp upper
    omega
  rw [Text.lowerChar, if_neg foreign.2]
  exact dif_neg beyond

theorem lowerAlike {lowercase : String → String} (unicode : Lowercase lowercase)
    {extension : String} (ascii : ∀ c ∈ extension.toList, c.toNat < 128) (text : String) :
    lowercase text = extension ↔ lower text = extension := by
  by_cases known : ∀ c ∈ text.toList, c.toNat < 128 ∨ c = '\u212A'
  · rw [unicode.plain text known]
  -- neither of the two is a text of ASCII then
  simp only [not_forall, exists_prop] at known
  obtain ⟨c, inside, foreign⟩ := known
  constructor
  · rintro rfl
    obtain ⟨d, held, high⟩ := unicode.foreign text c inside foreign
    exact absurd (ascii d held) (by omega)
  · rintro rfl
    have kept : c ∈ (lower text).toList := by
      rw [lower, String.toList_ofList, ← lowerForeign foreign]
      exact List.mem_map_of_mem inside
    exact absurd (.inl (ascii c kept)) foreign

theorem defaultDetection {lowercase : String → String} (unicode : Lowercase lowercase)
    (path : String) (head : Bytes) :
    (isExcluded (exclusions defaultExclusions) path = true ↔ Excluded path) ∧
    ∀ language, detect (exclusions defaultExclusions) path head = some language ↔
      ¬ Excluded path ∧ 0 ∉ head ∧ ∃ tail, Extension path tail ∧
        ∃ extensions, (language, extensions) ∈ table ∧ lowercase tail ∈ extensions := by
  have excluded := excludedMeans path
  refine ⟨excluded, fun language => ?_⟩
  have named (tail : String) : ofExtension? tail = some language ↔
      ∃ extensions, (language, extensions) ∈ table ∧ lowercase tail ∈ extensions := by
    rw [languageMeans]
    refine exists_congr fun extensions => and_congr_right fun listed => ?_
    constructor
    · intro held
      rwa [(lowerAlike unicode (tablePlain _ listed _ held) tail).mpr rfl]
    · intro held
      rwa [(lowerAlike unicode (tablePlain _ listed _ held) tail).mp rfl]
  unfold detect
  split
  · rename_i out
    exact iff_of_false (by simp) fun ⟨inside, _⟩ => inside (excluded.mp out)
  rename_i inside
  split
  · rename_i zero
    have held : 0 ∈ head := by simpa using zero
    exact iff_of_false (by simp) fun ⟨_, nonzero, _⟩ => nonzero held
  · rename_i nonzero
    have plain : ¬ Excluded path := fun out => inside (excluded.mpr out)
    have text : 0 ∉ head := by simpa using nonzero
    simp only [Option.bind_eq_some_iff, extensionMeans, named, plain, text, not_false_eq_true,
      true_and]

theorem lowerUnicode : Lowercase lower where
  plain _ _ := rfl
  foreign text c inside foreign := by
    refine ⟨c, ?_, by omega⟩
    rw [lower, String.toList_ofList, ← lowerForeign foreign]
    exact List.mem_map_of_mem inside

theorem kelvinDetected :
    Lowercase lower ∧
    isExcluded (exclusions defaultExclusions) "/vendor/" = true ∧
    detect (exclusions defaultExclusions) "xvendor/min.js/a.b.\u212AT" [0x61] = some "kotlin" := by
  have excluded := (defaultDetection lowerUnicode "/vendor/" []).1
  have detected := (defaultDetection lowerUnicode "xvendor/min.js/a.b.\u212AT" [0x61]).2 "kotlin"
  have tail : Extension "xvendor/min.js/a.b.\u212AT" "\u212AT" :=
    ⟨⟨"xvendor/min.js/a.b", rfl⟩, by decide, by decide⟩
  refine ⟨lowerUnicode, excluded.mpr (by decide), detected.mpr ⟨by decide, by decide, _, tail, ?_⟩⟩
  exact ⟨["kt", "kts"], by decide, by decide⟩

end SourceModels.Language
