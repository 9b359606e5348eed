import SourceModels.Proofs.MessagePack.Written
import SourceModels.Proofs.Utf8

/-! The values that texts and words are kept in, and the keys of records. -/
namespace SourceModels.MessagePack.Value

def TextFits (text : String) : Prop := (Bytes.ofText text).length < lengthBound

instance (text : String) : Decidable (TextFits text) := inferInstanceAs (Decidable (_ < _))

def TextsFit (texts : List String) : Prop :=
  texts.length < lengthBound ∧ ∀ text ∈ texts, TextFits text

theorem allFitAppend (front back : List Value) :
    AllFit (front ++ back) ↔ AllFit front ∧ AllFit back := by
  simp only [allFitAll, List.forall_mem_append]

theorem textFits {text : String} (fits : TextFits text) : (ofText text).Fits := fits

theorem textsFit {texts : List String} (fits : TextsFit texts) : (ofTexts texts).Fits := by
  simp only [ofTexts, Fits, List.length_map, allFitAll, List.mem_map, forall_exists_index,
    and_imp, forall_apply_eq_imp_iff₂]
  exact ⟨fits.1, fun text inside => textFits (fits.2 text inside)⟩

theorem wordFits (n : UInt32) : (ofWord n).Fits := by
  have bound := n.toNat_lt
  simp only [ofWord, Fits]
  omega

theorem wordsFit {words : List UInt32} (count : words.length < lengthBound) :
    (array (words.map ofWord)).Fits := by
  simp only [Fits, List.length_map, allFitAll, List.mem_map, forall_exists_index, and_imp,
    forall_apply_eq_imp_iff₂]
  exact ⟨count, fun n _ => wordFits n⟩

theorem recordFits {flat : List Value} (even : flat.length % 2 = 0)
    (few : flat.length / 2 < lengthBound) (all : AllFit flat) : (map flat).Fits :=
  ⟨even, few, all⟩

theorem mapAllSome {α β : Type} {write : α → β} {read : β → Option α}
    (each : ∀ a, read (write a) = some a) (items : List α) :
    (items.map write).mapM read = some items := by
  induction items with
  | nil => rfl
  | cons a rest ih => simp [each, ih]

@[simp]
theorem textRead (text : String) : (ofText text).text? = some text := Utf8.decodeText text

@[simp]
theorem textsRead (texts : List String) : (ofTexts texts).texts? = some texts :=
  mapAllSome textRead texts

@[simp]
theorem wordRead (n : UInt32) : (ofWord n).word? = some n := by
  have bound := n.toNat_lt
  simp [ofWord, word?, natural?, bound]

@[simp]
theorem wordsRead (words : List UInt32) : (array (words.map ofWord)).words? = some words :=
  mapAllSome wordRead words

theorem keyText (names : List String) (name : String) : key names (.ofText name) =
    match names.findIdx? (· = name) with
    | some i => .field i
    | none => .other := by
  have same : (fun other => decide (Bytes.ofText other = Bytes.ofText name)) =
      fun other => decide (other = name) := by
    funext other
    exact decide_eq_decide.mpr ⟨Bytes.ofTextInjective, congrArg _⟩
  cases known : names.findIdx? (· = name) <;> simp only [ofText, key, key.named, same, known]

theorem keyRead {names : List String} {name : String} {index : Nat}
    (known : names.findIdx? (· = name) = some index) :
    key names (ofText name) = .field index := by
  rw [keyText, known]

theorem depthText (text : String) : (ofText text).depth = 0 := rfl

theorem depthWord (n : UInt32) : (ofWord n).depth = 0 := rfl

theorem maxDepthAppend (front back : List Value) :
    maxDepth (front ++ back) = max (maxDepth front) (maxDepth back) := by
  induction front with
  | nil => simp [maxDepth]
  | cons v rest ih => simp [maxDepth, ih, Nat.max_assoc]

theorem maxDepthFlat {values : List Value} (flat : ∀ v ∈ values, v.depth = 0) :
    maxDepth values = 0 := by
  induction values with
  | nil => rfl
  | cons v rest ih =>
    have later := ih fun u inside => flat u (List.mem_cons_of_mem _ inside)
    simp [maxDepth, flat v List.mem_cons_self, later]

theorem depthTexts (texts : List String) : (ofTexts texts).depth = 1 := by
  have flat : maxDepth (texts.map ofText) = 0 := maxDepthFlat (by simp [depthText])
  simp [ofTexts, depth, flat]

end SourceModels.MessagePack.Value
