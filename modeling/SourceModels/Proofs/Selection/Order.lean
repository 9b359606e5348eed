import SourceModels.Proofs.FileSystem.Regular
import SourceModels.Proofs.Utf8
import Mathlib.Data.List.Perm.Basic

/-! The order of a walk: names one by one, each by its bytes. A directory comes right before what
lies in it, so that whole paths are ordered as the tree is walked. -/
namespace SourceModels

theorem Bytes.leMeans (a b : Bytes) : Bytes.le a b = true ↔ a ≤ b := by
  induction a generalizing b with
  | nil => simp [Bytes.le]
  | cons x rest ih =>
    cases b with
    | nil => simp [Bytes.le]
    | cons y more =>
      rw [List.cons_le_cons_iff, ← ih more, Bytes.le]
      split
      · rename_i less
        simp [less]
      · rename_i notLess
        split
        · rename_i greater
          have different : x ≠ y := fun same => absurd (same ▸ greater) (UInt8.lt_irrefl _)
          simp [notLess, different]
        · rename_i notGreater
          have same : x = y := UInt8.le_antisymm (UInt8.not_lt.mp notGreater) (UInt8.not_lt.mp notLess)
          simp [same]

theorem textLeMeans (a b : String) : textLe a b = true ↔ Bytes.ofText a ≤ Bytes.ofText b :=
  Bytes.leMeans _ _

theorem sortedStrictly {α κ : Type} [LT κ] [LE κ] [Std.IsLinearOrder κ] [Std.LawfulOrderLT κ]
    {items : List α} {key : α → κ} {le : α → α → Bool}
    (means : ∀ a b, le a b = true ↔ key a ≤ key b) (once : (items.map key).Nodup) :
    (items.mergeSort le).Pairwise fun a b => key a < key b := by
  have sorted := @List.pairwise_mergeSort _ le
    (fun a b c first second =>
      (means a c).mpr (Std.le_trans ((means a b).mp first) ((means b c).mp second)))
    (fun a b => by simpa [means] using Std.le_total) items
  have different : (items.mergeSort le).Pairwise fun a b => key a ≠ key b :=
    List.pairwise_map.mp (((List.mergeSort_perm items le).map key).nodup_iff.mpr once)
  exact (sorted.and different).imp fun ⟨first, other⟩ =>
    Std.lt_of_le_of_ne ((means _ _).mp first) other

theorem FileSystem.Regular.listedInOrder {fs : FileSystem} (regular : Regular fs)
    (directory : Location) : (fs.sortedChildren directory).Pairwise
      fun a b => Bytes.ofText a.1 < Bytes.ofText b.1 := by
  refine sortedStrictly (fun a b => textLeMeans a.1 b.1) ?_
  have once := regular.childrenOnce directory
  rw [List.Nodup, List.pairwise_map] at once ⊢
  exact once.imp fun other same => other (Bytes.ofTextInjective same)

theorem FileSystem.Regular.listed {fs : FileSystem} (regular : Regular fs) {directory : Location}
    {name : String} {content : Content} :
    (name, content) ∈ fs.sortedChildren directory ↔ fs.content? (name :: directory) = some content :=
  (List.mergeSort_perm _ _).mem_iff.trans regular.child

def Ahead (a b : List String) : Prop := a.map Bytes.ofText < b.map Bytes.ofText

def notBehind (a b : List String) : Bool := decide (a.map Bytes.ofText ≤ b.map Bytes.ofText)

theorem Ahead.different {a b : List String} (ahead : Ahead a b) : a ≠ b := by
  rintro rfl
  exact List.lt_irrefl _ ahead

theorem Ahead.below {first second : String} (ahead : Bytes.ofText first < Bytes.ofText second)
    (way rest more : List String) : Ahead (way ++ first :: rest) (way ++ second :: more) := by
  simp only [Ahead, List.map_append, List.map_cons]
  exact List.append_left_lt (List.cons_lt_cons_iff.mpr (.inl ahead))

theorem Ahead.deeper (way : List String) (name : String) (more : List String) :
    Ahead way (way ++ name :: more) := by
  have longer : way.map Bytes.ofText ++ [] < way.map Bytes.ofText ++ _ :=
    List.append_left_lt (List.nil_lt_cons (Bytes.ofText name) (more.map Bytes.ofText))
  simpa [Ahead] using longer

section
variable {α : Type} {way : α → List String} {items others : List α}

theorem sortedAhead (once : (items.map way).Nodup) :
    (items.mergeSort fun a b => notBehind (way a) (way b)).Pairwise
      fun a b => Ahead (way a) (way b) := by
  refine sortedStrictly (fun a b => decide_eq_true_iff) ?_
  rw [List.Nodup, List.pairwise_map] at once ⊢
  exact once.imp fun other same =>
    other (List.map_injective_iff.mpr (fun _ _ => Bytes.ofTextInjective) same)

theorem orderedOnce (ordered : items.Pairwise fun a b => Ahead (way a) (way b))
    (ordered' : others.Pairwise fun a b => Ahead (way a) (way b))
    (same : ∀ a, a ∈ items ↔ a ∈ others) : items = others := by
  have distinct : ∀ {listed : List α}, (listed.Pairwise fun a b => Ahead (way a) (way b)) →
      listed.Nodup :=
    fun ordered => ordered.imp fun ahead alike => ahead.different (congrArg way alike)
  refine List.Perm.eq_of_pairwise ?_ ordered ordered'
    ((List.perm_ext_iff_of_nodup (distinct ordered) (distinct ordered')).mpr same)
  intro a b _ _ ahead behind
  exact absurd behind (List.lt_asymm ahead)

end

end SourceModels
