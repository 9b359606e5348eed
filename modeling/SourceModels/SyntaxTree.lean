import SourceModels.Bytes

/-! Universal syntax trees: nodes of any language with a type, a token, annotations and children. -/
namespace SourceModels

structure Position where
  offset : UInt32
  line : UInt32
  column : UInt32
  deriving DecidableEq, Repr

structure Properties where
  entries : List (String × String)
  ascending : entries.Pairwise (fun a b => a.1 < b.1)
  deriving DecidableEq, Repr

namespace Properties

def empty : Properties := ⟨[], .nil⟩

def insertEntry (key value : String) : List (String × String) → List (String × String)
  | [] => [(key, value)]
  | (k, v) :: rest =>
    if key < k then (key, value) :: (k, v) :: rest
    else if k < key then (k, v) :: insertEntry key value rest
    else (key, value) :: rest

theorem insertedEntry {key value : String} {entries : List (String × String)}
    {e : String × String} (h : e ∈ insertEntry key value entries) :
    e = (key, value) ∨ e ∈ entries := by
  induction entries with
  | nil => simp [insertEntry] at h; simp [h]
  | cons first rest ih =>
    obtain ⟨k, v⟩ := first
    simp only [insertEntry] at h
    split at h
    · rcases List.mem_cons.mp h with rfl | inside
      · exact .inl rfl
      · exact .inr inside
    · split at h
      · rcases List.mem_cons.mp h with rfl | inside
        · exact .inr (List.mem_cons_self ..)
        · rcases ih inside with same | old
          · exact .inl same
          · exact .inr (List.mem_cons_of_mem _ old)
      · rcases List.mem_cons.mp h with rfl | inside
        · exact .inl rfl
        · exact .inr (List.mem_cons_of_mem _ inside)

theorem insertEntryAscending {key value : String} {entries : List (String × String)}
    (h : entries.Pairwise (fun a b => a.1 < b.1)) :
    (insertEntry key value entries).Pairwise (fun a b => a.1 < b.1) := by
  induction entries with
  | nil => simp [insertEntry]
  | cons first rest ih =>
    obtain ⟨k, v⟩ := first
    obtain ⟨above, tail⟩ := List.pairwise_cons.mp h
    simp only [insertEntry]
    split
    next less =>
      refine List.pairwise_cons.mpr ⟨fun e he => ?_, h⟩
      rcases List.mem_cons.mp he with rfl | inside
      · exact less
      · exact String.lt_trans less (above e inside)
    next notLess =>
      split
      next greater =>
        refine List.pairwise_cons.mpr ⟨fun e he => ?_, ih tail⟩
        rcases insertedEntry he with rfl | old
        · exact greater
        · exact above e old
      next notGreater =>
        have same : key = k := String.le_antisymm notGreater notLess
        subst same
        exact List.pairwise_cons.mpr ⟨fun e he => above e he, tail⟩

def insert (properties : Properties) (key value : String) : Properties :=
  ⟨insertEntry key value properties.entries, insertEntryAscending properties.ascending⟩

def ofList (entries : List (String × String)) : Properties :=
  entries.foldl (fun properties e => properties.insert e.1 e.2) empty

end Properties

structure Node where
  internalType : String
  token : String := ""
  roles : List String := []
  properties : Properties := .empty
  start : Option Position := none
  stop : Option Position := none
  deriving DecidableEq, Repr

inductive SyntaxTree where
  | branch (node : Node) (children : List SyntaxTree)
  deriving Repr

namespace SyntaxTree

def node : SyntaxTree → Node
  | .branch node _ => node

def children : SyntaxTree → List SyntaxTree
  | .branch _ children => children

def leaf (internalType : String) : SyntaxTree := .branch { internalType } []

instance : Inhabited SyntaxTree := ⟨leaf ""⟩

mutual

def count : SyntaxTree → Nat
  | .branch _ children => countAll children + 1

def countAll : List SyntaxTree → Nat
  | [] => 0
  | t :: rest => count t + countAll rest

end

mutual

def levels : SyntaxTree → Nat
  | .branch _ children => maxLevels children + 1

def maxLevels : List SyntaxTree → Nat
  | [] => 0
  | t :: rest => max (levels t) (maxLevels rest)

end

mutual

def decideEq : (a b : SyntaxTree) → Decidable (a = b)
  | .branch m xs, .branch n ys =>
    match decEq m n, decideEqAll xs ys with
    | isTrue hm, isTrue hx => isTrue (by rw [hm, hx])
    | isFalse hm, _ => isFalse (by intro h; injection h; contradiction)
    | _, isFalse hx => isFalse (by intro h; injection h; contradiction)

def decideEqAll : (xs ys : List SyntaxTree) → Decidable (xs = ys)
  | [], [] => isTrue rfl
  | [], _ :: _ => isFalse (by simp)
  | _ :: _, [] => isFalse (by simp)
  | x :: xs, y :: ys =>
    match decideEq x y, decideEqAll xs ys with
    | isTrue hx, isTrue hr => isTrue (by rw [hx, hr])
    | isFalse hx, _ => isFalse (by intro h; injection h; contradiction)
    | _, isFalse hr => isFalse (by intro h; injection h; contradiction)

end

instance : DecidableEq SyntaxTree := decideEq

end SyntaxTree

end SourceModels
