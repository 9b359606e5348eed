import SourceModels.MessagePack.Reader
import SourceModels.MessagePack.Writer

/-! Lengths and counts are announced in 32 bits, so that nothing read from bytes is longer. -/
namespace SourceModels

theorem Bytes.bigEndianBound (raw : Bytes) (start : Nat) :
    raw.foldl (fun n b => n * 256 + b.toNat) start < (start + 1) * 256 ^ raw.length := by
  induction raw generalizing start with
  | nil => simp
  | cons b rest ih =>
    have byte := b.toNat_lt
    have later := ih (start * 256 + b.toNat)
    have step : (start * 256 + b.toNat + 1) * 256 ^ rest.length ≤
        (start + 1) * 256 * 256 ^ rest.length :=
      Nat.mul_le_mul_right _ (by omega)
    rw [List.foldl_cons, List.length_cons, Nat.pow_succ, Nat.mul_comm (256 ^ rest.length),
      ← Nat.mul_assoc]
    omega

theorem Bytes.splitLength {n : Nat} {bytes front rest : Bytes}
    (split : split? n bytes = some (front, rest)) : front.length = n := by
  simp only [split?] at split
  split at split
  · cases split
    assumption
  · contradiction

namespace MessagePack

namespace Value

mutual

def Counted : Value → Prop
  | .text raw => raw.length < lengthBound
  | .binary raw => raw.length < lengthBound
  | .array items => items.length < lengthBound ∧ AllCounted items
  | .map flat => AllCounted flat
  | _ => True

def AllCounted : List Value → Prop
  | [] => True
  | v :: rest => Counted v ∧ AllCounted rest

end

theorem allCountedAll (values : List Value) : AllCounted values ↔ ∀ v ∈ values, v.Counted := by
  induction values with
  | nil => simp [AllCounted]
  | cons v rest ih => simp [AllCounted, ih]

end Value

def Lead.Counted : Lead → Prop
  | .whole v => v.Counted
  | .sized _ size => size < lengthBound
  | .counted _ width => width ≤ 4
  | _ => True

theorem leadCounted (b : UInt8) : (lead b).Counted := by
  unfold lead
  simp only
  split
  · trivial
  split
  · simp only [Lead.Counted, lengthBound]
    omega
  split
  · simp only [Lead.Counted, lengthBound]
    omega
  split
  · simp only [Lead.Counted, lengthBound]
    omega
  split
  · trivial
  · split <;> simp [Lead.Counted, Value.Counted, lengthBound]

theorem rawCounted {n : Nat} {make : Bytes → Value}
    (small : ∀ raw : Bytes, raw.length = n → (make raw).Counted) (bytes : Bytes) :
    (readRaw n make bytes).1.Counted := by
  unfold readRaw
  split
  · rename_i raw rest split
    exact small raw (Bytes.splitLength split)
  · trivial

theorem itemsCounted {item : Bytes → Value × Bytes} (each : ∀ bytes, (item bytes).1.Counted)
    (count : Nat) (bytes : Bytes) (seen : List Value) (before : Value.AllCounted seen) :
    Value.AllCounted (readItems item count bytes seen).1 ∧
      (readItems item count bytes seen).1.length ≤ seen.length + count := by
  induction count generalizing bytes seen with
  | zero => simpa [readItems, Value.allCountedAll] using before
  | succ count ih =>
    have next := each bytes
    simp only [readItems]
    split
    · refine ⟨?_, by simp⟩
      simp only [Value.allCountedAll, List.mem_reverse, List.mem_cons, forall_eq_or_imp] at before ⊢
      exact ⟨trivial, before⟩
    · rename_i v rest _ read
      rw [read] at next
      obtain ⟨counted, few⟩ := ih rest (v :: seen) ⟨next, before⟩
      refine ⟨counted, ?_⟩
      rw [List.length_cons] at few
      omega

theorem sizedCounted {item : Option (Bytes → Value × Bytes)}
    (each : ∀ read, item = some read → ∀ bytes, (read bytes).1.Counted) (kind : Kind) {size : Nat}
    (small : size < lengthBound) (bytes : Bytes) : (readSized item kind size bytes).1.Counted := by
  unfold readSized
  split
  · exact rawCounted (fun raw length => by simpa [Value.Counted, length] using small) bytes
  · exact rawCounted (fun raw length => by simpa [Value.Counted, length] using small) bytes
  · trivial
  · rename_i read
    obtain ⟨counted, few⟩ :=
      itemsCounted (each read rfl) size bytes [] trivial
    rw [List.length_nil, Nat.zero_add] at few
    exact ⟨Nat.lt_of_le_of_lt few small, counted⟩
  · rename_i read
    exact (itemsCounted (each read rfl) (2 * size) bytes [] trivial).1
  · split
    · trivial
    · exact rawCounted (by simp [Value.Counted]) _

theorem readCounted {item : Option (Bytes → Value × Bytes)}
    (each : ∀ read, item = some read → ∀ bytes, (read bytes).1.Counted) (bytes : Bytes) :
    (readWith item bytes).1.Counted := by
  unfold readWith
  split
  · trivial
  rename_i b rest
  have announced := leadCounted b
  split <;> rename_i known <;> rw [known] at announced
  · exact announced
  · exact rawCounted (by simp [Value.Counted]) _
  · exact rawCounted (by simp [Value.Counted]) _
  · exact rawCounted (by simp [Value.Counted]) _
  · exact sizedCounted each _ announced _
  · split
    · rename_i kind width raw rest split
      have bound := Bytes.bigEndianBound raw 0
      have few : 256 ^ raw.length ≤ 256 ^ 4 :=
        Nat.pow_le_pow_right (by decide) (Bytes.splitLength split ▸ announced)
      refine sizedCounted each _ ?_ _
      simp only [Bytes.ofBigEndian, lengthBound]
      omega
    · trivial
  · trivial

theorem readWithinCounted (depth : Nat) (bytes : Bytes) : (readWithin depth bytes).1.Counted := by
  induction depth generalizing bytes with
  | zero => exact readCounted (by simp) bytes
  | succ depth ih =>
    refine readCounted ?_ bytes
    intro read same
    cases same
    exact ih

end MessagePack

end SourceModels
