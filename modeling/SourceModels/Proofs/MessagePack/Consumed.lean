import SourceModels.Proofs.MessagePack.Parts
import SourceModels.Proofs.MessagePack.Sizes

/-! What a read takes from the front of its bytes: a whole value is read from bytes that spell it, so
that bytes behind them change nothing and no part of them is enough. -/
namespace SourceModels.Bytes

theorem splitParts {n : Nat} {bytes front rest : Bytes} (split : split? n bytes = some (front, rest)) :
    bytes = front ++ rest ∧ front.length = n := by
  refine ⟨?_, splitLength split⟩
  simp only [split?] at split
  split at split
  · cases split
    exact (List.take_append_drop n bytes).symm
  · cases split

theorem ofBigEndianBound (raw : Bytes) : ofBigEndian raw < 256 ^ raw.length := by
  simpa [ofBigEndian] using bigEndianBound raw 0

theorem bigEndianFrom (raw : Bytes) (start : Nat) :
    raw.foldl (fun n b => n * 256 + b.toNat) start =
      start * 256 ^ raw.length + ofBigEndian raw := by
  induction raw generalizing start with
  | nil => simp [ofBigEndian]
  | cons b rest ih =>
    have again := ih (0 * 256 + b.toNat)
    rw [ofBigEndian, List.foldl_cons, List.foldl_cons, ih, again, List.length_cons, Nat.pow_succ,
      Nat.mul_comm (256 ^ rest.length), ← Nat.mul_assoc, Nat.add_mul, Nat.zero_mul, Nat.zero_add,
      Nat.add_assoc]

theorem bigEndianRest (raw : Bytes) (start : Nat) :
    bigEndian raw.length (start * 256 ^ raw.length + ofBigEndian raw) = raw := by
  induction raw generalizing start with
  | nil => rfl
  | cons b rest ih =>
    have low := ofBigEndianBound rest
    have parts : start * 256 ^ (b :: rest).length + ofBigEndian (b :: rest) =
        (start * 256 + b.toNat) * 256 ^ rest.length + ofBigEndian rest := by
      rw [← bigEndianFrom, List.foldl_cons, bigEndianFrom]
    have high : ((start * 256 + b.toNat) * 256 ^ rest.length + ofBigEndian rest) /
        256 ^ rest.length = start * 256 + b.toNat := by
      rw [Nat.mul_comm, Nat.mul_add_div (Nat.pow_pos (by decide)), Nat.div_eq_of_lt low,
        Nat.add_zero]
    have byte : UInt8.ofNat (start * 256 + b.toNat) = b := by
      apply UInt8.toNat_inj.mp
      have bound := b.toNat_lt
      rw [UInt8.toNat_ofNat']
      omega
    rw [parts, List.length_cons, bigEndian, high, byte, ih]

theorem bigEndianWritten (raw : Bytes) : bigEndian raw.length (ofBigEndian raw) = raw := by
  simpa using bigEndianRest raw 0

end SourceModels.Bytes

namespace SourceModels.MessagePack

theorem leadWhole {b : UInt8} {v : Value} (known : lead b = .whole v) :
    Spells v [b] ∧ v.depth = 0 := by
  have byte : UInt8.ofNat b.toNat = b := UInt8.ofNat_toNat
  have bound := b.toNat_lt
  simp only [lead] at known
  split at known
  · rename_i small
    cases known
    have spelled := Spells.small small
    rw [byte] at spelled
    exact ⟨spelled, rfl⟩
  split at known
  · cases known
  split at known
  · cases known
  split at known
  · cases known
  split at known
  · rename_i large
    cases known
    have spelled := Spells.negative (i := b.toNat - 256) (by omega)
    have same : ((b.toNat : Int) - 256 + 256).toNat = b.toNat := by omega
    rw [same, byte] at spelled
    exact ⟨spelled, rfl⟩
  split at known
  case h_1 nil =>
    cases known
    rw [nil] at byte
    exact ⟨byte ▸ .nil, rfl⟩
  case h_2 no =>
    cases known
    rw [no] at byte
    exact ⟨byte ▸ .bool false, rfl⟩
  case h_3 yes =>
    cases known
    rw [yes] at byte
    exact ⟨byte ▸ .bool true, rfl⟩
  all_goals cases known

def Taken (depth : Nat) (v : Value) (bytes rest : Bytes) : Prop :=
  ∃ used, bytes = used ++ rest ∧ Spells v used ∧ v.depth ≤ depth

def Takes (depth : Nat) (item : Bytes → Value × Bytes) : Prop :=
  ∀ bytes v rest, item bytes = (v, rest) → v.isWhole = true → Taken depth v bytes rest

theorem rawTaken {n : Nat} {make : Bytes → Value} {bytes rest : Bytes} {v : Value}
    (read : readRaw n make bytes = (v, rest)) (whole : v.isWhole = true) :
    ∃ raw, bytes = raw ++ rest ∧ raw.length = n ∧ v = make raw := by
  unfold readRaw at read
  split at read
  · rename_i raw left split
    obtain ⟨parts, size⟩ := Bytes.splitParts split
    cases read
    exact ⟨raw, parts, size, rfl⟩
  · cases read
    cases whole

theorem itemsTaken {depth : Nat} {item : Bytes → Value × Bytes} (takes : Takes depth item)
    {count : Nat} {bytes rest : Bytes} {seen values : List Value}
    (read : readItems item count bytes seen = (values, rest))
    (whole : Value.allWhole values = true) :
    ∃ items used, values = seen.reverse ++ items ∧ items.length = count ∧ bytes = used ++ rest ∧
      SpellsAll items used ∧ Value.maxDepth items ≤ depth := by
  induction count generalizing bytes seen with
  | zero =>
    cases read
    exact ⟨[], [], by simp, rfl, rfl, .nil, Nat.zero_le depth⟩
  | succ count ih =>
    cases first : item bytes with
    | mk v left =>
      by_cases torn : v = .torn
      · simp only [readItems, first, torn, Prod.mk.injEq] at read
        rw [← read.1] at whole
        simp [allWholeAll, Value.isWhole] at whole
      · rw [itemsNext first torn] at read
        obtain ⟨items, used, same, count, parts, spelled, shallow⟩ := ih read
        have member : v ∈ values := by simp [same]
        have sound : v.isWhole = true := by
          rw [allWholeAll, List.all_eq_true] at whole
          exact whole v member
        obtain ⟨front, taken, spelledFirst, low⟩ := takes bytes v left first sound
        refine ⟨v :: items, front ++ used, by simp [same], by simp [count], ?_,
          .cons spelledFirst spelled, ?_⟩
        · rw [taken, parts, List.append_assoc]
        · simpa only [Value.maxDepth, Nat.max_le] using ⟨low, shallow⟩

theorem listTaken {depth : Nat} {item : Bytes → Value × Bytes} (takes : Takes depth item)
    {count : Nat} {bytes rest : Bytes} {items : List Value}
    (read : readItems item count bytes [] = (items, rest)) (whole : Value.allWhole items = true) :
    items.length = count ∧
      ∃ used, bytes = used ++ rest ∧ SpellsAll items used ∧ Value.maxDepth items ≤ depth := by
  obtain ⟨_, used, same, count, sized⟩ := itemsTaken takes read whole
  simp only [List.reverse_nil, List.nil_append] at same
  subst same
  exact ⟨count, used, sized⟩

theorem itemKnown {depth : Nat} {item : Bytes → Value × Bytes}
    (found : itemWithin depth = some item) :
    ∃ inner, depth = inner + 1 ∧ item = readWithin inner := by
  cases depth with
  | zero => cases found
  | succ inner => exact ⟨inner, rfl, (Option.some.inj found).symm⟩

theorem sizedTaken {depth : Nat}
    (takes : ∀ inner < depth, Takes inner (readWithin inner))
    {kind : Kind} {size : Nat} {header bytes rest : Bytes} {v : Value}
    (announced : Header header kind size)
    (read : readSized (itemWithin depth) kind size bytes = (v, rest)) (whole : v.isWhole = true) :
    Taken depth v (header ++ bytes) rest := by
  unfold readSized at read
  split at read
  · obtain ⟨raw, rfl, rfl, rfl⟩ := rawTaken read whole
    exact ⟨header ++ raw, by simp, .text announced, Nat.zero_le depth⟩
  · obtain ⟨raw, rfl, rfl, rfl⟩ := rawTaken read whole
    exact ⟨header ++ raw, by simp, .binary announced, Nat.zero_le depth⟩
  · cases read
    cases whole
  · rename_i item found
    obtain ⟨inner, rfl, rfl⟩ := itemKnown found
    cases all : readItems (readWithin inner) size bytes [] with
    | mk items left =>
      simp only [all, Prod.mk.injEq] at read
      obtain ⟨rfl, rfl⟩ := read
      obtain ⟨rfl, used, parts, spelled, shallow⟩ :=
        listTaken (takes inner inner.lt_succ_self) all (by simpa [Value.isWhole] using whole)
      exact ⟨header ++ used, by simp [parts], .array announced spelled,
        by simpa [Value.depth] using shallow⟩
  · rename_i item found
    obtain ⟨inner, rfl, rfl⟩ := itemKnown found
    cases all : readItems (readWithin inner) (2 * size) bytes [] with
    | mk flat left =>
      simp only [all, Prod.mk.injEq] at read
      obtain ⟨rfl, rfl⟩ := read
      obtain ⟨count, used, parts, spelled, shallow⟩ :=
        listTaken (takes inner inner.lt_succ_self) all (by simpa [Value.isWhole] using whole)
      exact ⟨header ++ used, by simp [parts], .map announced count spelled,
        by simpa [Value.depth] using shallow⟩
  · rename_i item found
    obtain ⟨inner, rfl, rfl⟩ := itemKnown found
    split at read
    · cases read
      cases whole
    · rename_i kind left
      obtain ⟨raw, rfl, rfl, rfl⟩ := rawTaken read whole
      exact ⟨header ++ kind :: raw, by simp, .extension announced, by simp [Value.depth]⟩

theorem withTaken {depth : Nat}
    (takes : ∀ inner < depth, Takes inner (readWithin inner)) :
    Takes depth (readWith (itemWithin depth)) := by
  intro bytes v rest read whole
  unfold readWith at read
  split at read
  · cases read
    cases whole
  rename_i b left
  split at read
  · rename_i known
    cases read
    obtain ⟨spelled, flat⟩ := leadWhole known
    exact ⟨[b], rfl, spelled, by omega⟩
  · rename_i width known
    obtain ⟨raw, rfl, rfl, rfl⟩ := rawTaken read whole
    have spelled := Spells.unsigned known (Bytes.ofBigEndianBound raw)
    rw [marked, Bytes.bigEndianWritten] at spelled
    exact ⟨b :: raw, rfl, spelled, Nat.zero_le depth⟩
  · rename_i width known
    obtain ⟨raw, rfl, rfl, rfl⟩ := rawTaken read whole
    exact ⟨b :: raw, rfl, .signed known, Nat.zero_le depth⟩
  · rename_i width known
    obtain ⟨raw, rfl, rfl, rfl⟩ := rawTaken read whole
    exact ⟨b :: raw, rfl, .float known, Nat.zero_le depth⟩
  · rename_i kind size known
    exact sizedTaken takes (.sized known) read whole
  · rename_i kind width counts
    split at read
    · rename_i raw left split
      obtain ⟨rfl, rfl⟩ := Bytes.splitParts split
      have announced := Header.counted counts (Bytes.ofBigEndianBound raw)
      rw [marked, Bytes.bigEndianWritten] at announced
      exact sizedTaken takes announced read whole
    · cases read
      cases whole
  · cases read
    cases whole

theorem withinTakes (depth : Nat) : Takes depth (readWithin depth) := by
  induction depth using Nat.strongRecOn with
  | ind depth ih =>
    rw [readWithinItem]
    exact withTaken ih

theorem extendedRead {bytes : Bytes} (whole : (read bytes).isWhole = true) (more : Bytes) :
    read (bytes ++ more) = read bytes := by
  cases found : readWithin maxOpen bytes with
  | mk v rest =>
    have same : read bytes = v := by rw [read, found]
    rw [same] at whole ⊢
    obtain ⟨used, rfl, spelled, room⟩ := withinTakes maxOpen bytes v rest found whole
    rw [read, List.append_assoc, spelled.read room]

theorem cutTorn {v : Value} (fits : v.Fits) (room : v.depth ≤ maxOpen) {front back : Bytes}
    (cut : v.write = front ++ back) (more : back ≠ []) : (read front).isWhole = false := by
  apply Bool.eq_false_iff.mpr
  intro whole
  cases found : readWithin maxOpen front with
  | mk u rest =>
    rw [read, found] at whole
    obtain ⟨used, rfl, spelled, low⟩ := withinTakes maxOpen front u rest found whole
    -- it would be all that is read from the whole bytes too, and so leave nothing behind it
    have all := fits.spelled.read room []
    rw [List.append_nil, cut, List.append_assoc, spelled.read low, Prod.mk.injEq] at all
    simp [more] at all

end SourceModels.MessagePack
