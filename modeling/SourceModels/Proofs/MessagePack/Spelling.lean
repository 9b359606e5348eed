import SourceModels.Proofs.MessagePack.Headers

/-! The ways to spell a value, and what reading makes of them: the value, when no more arrays, maps
and extensions are open than allowed, and a torn one otherwise. -/
namespace SourceModels.MessagePack

mutual

inductive Spells : Value → Bytes → Prop where
  | nil : Spells .nil [0xC0]
  | bool (b : Bool) : Spells (.bool b) [if b then 0xC3 else 0xC2]
  | small {n : Nat} (bound : n < 128) : Spells (.unsigned n) [UInt8.ofNat n]
  | negative {i : Int} (range : -32 ≤ i ∧ i < 0) :
      Spells (.signed i) [UInt8.ofNat (i + 256).toNat]
  | unsigned {b : UInt8} {width n : Nat} (known : lead b = .unsigned width)
      (bound : n < 256 ^ width) : Spells (.unsigned n) (marked b width n)
  | signed {b : UInt8} {raw : Bytes} (known : lead b = .signed raw.length) :
      Spells (.signed (twosComplement raw)) (b :: raw)
  | float {b : UInt8} {raw : Bytes} (known : lead b = .float raw.length) :
      Spells (.float raw) (b :: raw)
  | text {header raw : Bytes} (announced : Header header .text raw.length) :
      Spells (.text raw) (header ++ raw)
  | binary {header raw : Bytes} (announced : Header header .binary raw.length) :
      Spells (.binary raw) (header ++ raw)
  | array {header bytes : Bytes} {items : List Value}
      (announced : Header header .array items.length) (all : SpellsAll items bytes) :
      Spells (.array items) (header ++ bytes)
  | map {header bytes : Bytes} {count : Nat} {flat : List Value}
      (announced : Header header .map count) (pairs : flat.length = 2 * count)
      (all : SpellsAll flat bytes) : Spells (.map flat) (header ++ bytes)
  | extension {header raw : Bytes} {kind : UInt8}
      (announced : Header header .extension raw.length) :
      Spells (.extension kind raw) (header ++ kind :: raw)

inductive SpellsAll : List Value → Bytes → Prop where
  | nil : SpellsAll [] []
  | cons {v : Value} {rest : List Value} {front back : Bytes} (first : Spells v front)
      (others : SpellsAll rest back) : SpellsAll (v :: rest) (front ++ back)

end

theorem Spells.notTorn {v : Value} {bytes : Bytes} (spelled : Spells v bytes) : v ≠ .torn := by
  cases spelled <;> simp

def itemWithin : (depth : Nat) → Option (Bytes → Value × Bytes)
  | 0 => none
  | depth + 1 => some (readWithin depth)

theorem readWithinItem (depth : Nat) : readWithin depth = readWith (itemWithin depth) := by
  cases depth <;> rfl

theorem itemsNext {item : Bytes → Value × Bytes} {v : Value} {bytes rest : Bytes}
    (read : item bytes = (v, rest)) (whole : v ≠ .torn) (count : Nat) (seen : List Value) :
    readItems item (count + 1) bytes seen = readItems item count rest (v :: seen) := by
  cases v <;> first | contradiction | simp [readItems, read]

mutual

theorem Spells.read {v : Value} {bytes : Bytes} (spelled : Spells v bytes) {depth : Nat}
    (room : v.depth ≤ depth) (tail : Bytes) : readWithin depth (bytes ++ tail) = (v, tail) := by
  rw [readWithinItem]
  cases spelled with
  | nil => rfl
  | bool b => cases b <;> rfl
  | @small n bound =>
    have byte := leadSmall (show n < 256 by omega)
    simp only [List.singleton_append, readWith, lead, byte]
    rw [if_pos bound]
  | @negative i range =>
    have byte := leadSmall (show (i + 256).toNat < 256 by omega)
    simp only [List.singleton_append, readWith, lead, byte]
    rw [if_neg (by omega), if_neg (by omega), if_neg (by omega), if_neg (by omega),
      if_pos (by omega)]
    simp only [Prod.mk.injEq, Value.signed.injEq, and_true]
    omega
  | @unsigned b width n known bound =>
    simp only [marked, List.cons_append, readWith, known,
      rawRead (Bytes.bigEndianLength width n), Bytes.bigEndianReads bound]
  | @signed b raw known => simp only [List.cons_append, readWith, known, rawRead rfl]
  | @float b raw known => simp only [List.cons_append, readWith, known, rawRead rfl]
  | @text header raw announced =>
    rw [List.append_assoc, announced.read]
    simp only [readSized, rawRead rfl]
  | @binary header raw announced =>
    rw [List.append_assoc, announced.read]
    simp only [readSized, rawRead rfl]
  | @array header bytes items announced all =>
    cases depth with
    | zero => simp [Value.depth] at room
    | succ depth =>
      have inner : Value.maxDepth items ≤ depth := by simpa [Value.depth] using room
      rw [List.append_assoc, announced.read]
      simp only [itemWithin, readSized, all.read inner tail [], List.reverse_nil, List.nil_append]
  | @map header bytes count flat announced pairs all =>
    cases depth with
    | zero => simp [Value.depth] at room
    | succ depth =>
      have inner : Value.maxDepth flat ≤ depth := by simpa [Value.depth] using room
      rw [List.append_assoc, announced.read]
      simp only [itemWithin, readSized, ← pairs, all.read inner tail [], List.reverse_nil,
        List.nil_append]
  | @extension header raw kind announced =>
    cases depth with
    | zero => simp [Value.depth] at room
    | succ depth =>
      rw [List.append_assoc, announced.read]
      simp only [itemWithin, readSized, List.cons_append, rawRead rfl]

theorem SpellsAll.read {values : List Value} {bytes : Bytes} (spelled : SpellsAll values bytes)
    {depth : Nat} (room : Value.maxDepth values ≤ depth) (tail : Bytes) (seen : List Value) :
    readItems (readWithin depth) values.length (bytes ++ tail) seen =
      (seen.reverse ++ values, tail) := by
  cases spelled with
  | nil => simp [readItems]
  | @cons v rest front back first others =>
    have rooms : v.depth ≤ depth ∧ Value.maxDepth rest ≤ depth := by
      simpa only [Value.maxDepth, Nat.max_le] using room
    have read := first.read rooms.1 (back ++ tail)
    rw [List.append_assoc, List.length_cons, itemsNext read first.notTorn,
      others.read rooms.2 tail (v :: seen)]
    simp

end

theorem allWholeAll (values : List Value) : Value.allWhole values = values.all Value.isWhole := by
  induction values with
  | nil => rfl
  | cons v rest ih => simp [Value.allWhole, ih]

theorem itemsKeepTorn (item : Bytes → Value × Bytes) (count : Nat) (bytes : Bytes)
    {seen : List Value} (torn : Value.allWhole seen = false) :
    Value.allWhole (readItems item count bytes seen).1 = false := by
  induction count generalizing bytes seen with
  | zero => simpa [readItems, allWholeAll] using torn
  | succ count ih =>
    have kept : ∀ v, Value.allWhole (v :: seen) = false := by
      intro v
      simp [Value.allWhole, torn]
    simp only [readItems]
    split
    · simp [allWholeAll, Value.isWhole]
    · exact ih _ (kept _)

mutual

theorem Spells.tooDeep {v : Value} {bytes : Bytes} (spelled : Spells v bytes) {depth : Nat}
    (deep : depth < v.depth) (tail : Bytes) :
    (readWithin depth (bytes ++ tail)).1.isWhole = false := by
  rw [readWithinItem]
  cases spelled with
  | @array header bytes items announced all =>
    rw [List.append_assoc, announced.read]
    cases depth with
    | zero => rfl
    | succ depth =>
      have inner : depth < Value.maxDepth items := by simpa [Value.depth] using deep
      simpa only [itemWithin, readSized, Value.isWhole] using all.tooDeep inner tail []
  | @map header bytes count flat announced pairs all =>
    rw [List.append_assoc, announced.read]
    cases depth with
    | zero => rfl
    | succ depth =>
      have inner : depth < Value.maxDepth flat := by simpa [Value.depth] using deep
      simpa only [itemWithin, readSized, Value.isWhole, ← pairs] using all.tooDeep inner tail []
  | @extension header raw kind announced =>
    rw [List.append_assoc, announced.read]
    cases depth with
    | zero => rfl
    | succ depth => simp [Value.depth] at deep
  | _ => simp [Value.depth] at deep

theorem SpellsAll.tooDeep {values : List Value} {bytes : Bytes} (spelled : SpellsAll values bytes)
    {depth : Nat} (deep : depth < Value.maxDepth values) (tail : Bytes) (seen : List Value) :
    Value.allWhole (readItems (readWithin depth) values.length (bytes ++ tail) seen).1 =
      false := by
  cases spelled with
  | nil => simp [Value.maxDepth] at deep
  | @cons v rest front back first others =>
    rw [List.append_assoc, List.length_cons]
    by_cases room : v.depth ≤ depth
    · have read := first.read room (back ++ tail)
      have inner : depth < Value.maxDepth rest := by
        simp only [Value.maxDepth] at deep
        omega
      rw [itemsNext read first.notTorn]
      exact others.tooDeep inner tail (v :: seen)
    · have part := first.tooDeep (Nat.lt_of_not_le room) (back ++ tail)
      cases read : readWithin depth (front ++ (back ++ tail)) with
      | mk u left =>
        rw [read] at part
        by_cases torn : u = .torn
        · subst torn
          simp [readItems, read, allWholeAll, Value.isWhole]
        · rw [itemsNext read torn]
          exact itemsKeepTorn _ _ _ (by simp [Value.allWhole, part])

end

end SourceModels.MessagePack
