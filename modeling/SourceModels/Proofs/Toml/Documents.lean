import SourceModels.Proofs.Toml.Values

/-! Documents of tables with plain keys, read back line by line. -/
namespace SourceModels.Toml

structure Pair where
  key : String
  value : List Char
  item : Item

structure Table where
  name : String
  pairs : List Pair

namespace Table

def chars (table : Table) : List Char :=
  headerLine table.name ++ table.pairs.flatMap fun pair => pairLine pair.key pair.value

def fields (table : Table) : Entries := table.pairs.map fun pair => (pair.key, pair.item)

def entry (table : Table) : String × Item := (table.name, .table {} table.fields)

end Table

def BareKey (key : String) : Prop := key.toList ≠ [] ∧ ∀ c ∈ key.toList, isBare c = true

instance (key : String) : Decidable (BareKey key) :=
  decidable_of_iff (key.toList.isEmpty = false ∧ key.toList.all isBare = true)
    (and_congr List.isEmpty_eq_false_iff List.all_eq_true)

structure Table.Ready (table : Table) : Prop where
  name : BareKey table.name
  keys : ∀ key ∈ table.pairs.map Pair.key, BareKey key
  distinct : (table.pairs.map Pair.key).Nodup
  values : ∀ pair ∈ table.pairs, Written pair.value pair.item

theorem bareOther {c d : Char} (bare : isBare c = true) (other : isBare d = false) : c ≠ d := by
  rintro rfl
  rw [bare] at other
  contradiction

theorem bareSolid {c : Char} (bare : isBare c = true) : Solid c where
  blank := by
    have space := @bareOther c ' ' bare (by decide)
    have tab := @bareOther c '\t' bare (by decide)
    simp [isBlankChar, space, tab]
  comment := bareOther bare (by decide)
  newline := newlineNone ⟨bareOther bare (by decide), bareOther bare (by decide)⟩

section
variable {key : String} {c : Char} {left more : List Char}

theorem BareKey.first (bare : BareKey key) :
    ∃ c more, key.toList = c :: more ∧ isBare c = true := by
  obtain ⟨c, more, same⟩ := List.exists_cons_of_ne_nil bare.1
  exact ⟨c, more, same, bare.2 c (by rw [same]; exact List.mem_cons_self)⟩

theorem simpleKeyRead (bare : BareKey key) (stops : isBare c = false) :
    simpleKey? (key.toList ++ c :: left) = some (key, c :: left) := by
  have taken : (key.toList ++ c :: left).takeWhile isBare = key.toList := by
    rw [List.takeWhile_append_of_pos bare.2, List.takeWhile_cons_of_neg (by simp [stops]),
      List.append_nil]
  obtain ⟨d, others, same, first⟩ := bare.first
  unfold simpleKey?
  split
  · rename_i other
    rw [same] at other
    exact absurd (List.cons.inj other).1 (bareOther first (by decide))
  · rename_i other
    rw [same] at other
    exact absurd (List.cons.inj other).1 (bareOther first (by decide))
  · simp only [taken, if_neg bare.1, String.ofList_toList, List.drop_left]

theorem keyRead (bare : BareKey key) {d : Char} (stops : isBare c = false)
    (next : skipBlanks (c :: left) = d :: more) (alone : d ≠ '.') :
    key? maxDepth (key.toList ++ c :: left) = some ([key], d :: more) := by
  have read := @simpleKeyRead _ _ left bare stops
  obtain ⟨e, others, same, first⟩ := bare.first
  have skipped : skipBlanks (key.toList ++ c :: left) = key.toList ++ c :: left := by
    rw [same]
    exact skipSolid (bareSolid first) _
  change key? (78 + 1) _ = _
  rw [key?, skipped, read]
  simp only [next, Option.bind_eq_bind, Option.bind_some]
  split
  · rename_i dotted
    exact absurd (List.cons.inj dotted).1 alone
  · rfl

end

def Reads (document : Document) (chars : List Char) (last : Document) : Prop :=
  ∀ fuel, chars.length < fuel → lines? fuel document chars = some last

section
variable {document next last : Document} {rest : List Char}

theorem readsNone : Reads document [] document := by
  intro fuel enough
  obtain ⟨fuel, rfl⟩ := Nat.exists_eq_succ_of_ne_zero (Nat.ne_zero_of_lt enough)
  rfl

theorem readsBlank (more : Reads document rest last) : Reads document ('\n' :: rest) last := by
  intro fuel enough
  obtain ⟨fuel, rfl⟩ := Nat.exists_eq_succ_of_ne_zero (Nat.ne_zero_of_lt enough)
  exact more fuel (Nat.lt_of_succ_lt_succ enough)

theorem lineEnded : lineEnd? ('\n' :: rest) = some rest := rfl

theorem lineGoesOn {c : Char} (solid : Solid c) (left : List Char) :
    lineEnd? (c :: left) = none := by
  have uncommented : skipComment (c :: left) = c :: left := by
    unfold skipComment
    split
    · rename_i same
      exact absurd (List.cons.inj same).1 solid.comment
    · rfl
  simp only [lineEnd?, skipSolid solid, uncommented, solid.newline]

theorem readsHeader {name : String} (bare : BareKey name)
    (opened : document.openTable? [name] = some next) (more : Reads next rest last) :
    Reads document (headerLine name ++ rest) last := by
  intro fuel enough
  obtain ⟨fuel, rfl⟩ := Nat.exists_eq_succ_of_ne_zero (Nat.ne_zero_of_lt enough)
  have read := @keyRead name ']' ('\n' :: rest) ('\n' :: rest) bare ']' (by decide) rfl (by decide)
  have header : header? document (name.toList ++ ']' :: '\n' :: rest) = some (next, rest) := by
    obtain ⟨c, others, same, first⟩ := bare.first
    unfold header?
    split
    · rename_i other
      rw [same] at other
      exact absurd (List.cons.inj other).1 (bareOther first (by decide))
    · simp [read, char?, opened, lineEnded]
  have whole : headerLine name ++ rest = '[' :: (name.toList ++ ']' :: '\n' :: rest) := by
    simp [headerLine]
  have solid : skipBlanks ('[' :: (name.toList ++ ']' :: '\n' :: rest)) =
      '[' :: (name.toList ++ ']' :: '\n' :: rest) := rfl
  rw [whole] at enough ⊢
  simp only [lines?, solid, header]
  refine more fuel ?_
  simp only [List.length_cons, List.length_append] at enough
  omega

theorem readsPair {key : String} {value : List Char} {item : Item} (bare : BareKey key)
    (written : Written value item) (added : document.add? [key] item = some next)
    (more : Reads next rest last) : Reads document (pairLine key value ++ rest) last := by
  intro fuel enough
  obtain ⟨fuel, rfl⟩ := Nat.exists_eq_succ_of_ne_zero (Nat.ne_zero_of_lt enough)
  obtain ⟨d, others, spelled, solid⟩ := written.first
  have skipped : skipBlanks (' ' :: (value ++ '\n' :: rest)) = value ++ '\n' :: rest := by
    rw [spelled]
    exact skipFilled solid _
  have read := @keyRead key ' ' ('=' :: ' ' :: (value ++ '\n' :: rest))
    (' ' :: (value ++ '\n' :: rest)) bare '=' (by decide) rfl (by decide)
  have whole : pairLine key value ++ rest =
      key.toList ++ ' ' :: '=' :: ' ' :: (value ++ '\n' :: rest) := by
    simp [pairLine]
  rw [whole] at enough ⊢
  have pair : pairLine? document (key.toList ++ ' ' :: '=' :: ' ' :: (value ++ '\n' :: rest)) =
      some (next, rest) := by
    simp [pairLine?, read, char?, skipped, written.read, added, lineEnded]
  obtain ⟨c, name, same, first⟩ := bare.first
  rw [same, List.cons_append] at enough pair ⊢
  rw [lines?, skipSolid (bareSolid first)]
  split
  · contradiction
  · rename_i other
    exact absurd (List.cons.inj other).1 (bareOther first (by decide))
  · simp only [lineGoesOn (bareSolid first), pair]
    refine more fuel ?_
    simp only [List.length_cons, List.length_append] at enough
    omega

end

def inTable (done : Entries) (name : String) (fields : Entries) : Document :=
  ⟨.table {} done, .table {} fields, [name], false⟩

theorem lookupNone {key : String} {entries : Entries} (free : key ∉ entries.map Prod.fst) :
    entries.lookup key = none := by
  rw [List.lookup_eq_none_iff]
  intro entry inside
  simp only [bne_iff_ne, ne_eq]
  rintro rfl
  exact free (List.mem_map_of_mem inside)

section
variable {done fields : Entries} {name key : String} {item : Item}

theorem fieldAdded (free : key ∉ fields.map Prod.fst) :
    (inTable done name fields).add? [key] item = some (inTable done name (fields ++ [(key, item)])) := by
  simp [Document.add?, inTable, insertAt, alter, define, lookupNone free]

theorem tableFinished (free : name ∉ done.map Prod.fst) :
    (inTable done name fields).finish? = some (.table {} (done ++ [(name, .table {} fields)])) := by
  simp [Document.finish?, inTable, alter, Document.place, lookupNone free]

theorem tableOpened {document : Document} (finished : document.finish? = some (.table {} done))
    (free : name ∉ done.map Prod.fst) : document.openTable? [name] = some (inTable done name []) := by
  have kept : done.filter (·.1 ≠ name) = done := by
    rw [List.filter_eq_self]
    intro entry inside
    simp only [ne_eq, decide_eq_true_eq]
    rintro rfl
    exact free (List.mem_map_of_mem inside)
  simp only [Document.openTable?, finished, Option.bind_eq_bind, Option.bind_some,
    List.getLast?_singleton, List.dropLast_singleton, Document.entriesAt, Document.opened?,
    lookupNone free, alter, Document.takeOut, kept, inTable]

theorem pairsRead {pairs : List Pair} {rest : List Char} {last : Document}
    (keys : ∀ pair ∈ pairs, BareKey pair.key) (values : ∀ pair ∈ pairs, Written pair.value pair.item)
    (distinct : (fields.map Prod.fst ++ pairs.map Pair.key).Nodup)
    (more : Reads (inTable done name (fields ++ pairs.map fun pair => (pair.key, pair.item))) rest
      last) : Reads (inTable done name fields)
        (pairs.flatMap (fun pair => pairLine pair.key pair.value) ++ rest) last := by
  induction pairs generalizing fields with
  | nil => simpa using more
  | cons pair others ih =>
    obtain ⟨bare, keys⟩ := List.forall_mem_cons.mp keys
    obtain ⟨written, values⟩ := List.forall_mem_cons.mp values
    have free : pair.key ∉ fields.map Prod.fst := by
      intro inside
      rw [List.nodup_append] at distinct
      exact distinct.2.2 _ inside _ List.mem_cons_self rfl
    rw [List.flatMap_cons, List.append_assoc]
    refine readsPair bare written (fieldAdded free) (ih keys values ?_ ?_)
    · simpa using distinct
    · simpa using more

theorem tableRead {table : Table} (ready : table.Ready) {document last : Document}
    {rest : List Char} (opened : document.openTable? [table.name] = some (inTable done table.name []))
    (more : Reads (inTable done table.name table.fields) rest last) :
    Reads document (table.chars ++ rest) last := by
  rw [Table.chars, List.append_assoc]
  exact readsHeader ready.name opened
    (pairsRead (fun _ inside => ready.keys _ (List.mem_map_of_mem inside)) ready.values
      (by simpa using ready.distinct) more)

theorem tablesRead {tables : List Table} (ready : ∀ table ∈ tables, table.Ready)
    (distinct : (done.map Prod.fst ++ name :: tables.map Table.name).Nodup) :
    ∃ last, Reads (inTable done name fields) (tables.flatMap fun table => '\n' :: table.chars) last ∧
      last.finish? = some (.table {} (done ++ (name, .table {} fields) :: tables.map Table.entry)) := by
  have free : name ∉ done.map Prod.fst := by
    intro inside
    rw [List.nodup_append] at distinct
    exact distinct.2.2 _ inside _ List.mem_cons_self rfl
  induction tables generalizing done name fields with
  | nil => exact ⟨_, readsNone, tableFinished free⟩
  | cons table others ih =>
    obtain ⟨first, ready⟩ := List.forall_mem_cons.mp ready
    have names : (done ++ [(name, Item.table {} fields)]).map Prod.fst ++
        table.name :: others.map Table.name =
          done.map Prod.fst ++ name :: (table :: others).map Table.name := by simp
    rw [← names] at distinct
    have next : table.name ∉ (done ++ [(name, Item.table {} fields)]).map Prod.fst := by
      intro inside
      rw [List.nodup_append] at distinct
      exact distinct.2.2 _ inside _ List.mem_cons_self rfl
    obtain ⟨last, reads, finished⟩ := @ih (done ++ [(name, .table {} fields)])
      table.fields table.name ready distinct next
    refine ⟨last, ?_, by simpa [Table.entry] using finished⟩
    exact readsBlank (tableRead first (tableOpened (tableFinished free) next) reads)

end

def documentChars (first : Table) (others : List Table) : List Char :=
  first.chars ++ others.flatMap fun table => '\n' :: table.chars

theorem documentRead {first : Table} {others : List Table}
    (ready : ∀ table ∈ first :: others, table.Ready)
    (distinct : ((first :: others).map Table.name).Nodup) :
    read? (String.ofList (documentChars first others)) =
      some ((first :: others).map Table.entry) := by
  obtain ⟨header, ready⟩ := List.forall_mem_cons.mp ready
  have free : first.name ∉ ([] : Entries).map Prod.fst := by simp
  obtain ⟨last, reads, finished⟩ := @tablesRead [] first.fields first.name others ready distinct
  have whole := tableRead header (@tableOpened [] first.name {} rfl free) reads
  have opens : ∃ left, documentChars first others = '[' :: left := ⟨_, rfl⟩
  obtain ⟨left, same⟩ := opens
  have read : lines? (('[' :: left).length + 1) {} ('[' :: left) = some last := by
    rw [← same]
    exact whole _ (Nat.lt_succ_self _)
  rw [read?, String.toList_ofList, same]
  change (lines? (('[' :: left).length + 1) {} ('[' :: left)).bind _ = _
  rw [read, Option.bind_some, finished]
  rfl

end SourceModels.Toml
