import Mathlib.Data.List.Nodup

/-! Records that are read one field after another, each into a slot of its own: what is given for a
slot is read at most once, and a slot for which nothing is given is left as it was. -/
namespace SourceModels

/-- Records under way, of type `P`, and the fields they take, of type `F`. -/
structure Slots (P F : Type) where
  size : Nat
  index : F → Nat
  put : P → F → Option P
  slot : P → Nat → Option F
  slotIndex : ∀ {p i f}, slot p i = some f → index f = i
  putDone : ∀ {p q f}, put p f = some q → ∀ i, slot q i = if i = index f then some f else slot p i
  putRefused : ∀ {p f}, put p f = none ↔ size ≤ index f ∨ (slot p (index f)).isSome

namespace Slots

variable {P F V : Type} (slots : Slots P F) (read : Nat → V → Option F)

def Holds (p : P) (f : F) : Prop := slots.slot p (slots.index f) = some f

theorem empty {p : P} {i : Nat} :
    slots.slot p i = none ↔ ∀ f, slots.index f = i → ¬ slots.Holds p f := by
  rw [Option.eq_none_iff_forall_ne_some]
  constructor
  · rintro none f rfl
    exact none f
  · intro none f held
    have same := slots.slotIndex held
    exact none f same (by rwa [Holds, same])

theorem putAccepted {p : P} {f : F} : (∃ q, slots.put p f = some q) ↔
    slots.index f < slots.size ∧ slots.slot p (slots.index f) = none := by
  rw [← Option.ne_none_iff_exists', ne_eq, slots.putRefused, not_or, Nat.not_le,
    Option.not_isSome_iff_eq_none]

theorem putHolds {p q : P} {f : F} (done : slots.put p f = some q) (g : F) :
    slots.Holds q g ↔ slots.Holds p g ∨ g = f := by
  have free := (slots.putAccepted.mp ⟨q, done⟩).2
  rw [Holds, Holds, slots.putDone done]
  by_cases same : slots.index g = slots.index f
  · simp [same, free, eq_comm]
  · rw [if_neg same]
    exact ⟨.inl, fun held => held.resolve_right fun this => same (congrArg _ this)⟩

def gather : P → List (Nat × V) → Option P
  | p, [] => some p
  | p, (i, v) :: rest => ((read i v).bind (slots.put p)).bind fun q => gather q rest

structure Stands (given : List (Nat × V)) (f : F) (otherwise : Prop) : Prop where
  read : ∀ v, (slots.index f, v) ∈ given → read (slots.index f) v = some f
  missing : (∀ v, (slots.index f, v) ∉ given) → otherwise

section
variable {slots read} (indexed : ∀ {i v f}, read i v = some f → slots.index f = i)
include indexed

theorem gatherHolds {p q : P} {given : List (Nat × V)} (done : slots.gather read p given = some q)
    (f : F) : slots.Holds q f ↔ slots.Holds p f ∨
      ∃ v, (slots.index f, v) ∈ given ∧ read (slots.index f) v = some f := by
  induction given generalizing p with
  | nil =>
    cases done
    simp
  | cons e rest ih =>
    obtain ⟨i, v⟩ := e
    simp only [gather, Option.bind_eq_some_iff] at done
    obtain ⟨next, ⟨g, known, added⟩, later⟩ := done
    rw [ih later, slots.putHolds added, or_assoc]
    refine or_congr_right ⟨?_, ?_⟩
    · rintro (rfl | ⟨u, inside, reads⟩)
      · exact ⟨v, by simp [indexed known], (indexed known).symm ▸ known⟩
      · exact ⟨u, List.mem_cons_of_mem _ inside, reads⟩
    · rintro ⟨u, inside, reads⟩
      rcases List.mem_cons.mp inside with same | inside
      · cases same
        exact .inl (Option.some.inj (reads.symm.trans known))
      · exact .inr ⟨u, inside, reads⟩

theorem gatherDone {p : P} {given : List (Nat × V)} : (∃ q, slots.gather read p given = some q) ↔
    (given.map Prod.fst).Nodup ∧ ∀ e ∈ given, e.1 < slots.size ∧ (∃ f, read e.1 e.2 = some f) ∧
      slots.slot p e.1 = none := by
  induction given generalizing p with
  | nil => simp [gather]
  | cons e rest ih =>
    obtain ⟨i, v⟩ := e
    simp only [gather, List.map_cons, List.nodup_cons, List.forall_mem_cons]
    cases known : read i v with
    | none => simp
    | some f =>
      obtain rfl := indexed known
      have accepted := slots.putAccepted (p := p) (f := f)
      cases added : slots.put p f with
      | none =>
        simp only [added, reduceCtorEq, exists_false, false_iff] at accepted
        simp only [Option.bind_some, added, Option.bind_none, reduceCtorEq, exists_false, false_iff]
        exact fun held => accepted ⟨held.2.1.1, held.2.1.2.2⟩
      | some next =>
        obtain ⟨within, free⟩ := accepted.mp ⟨next, added⟩
        simp only [Option.bind_some, added, ih, slots.putDone added]
        constructor
        · rintro ⟨once, each⟩
          refine ⟨⟨fun inside => ?_, once⟩, ⟨within, ⟨f, rfl⟩, free⟩, fun e member => ?_⟩
          · obtain ⟨e, member, same⟩ := List.mem_map.mp inside
            simpa [same] using (each e member).2.2
          · obtain ⟨small, reads, none⟩ := each e member
            refine ⟨small, reads, ?_⟩
            split at none
            · contradiction
            · exact none
        · rintro ⟨⟨absent, once⟩, _, each⟩
          refine ⟨once, fun e member => ?_⟩
          obtain ⟨small, reads, none⟩ := each e member
          have other : e.1 ≠ slots.index f := fun same =>
            absent (same ▸ List.mem_map_of_mem member)
          exact ⟨small, reads, by rw [if_neg other, none]⟩

section
variable {start : P} (fresh : ∀ i, slots.slot start i = none) {fields : List F}
  {otherwise : F → Prop} {Complete : P → Prop}
  (completes : ∀ q, Complete q ↔ ∀ f ∈ fields,
    slots.Holds q f ∨ slots.slot q (slots.index f) = none ∧ otherwise f)
  {given : List (Nat × V)}
include fresh

theorem startHolds {q : P} (done : slots.gather read start given = some q) (f : F) :
    slots.Holds q f ↔ ∃ v, (slots.index f, v) ∈ given ∧ read (slots.index f) v = some f := by
  rw [gatherHolds indexed done, or_iff_right (by simp [Holds, fresh])]

include completes

theorem completeStands {q : P} (done : slots.gather read start given = some q)
    (complete : Complete q) {f : F} (listed : f ∈ fields) :
    slots.Stands read given f (otherwise f) := by
  have holds := startHolds indexed fresh done
  have each := ((gatherDone indexed).mp ⟨q, done⟩).2
  rcases (completes q).mp complete f listed with held | ⟨none, other⟩
  · refine ⟨fun v inside => ?_, fun absent => ?_⟩
    · obtain ⟨g, known⟩ := (each _ inside).2.1
      have same := indexed known
      have also : slots.Holds q g := (holds g).mpr ⟨v, same ▸ inside, same ▸ known⟩
      rw [Holds, same, held] at also
      rw [known, also]
    · obtain ⟨v, inside, _⟩ := (holds f).mp held
      exact absurd inside (absent v)
  · refine ⟨fun v inside => ?_, fun _ => other⟩
    obtain ⟨g, known⟩ := (each _ inside).2.1
    have same := indexed known
    exact absurd ((holds g).mpr ⟨v, same ▸ inside, same ▸ known⟩) (slots.empty.mp none g same)

theorem standsComplete {q : P} (done : slots.gather read start given = some q)
    (stands : ∀ f ∈ fields, slots.Stands read given f (otherwise f)) : Complete q := by
  have holds := startHolds indexed fresh done
  refine (completes q).mpr fun f listed => ?_
  by_cases absent : ∀ v, (slots.index f, v) ∉ given
  · refine .inr ⟨slots.empty.mpr fun g same held => ?_, (stands f listed).missing absent⟩
    obtain ⟨v, inside, _⟩ := (holds g).mp held
    exact absent v (same ▸ inside)
  · simp only [not_forall, not_not] at absent
    obtain ⟨v, inside⟩ := absent
    exact .inl ((holds f).mpr ⟨v, inside, (stands f listed).read v inside⟩)

theorem gatheredAs (cover : ∀ i < slots.size, ∃ f ∈ fields, slots.index f = i) :
    (∃ q, slots.gather read start given = some q ∧ Complete q) ↔
      (given.map Prod.fst).Nodup ∧ (∀ e ∈ given, e.1 < slots.size) ∧
        ∀ f ∈ fields, slots.Stands read given f (otherwise f) := by
  constructor
  · rintro ⟨q, done, complete⟩
    obtain ⟨once, each⟩ := (gatherDone indexed).mp ⟨q, done⟩
    exact ⟨once, fun e member => (each e member).1,
      fun f listed => completeStands indexed fresh completes done complete listed⟩
  · rintro ⟨once, within, stands⟩
    have each : ∀ e ∈ given, ∃ f, read e.1 e.2 = some f := by
      intro e member
      obtain ⟨f, listed, same⟩ := cover e.1 (within e member)
      exact ⟨f, same ▸ (stands f listed).read e.2 (same.symm ▸ member)⟩
    obtain ⟨q, done⟩ : ∃ q, slots.gather read start given = some q := (gatherDone indexed).mpr
      ⟨once, fun e member => ⟨within e member, each e member, fresh e.1⟩⟩
    exact ⟨q, done, standsComplete indexed fresh completes done stands⟩

end

end

end Slots

section
variable {V : Type}

def numbered (names : List String) (entries : List (String × V)) : List (Nat × V) :=
  entries.filterMap fun e => (names.findIdx? (· = e.1)).map (·, e.2)

def Once (names : List String) (entries : List (String × V)) : Prop :=
  entries.Pairwise fun a b => a.1 = b.1 → a.1 ∉ names

structure Given (entries : List (String × V)) (name : String) (form : V → Prop)
    (otherwise : Prop) : Prop where
  form : ∀ v, (name, v) ∈ entries → form v
  missing : (∀ v, (name, v) ∉ entries) → otherwise

theorem Given.mono {entries : List (String × V)} {name : String} {form other : V → Prop}
    {otherwise : Prop} (given : Given entries name form otherwise)
    (weaker : ∀ v, form v → other v) : Given entries name other otherwise :=
  ⟨fun v inside => weaker v (given.form v inside), given.missing⟩

variable {names : List String} (distinct : names.Nodup) {entries : List (String × V)}

theorem indexWithin {name : String} {i : Nat} (known : names.findIdx? (· = name) = some i) :
    names[i]? = some name := by
  obtain ⟨within, same, _⟩ := List.findIdx?_eq_some_iff_getElem.mp known
  rw [List.getElem?_eq_getElem within, of_decide_eq_true same]

theorem numberedWithin {e : Nat × V} (inside : e ∈ numbered names entries) :
    e.1 < names.length := by
  obtain ⟨a, _, some⟩ := List.mem_filterMap.mp inside
  obtain ⟨i, known, rfl⟩ := Option.map_eq_some_iff.mp some
  exact (List.findIdx?_eq_some_iff_getElem.mp known).1

theorem numberedOnce : ((numbered names entries).map Prod.fst).Nodup ↔ Once names entries := by
  rw [List.Nodup, List.pairwise_map, numbered, List.pairwise_filterMap]
  refine ⟨fun apart => apart.imp ?_, fun once => once.imp ?_⟩
  · rintro ⟨a, u⟩ ⟨b, v⟩ apart rfl inside
    obtain ⟨i, known⟩ : ∃ i, names.findIdx? (· = a) = some i := by
      rw [← Option.isSome_iff_exists, List.findIdx?_isSome]
      simpa using inside
    exact apart (i, u) (by simp [known]) (i, v) (by simp [known]) rfl
  · rintro ⟨a, u⟩ ⟨b, v⟩ once c some d other same
    obtain ⟨i, known, rfl⟩ := Option.map_eq_some_iff.mp some
    obtain ⟨j, found, rfl⟩ := Option.map_eq_some_iff.mp other
    obtain rfl : i = j := same
    have one := indexWithin known
    rw [indexWithin found, Option.some.injEq] at one
    exact once one.symm (List.mem_of_getElem? (indexWithin known))

include distinct

theorem nameIndex {name : String} {i : Nat} :
    names.findIdx? (· = name) = some i ↔ names[i]? = some name := by
  refine ⟨indexWithin, fun named => ?_⟩
  obtain ⟨within, same⟩ := List.getElem?_eq_some_iff.mp named
  refine List.findIdx?_eq_some_iff_getElem.mpr ⟨within, decide_eq_true same, fun j less => ?_⟩
  rw [decide_eq_true_eq, ← same, List.Nodup.getElem_inj_iff distinct]
  omega

theorem numberedMember {name : String} {i : Nat} (named : names[i]? = some name) {v : V} :
    (i, v) ∈ numbered names entries ↔ (name, v) ∈ entries := by
  have known := (nameIndex distinct).mpr named
  rw [numbered, List.mem_filterMap]
  constructor
  · rintro ⟨⟨other, u⟩, inside, same⟩
    obtain ⟨j, found, same⟩ := Option.map_eq_some_iff.mp same
    cases same
    rw [(nameIndex distinct).mp found] at named
    cases named
    exact inside
  · exact fun inside => ⟨_, inside, by simp [known]⟩

theorem Slots.standsNamed {P F : Type} {slots : Slots P F} {read : Nat → V → Option F} {f : F}
    {name : String} (named : names[slots.index f]? = some name) {otherwise : Prop} :
    slots.Stands read (numbered names entries) f otherwise ↔
      Given entries name (fun v => read (slots.index f) v = some f) otherwise := by
  have member {v : V} : (slots.index f, v) ∈ numbered names entries ↔ (name, v) ∈ entries :=
    numberedMember distinct named
  constructor
  · rintro ⟨reads, missing⟩
    exact ⟨fun v inside => reads v (member.mpr inside),
      fun absent => missing fun v inside => absent v (member.mp inside)⟩
  · rintro ⟨form, missing⟩
    exact ⟨fun v inside => form v (member.mp inside),
      fun absent => missing fun v inside => absent v (member.mpr inside)⟩

end

section
variable {V : Type} {items : List V}

def positioned (items : List V) : List (Nat × V) := items.zipIdx.map Prod.swap

theorem positionedMember {i : Nat} {v : V} : (i, v) ∈ positioned items ↔ items[i]? = some v := by
  rw [positioned, List.mem_map]
  constructor
  · rintro ⟨⟨u, j⟩, inside, same⟩
    cases same
    exact List.mem_zipIdx_iff_getElem?.mp inside
  · exact fun there => ⟨(v, i), List.mem_zipIdx_iff_getElem?.mpr there, rfl⟩

theorem numberedRest {front back : List String} (distinct : (front ++ back).Nodup)
    (few : items.length ≤ back.length) :
    numbered (front ++ back) (back.zip items) = (items.zipIdx front.length).map Prod.swap := by
  induction items generalizing front back with
  | nil => simp [numbered]
  | cons v rest ih =>
    cases back with
    | nil => simp at few
    | cons name back =>
      have own : (front ++ name :: back).findIdx? (· = name) = some front.length :=
        (nameIndex distinct).mpr (by simp)
      have later := @ih (front ++ [name]) back (by simpa using distinct) (by simpa using few)
      simp only [List.append_assoc, List.singleton_append, List.length_append, List.length_cons,
        List.length_nil, Nat.zero_add] at later
      rw [numbered] at later
      rw [numbered, List.zip_cons_cons, List.filterMap_cons, own, later]
      rfl

variable {P F : Type} {slots : Slots P F} {read : Nat → V → Option F} {names : List String}

theorem Slots.itemsGathered {run : Nat → P → List V → Option P} (none : ∀ i p, run i p [] = some p)
    (next : ∀ i p v rest, run i p (v :: rest) =
      ((read i v).bind (slots.put p)).bind fun q => run (i + 1) q rest)
    (items : List V) (i : Nat) (p : P) :
    run i p items = slots.gather read p ((items.zipIdx i).map Prod.swap) := by
  induction items generalizing i p with
  | nil => exact none i p
  | cons v rest ih =>
    rw [next]
    exact Option.bind_congr fun q _ => ih (i + 1) q

theorem Slots.gatherPositioned (distinct : names.Nodup) (size : slots.size = names.length)
    (indexed : ∀ {i v f}, read i v = some f → slots.index f = i) {start q : P} :
    slots.gather read start (positioned items) = some q ↔ items.length ≤ names.length ∧
      slots.gather read start (numbered names (names.zip items)) = some q := by
  by_cases few : items.length ≤ names.length
  · have named : numbered names (names.zip items) = positioned items :=
      @numberedRest _ items [] names distinct few
    rw [named]
    exact (and_iff_right few).symm
  · have last : (names.length, items[names.length]) ∈ positioned items :=
      positionedMember.mpr (List.getElem?_eq_getElem _)
    refine iff_of_false (fun done => ?_) fun both => few both.1
    have within := ((gatherDone indexed).mp ⟨q, done⟩).2 _ last
    simp [size] at within

end

end SourceModels
