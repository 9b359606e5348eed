import SourceModels.Proofs.FileSystem.Places
import SourceModels.Proofs.PathParents
import SourceModels.Proofs.Utf8

/-! Going down from a directory that has no links below it: entering one directory after another,
and making those that are missing. A path that leads there makes directories name by name, although
it is tried from its end. -/
namespace SourceModels.FileSystem

def entered (found : Except Fault Found) : Except Fault Location :=
  match found with
  | .ok (.at location .directory) => .ok location
  | .ok (.at _ _) => .error .notDirectory
  | .ok (.missing _ _) => .error .notFound
  | .error fault => .error fault

def enterBelow (fs : FileSystem) : Location → List String → Except Fault Location
  | here, [] => .ok here
  | here, name :: rest =>
    if maxNameBytes < byteLength name then .error .nameTooLong
    else
      match fs.content? (name :: here) with
      | none => .error .notFound
      | some .directory => enterBelow fs (name :: here) rest
      | some _ => .error .notDirectory

def makeBelow : FileSystem → Location → List String → FileSystem × Except Fault Unit
  | fs, _, [] => (fs, .ok ())
  | fs, here, name :: rest =>
    if maxNameBytes < byteLength name then (fs, .error .nameTooLong)
    else
      match fs.content? (name :: here) with
      | none => makeBelow (fs.put (name :: here) .directory) (name :: here) rest
      | some .directory => makeBelow fs (name :: here) rest
      | some _ => (fs, .error (if rest = [] then .alreadyExists else .notDirectory))

def Nested (fs : FileSystem) : Prop := ∀ name directory content,
  fs.content? (name :: directory) = some content → fs.content? directory = some .directory

structure Ground (fs : FileSystem) (path : String) (top : Location) : Prop where
  checked : checkPath path = .ok ()
  leads : Leads fs maxLinks (fs.startOf path) (names path) top
  unlinked : ∀ below target, fs.content? (below ++ top) ≠ some (.link target)
  nested : Nested fs

def plainNames (names : List String) : List String := names.filter (· ≠ ".")

theorem plainNamesMember {names : List String} {name : String} :
    name ∈ plainNames names ↔ name ∈ names ∧ name ≠ "." := by
  simp [plainNames]

theorem plainNamesAppend (front back : List String) :
    plainNames (front ++ back) = plainNames front ++ plainNames back := by
  simp [plainNames]

theorem plainNamesNone {names : List String} :
    plainNames names = [] ↔ ∀ name ∈ names, name = "." := by
  simp [plainNames, List.filter_eq_nil_iff]

theorem plainNamesLast {names : List String} (some' : plainNames names ≠ []) :
    ∃ front last dots, names = front ++ last :: dots ∧ last ≠ "." ∧ (∀ name ∈ dots, name = ".") ∧
      plainNames names = plainNames front ++ [last] := by
  induction names with
  | nil => exact absurd rfl some'
  | cons name rest ih =>
    by_cases more : plainNames rest = []
    · have named : name ≠ "." := by
        rintro rfl
        exact some' (by simpa [plainNames] using more)
      have alone : plainNames (name :: rest) = name :: plainNames rest := by
        simp [plainNames, named]
      exact ⟨[], name, rest, rfl, named, plainNamesNone.mp more, by rw [alone, more]; rfl⟩
    · obtain ⟨front, last, dots, rfl, named, dotted, plain⟩ := ih more
      refine ⟨name :: front, last, dots, rfl, named, dotted, ?_⟩
      rw [← List.singleton_append, plainNamesAppend, plain, ← List.append_assoc,
        ← plainNamesAppend, List.singleton_append]

section
variable {fs : FileSystem} {here location : Location} {front rest : List String} {fault : Fault}

theorem enterBelowFault (blocked : fs.enterBelow here front = .error fault) :
    fault = .nameTooLong ∨ fault = .notFound ∨ fault = .notDirectory := by
  induction front generalizing here with
  | nil => simp [enterBelow] at blocked
  | cons name rest ih =>
    simp only [enterBelow] at blocked
    split at blocked
    · cases blocked
      exact .inl rfl
    split at blocked
    · cases blocked
      exact .inr (.inl rfl)
    · exact ih blocked
    · cases blocked
      exact .inr (.inr rfl)

theorem enterBelowPlace (through : fs.enterBelow here front = .ok location) :
    location = front.reverse ++ here := by
  induction front generalizing here with
  | nil =>
    cases through
    rfl
  | cons name rest ih =>
    simp only [enterBelow] at through
    split at through
    · contradiction
    split at through
    · contradiction
    · simpa using ih through
    · contradiction

theorem enterBelowHeld (held : fs.content? here = some .directory)
    (through : fs.enterBelow here front = .ok location) :
    fs.content? location = some .directory := by
  induction front generalizing here with
  | nil =>
    cases through
    exact held
  | cons name rest ih =>
    simp only [enterBelow] at through
    split at through
    · contradiction
    split at through
    · contradiction
    · rename_i next
      exact ih next through
    · contradiction

theorem enterBelowKept {after : FileSystem}
    (kept : ∀ place, fs.content? place = some .directory →
      after.content? place = some .directory)
    (through : fs.enterBelow here front = .ok location) :
    after.enterBelow here front = .ok location := by
  induction front generalizing here with
  | nil => exact through
  | cons name rest ih =>
    simp only [enterBelow] at through ⊢
    split at through
    · cases through
    rename_i short
    split at through
    · cases through
    · rename_i held
      simp only [if_neg short, kept _ held]
      exact ih through
    · cases through

theorem makeBelowThrough (through : fs.enterBelow here front = .ok location) :
    fs.makeBelow here (front ++ rest) = fs.makeBelow location rest := by
  induction front generalizing here with
  | nil =>
    cases through
    rfl
  | cons name more ih =>
    simp only [enterBelow] at through
    split at through
    · contradiction
    rename_i short
    split at through
    · contradiction
    · rename_i next
      simpa only [List.cons_append, makeBelow, if_neg short, next] using ih through
    · contradiction

theorem makeBelowBlocked (blocked : fs.enterBelow here front = .error fault)
    (other : fault ≠ .notFound) (further : rest ≠ []) :
    fs.makeBelow here (front ++ rest) = (fs, .error fault) := by
  induction front generalizing here with
  | nil => simp [enterBelow] at blocked
  | cons name more ih =>
    simp only [enterBelow] at blocked
    split at blocked
    · rename_i long
      cases blocked
      simp only [List.cons_append, makeBelow, if_pos long]
    rename_i short
    split at blocked
    · cases blocked
      exact absurd rfl other
    · rename_i next
      simpa only [List.cons_append, makeBelow, if_neg short, next] using ih blocked
    · rename_i content plain next
      cases blocked
      have goes : more ++ rest ≠ [] := by simp [further]
      cases content <;> simp_all [makeBelow]

def andBelow (made : FileSystem × Except Fault Unit) (here : Location) (rest : List String) :
    FileSystem × Except Fault Unit :=
  match made with
  | (fs, .ok ()) => fs.makeBelow here rest
  | (fs, .error fault) => (fs, .error fault)

theorem makeBelowFresh (fresh : ∀ below, below ≠ [] → fs.content? (below ++ here) = none) :
    fs.makeBelow here (front ++ rest) =
      andBelow (fs.makeBelow here front) (front.reverse ++ here) rest := by
  induction front generalizing fs here with
  | nil => rfl
  | cons name more ih =>
    have free := fresh [name] (by simp)
    rw [List.singleton_append] at free
    simp only [List.cons_append, makeBelow, free]
    split
    · rfl
    · have next := @ih (fs.put (name :: here) .directory) (name :: here) (by
        intro below some'
        rw [contentPut, if_neg (by simpa using some')]
        have above := fresh (below ++ [name]) (by simp)
        rwa [List.append_assoc] at above)
      rw [next]
      simp

theorem nothingBelow (nested : Nested fs) (free : fs.content? here = none)
    (below : List String) : fs.content? (below ++ here) = none := by
  induction below with
  | nil => exact free
  | cons name rest ih =>
    cases held : fs.content? (name :: rest ++ here) with
    | none => rfl
    | some content =>
      have above := nested name (rest ++ here) content held
      rw [ih] at above
      contradiction

theorem makeBelowOn (nested : Nested fs) (missing : fs.enterBelow here front = .error .notFound) :
    fs.makeBelow here (front ++ rest) =
      andBelow (fs.makeBelow here front) (front.reverse ++ here) rest := by
  induction front generalizing here with
  | nil => simp [enterBelow] at missing
  | cons name more ih =>
    simp only [enterBelow] at missing
    split at missing
    · cases missing
    rename_i short
    split at missing
    · rename_i free
      simp only [List.cons_append, makeBelow, if_neg short, free]
      rw [makeBelowFresh]
      · simp
      · intro below some'
        rw [contentPut, if_neg (by simpa using some')]
        exact nothingBelow nested free below
    · rename_i next
      simpa only [List.cons_append, makeBelow, if_neg short, next, List.reverse_cons,
        List.append_assoc, List.singleton_append, List.nil_append] using ih missing
    · cases missing

theorem makeOne (fs : FileSystem) (here : Location) (name : String) :
    (∃ made, fs.makeBelow here [name] = (made, .ok ())) ∨
      ∃ fault, fs.makeBelow here [name] = (fs, .error fault) ∧ fault ≠ .notFound := by
  simp only [makeBelow]
  split
  · exact .inr ⟨_, rfl, by decide⟩
  split
  · exact .inl ⟨_, rfl⟩
  · exact .inl ⟨_, rfl⟩
  · exact .inr ⟨_, rfl, by decide⟩

def Under (top : Location) : Location → Prop
  | [] => False
  | _ :: directory => top <:+ directory

structure AlikeOutside (top : Location) (before after : FileSystem) : Prop where
  current : after.current = before.current
  closed : after.closed = before.closed
  content : ∀ location, ¬ Under top location → after.content? location = before.content? location
  children : ∀ directory, ¬ top <:+ directory →
    after.children directory = before.children directory

theorem AlikeOutside.refl (top : Location) (fs : FileSystem) : AlikeOutside top fs fs :=
  ⟨rfl, rfl, fun _ _ => rfl, fun _ _ => rfl⟩

theorem AlikeOutside.trans {top : Location} {first middle last : FileSystem}
    (earlier : AlikeOutside top first middle) (later : AlikeOutside top middle last) :
    AlikeOutside top first last where
  current := later.current.trans earlier.current
  closed := later.closed.trans earlier.closed
  content := fun location outside =>
    (later.content location outside).trans (earlier.content location outside)
  children := fun directory outside =>
    (later.children directory outside).trans (earlier.children directory outside)

theorem childrenPut (fs : FileSystem) (name : String) {directory other : Location}
    (content : Content) (elsewhere : directory ≠ other) :
    (fs.put (name :: directory) content).children other = fs.children other := by
  have kept : ∀ entries : List (Location × Content),
      { fs with entries := entries.filter (·.1 ≠ name :: directory) }.children other =
        { fs with entries }.children other := by
    intro entries
    simp only [children]
    induction entries with
    | nil => rfl
    | cons e rest ih =>
      by_cases gone : e.1 = name :: directory
      · rw [List.filter_cons_of_neg (by simpa using gone), ih, List.filterMap_cons]
        simp [gone, elsewhere]
      · rw [List.filter_cons_of_pos (by simpa using gone), List.filterMap_cons,
          List.filterMap_cons, ih]
  rw [← kept fs.entries]
  simp [children, put, elsewhere]

theorem AlikeOutside.put {top : Location} (fs : FileSystem) {name : String} {directory : Location}
    (below : top <:+ directory) (content : Content) :
    AlikeOutside top fs (fs.put (name :: directory) content) where
  current := rfl
  closed := rfl
  content := by
    intro location outside
    rw [contentPut, if_neg]
    rintro rfl
    exact outside below
  children := by
    intro other outside
    exact childrenPut fs name content fun same => outside (same ▸ below)

theorem AlikeOutside.upper {before after : FileSystem} {name : String}
    (alike : AlikeOutside (name :: here) before after) : AlikeOutside here before after where
  current := alike.current
  closed := alike.closed
  content := by
    refine fun location outside => alike.content location fun under => ?_
    cases location with
    | nil => exact under
    | cons last directory => exact outside ((List.suffix_cons ..).trans under)
  children := fun directory outside =>
    alike.children directory fun under => outside ((List.suffix_cons ..).trans under)

theorem nestedPut (name : String) (held : fs.content? here = some .directory) (nested : Nested fs) :
    Nested (fs.put (name :: here) .directory) := by
  intro last directory content found
  rw [contentPut] at found ⊢
  split at found
  · rename_i same
    obtain ⟨rfl, rfl⟩ := List.cons.inj same
    rwa [if_neg (by simp)]
  · split
    · rfl
    · exact nested last directory content found

structure MadeBelow (before after : FileSystem) (here : Location) (names : List String) :
    Prop where
  outside : AlikeOutside here before after
  added : ∀ location, after.content? location = before.content? location ∨
    before.content? location = none ∧ after.content? location = some .directory ∧
      ∃ front name, front ++ [name] <+: names ∧ location = name :: (front.reverse ++ here) ∧
        ¬ maxNameBytes < byteLength name
  nested : before.content? here = some .directory → Nested before → Nested after

theorem madeBelow (fs : FileSystem) (here : Location) (names : List String) :
    MadeBelow fs (fs.makeBelow here names).1 here names := by
  induction names generalizing fs here with
  | nil => exact ⟨.refl .., fun _ => .inl rfl, fun _ nested => nested⟩
  | cons name rest ih =>
    have further : ∀ {location : Location},
        (∃ front last, front ++ [last] <+: rest ∧ location = last :: (front.reverse ++ name :: here) ∧
          ¬ maxNameBytes < byteLength last) →
        ∃ front last, front ++ [last] <+: name :: rest ∧ location = last :: (front.reverse ++ here) ∧
          ¬ maxNameBytes < byteLength last := by
      rintro location ⟨front, last, within, same, short⟩
      exact ⟨name :: front, last, List.cons_prefix_cons.mpr ⟨rfl, within⟩, by simpa using same, short⟩
    unfold makeBelow
    split
    · exact ⟨.refl .., fun _ => .inl rfl, fun _ nested => nested⟩
    rename_i short
    split
    · rename_i free
      have made := ih (fs.put (name :: here) .directory) (name :: here)
      refine ⟨(AlikeOutside.put fs List.suffix_rfl _).trans made.outside.upper, ?_, ?_⟩
      · intro location
        by_cases same : location = name :: here
        · subst same
          refine .inr ⟨free, ?_, [], name, by simp, rfl, short⟩
          have there : (fs.put (name :: here) .directory).content? (name :: here) =
              some .directory := by simp [contentPut]
          rcases made.added (name :: here) with kept | ⟨gone, _⟩
          · rw [kept, there]
          · rw [there] at gone
            contradiction
        · have old : (fs.put (name :: here) .directory).content? location =
              fs.content? location := by rw [contentPut, if_neg same]
          rw [← old]
          exact (made.added location).imp_right fun ⟨free, held, new⟩ => ⟨free, held, further new⟩
      · exact fun held nested => made.nested (by simp [contentPut]) (nestedPut name held nested)
    · rename_i next
      have made := ih fs (name :: here)
      exact ⟨made.outside.upper,
        fun location => (made.added location).imp_right fun ⟨free, held, new⟩ =>
          ⟨free, held, further new⟩,
        fun _ => made.nested next⟩
    · exact ⟨.refl .., fun _ => .inl rfl, fun _ nested => nested⟩

theorem MadeBelow.directories {before after : FileSystem} {names : List String}
    (made : MadeBelow before after here names) {location : Location}
    {content : Content} (held : before.content? location = some content) :
    after.content? location = some content := by
  rcases made.added location with kept | ⟨free, _⟩
  · rw [kept, held]
  · rw [free] at held
    contradiction

theorem makeBelowDone {made : FileSystem} {names : List String}
    (done : fs.makeBelow here names = (made, .ok ())) :
    made.enterBelow here names = .ok (names.reverse ++ here) := by
  induction names generalizing fs here with
  | nil => rfl
  | cons name rest ih =>
    have below := madeBelow fs here (name :: rest)
    rw [done] at below
    have reached : ∀ {fs : FileSystem}, ¬ maxNameBytes < byteLength name →
        fs.makeBelow (name :: here) rest = (made, .ok ()) →
        fs.content? (name :: here) = some .directory →
        made.enterBelow here (name :: rest) = .ok ((name :: rest).reverse ++ here) := by
      intro fs short done held
      have later := madeBelow fs (name :: here) rest
      rw [done] at later
      simp only [enterBelow, if_neg short, later.directories held, ih done, List.reverse_cons,
        List.append_assoc, List.singleton_append]
    unfold makeBelow at done
    split at done
    · cases done
    rename_i short
    split at done
    · exact reached short done (by simp [contentPut])
    · rename_i next
      exact reached short done next
    · cases done

def WayAlike (before after : FileSystem) (here : Location) (names : List String) : Prop :=
  ∀ front name, front ++ [name] <+: names →
    after.content? (name :: (front.reverse ++ here)) =
        before.content? (name :: (front.reverse ++ here)) ∨
      before.content? (name :: (front.reverse ++ here)) = none ∧
        after.content? (name :: (front.reverse ++ here)) = some .directory

section
variable {before after : FileSystem} {names : List String}

theorem WayAlike.first {name : String} (alike : WayAlike before after here (name :: names)) :
    after.content? (name :: here) = before.content? (name :: here) ∨
      before.content? (name :: here) = none ∧ after.content? (name :: here) = some .directory :=
  alike [] name (List.prefix_append [name] names)

theorem WayAlike.further {name : String} (alike : WayAlike before after here (name :: names)) :
    WayAlike before after (name :: here) names := by
  intro front last within
  have whole := alike (name :: front) last (List.cons_prefix_cons.mpr ⟨rfl, within⟩)
  simpa using whole

theorem contentDeeper (fs : FileSystem) (name last : String) (above : Location)
    (front : List String) (content : Content) :
    (fs.put (name :: above) content).content? (last :: (front.reverse ++ name :: above)) =
      fs.content? (last :: (front.reverse ++ name :: above)) := by
  rw [contentPut, if_neg]
  intro same
  have count := congrArg List.length same
  simp at count
  omega

theorem WayAlike.putBoth {name : String} {above : Location}
    (alike : WayAlike before after (name :: above) names) (content content' : Content) :
    WayAlike (before.put (name :: above) content) (after.put (name :: above) content')
      (name :: above) names := by
  intro front last within
  simpa only [contentDeeper] using alike front last within

theorem WayAlike.putBefore {name : String} {above : Location}
    (alike : WayAlike before after (name :: above) names) (content : Content) :
    WayAlike (before.put (name :: above) content) after (name :: above) names := by
  intro front last within
  simpa only [contentDeeper] using alike front last within

theorem makeBelowAlike (alike : WayAlike before after here names) :
    (after.makeBelow here names).2 = (before.makeBelow here names).2 := by
  induction names generalizing before after here with
  | nil => rfl
  | cons name rest ih =>
    have further := alike.further
    unfold makeBelow
    split
    · rfl
    rcases alike.first with same | ⟨free, directory⟩
    · rw [same]
      cases before.content? (name :: here) with
      | none => exact ih (further.putBoth _ _)
      | some content =>
        cases content with
        | directory => exact ih further
        | _ => rfl
    · rw [free, directory]
      exact ih (further.putBefore _)

theorem enterBelowShort (short : ∀ name ∈ names, ¬ maxNameBytes < byteLength name) :
    before.enterBelow here names ≠ .error .nameTooLong := by
  induction names generalizing here with
  | nil => simp [enterBelow]
  | cons name rest ih =>
    have later := fun other inside => short other (List.mem_cons_of_mem _ inside)
    simp only [enterBelow, if_neg (short name List.mem_cons_self)]
    split
    · simp
    · exact ih later
    · simp

theorem enterBelowAll (nested : Nested before)
    (short : ∀ name ∈ names, ¬ maxNameBytes < byteLength name)
    (held : before.content? (names.reverse ++ here) = some .directory) :
    before.enterBelow here names = .ok (names.reverse ++ here) := by
  induction names generalizing here with
  | nil => rfl
  | cons name rest ih =>
    rw [List.reverse_cons, List.append_assoc, List.singleton_append] at held ⊢
    have later := fun other inside => short other (List.mem_cons_of_mem _ inside)
    have next : ∀ below, before.content? (below ++ name :: here) = some .directory →
        before.content? (name :: here) = some .directory := by
      intro below led
      induction below with
      | nil => exact led
      | cons last more upper => exact upper (nested _ _ _ led)
    simp only [enterBelow, if_neg (short name List.mem_cons_self), next _ held, ih later held]

theorem enterBelowMissing (nested : Nested before)
    (missing : before.enterBelow here names = .error .notFound) (last : String) :
    before.content? (last :: (names.reverse ++ here)) = none := by
  induction names generalizing here with
  | nil => simp [enterBelow] at missing
  | cons name rest ih =>
    simp only [enterBelow] at missing
    rw [List.reverse_cons, List.append_assoc, List.singleton_append]
    split at missing
    · cases missing
    split at missing
    · rename_i free
      exact nothingBelow nested free (last :: rest.reverse)
    · exact ih missing
    · cases missing

theorem enterBelowAlike (alike : WayAlike before after here names) :
    after.enterBelow here names = before.enterBelow here names ∨
      before.enterBelow here names = .error .notFound := by
  induction names generalizing here with
  | nil => exact .inl rfl
  | cons name rest ih =>
    simp only [enterBelow]
    split
    · exact .inl rfl
    rcases alike.first with same | ⟨free, _⟩
    · rw [same]
      cases before.content? (name :: here) with
      | none => exact .inr rfl
      | some content =>
        cases content with
        | directory => exact ih alike.further
        | _ => exact .inl rfl
    · rw [free]
      exact .inr rfl

theorem enterBelowFree (alike : WayAlike before after here names)
    (free : ∀ below, below ≠ [] → before.content? (below ++ here) = none) :
    after.enterBelow here names = .error .notFound ∨
      after.enterBelow here names = .error .nameTooLong ∨
      after.enterBelow here names = .ok (names.reverse ++ here) := by
  induction names generalizing here with
  | nil => exact .inr (.inr rfl)
  | cons name rest ih =>
    have none := free [name] (by simp)
    rw [List.singleton_append] at none
    have deeper : ∀ below, below ≠ [] → before.content? (below ++ name :: here) = Option.none := by
      intro below _
      have above := free (below ++ [name]) (by simp)
      rwa [List.append_assoc] at above
    simp only [enterBelow]
    split
    · exact .inr (.inl rfl)
    rcases alike.first with same | ⟨_, directory⟩
    · rw [same, none]
      exact .inl rfl
    · rw [directory]
      simpa using ih alike.further deeper

theorem enterBelowFurther (nested : Nested before) (alike : WayAlike before after here names)
    (missing : before.enterBelow here names = .error .notFound) :
    after.enterBelow here names = .error .notFound ∨
      after.enterBelow here names = .error .nameTooLong ∨
      after.enterBelow here names = .ok (names.reverse ++ here) := by
  induction names generalizing here with
  | nil => cases missing
  | cons name rest ih =>
    simp only [enterBelow] at missing ⊢
    split at missing
    · cases missing
    rename_i short
    rw [if_neg short]
    split at missing
    · rename_i free
      rcases alike.first with same | ⟨_, directory⟩
      · rw [same, free]
        exact .inl rfl
      · -- what was missing has been made, and nothing was there below it
        rw [directory]
        simpa using enterBelowFree alike.further fun below _ => nothingBelow nested free below
    · rename_i held
      rcases alike.first with same | ⟨free, _⟩
      · rw [same, held]
        simpa using ih alike.further missing
      · rw [free] at held
        cases held
    · cases missing

end

end

end SourceModels.FileSystem
