import SourceModels.FileSystem.Change

/-! Where paths lead when a file system changes. A walk depends on the directories and links on its
way alone, so that it leads to the same directory as long as these stay. -/
namespace SourceModels

def Content.leadsOn : Content → Bool
  | .directory => true
  | .link _ => true
  | _ => false

namespace FileSystem

theorem heldEntry {fs : FileSystem} {name : String} {directory : Location} {content : Content}
    (held : fs.content? (name :: directory) = some content) :
    (name :: directory, content) ∈ fs.entries := by
  obtain ⟨front, back, split, _⟩ := List.lookup_eq_some_iff.mp held
  rw [split]
  exact List.mem_append_right _ List.mem_cons_self

theorem lookupFiltered (location other : Location) (entries : List (Location × Content)) :
    (entries.filter (·.1 ≠ location)).lookup other =
      if other = location then none else entries.lookup other := by
  induction entries with
  | nil => simp
  | cons entry rest ih =>
    obtain ⟨place, content⟩ := entry
    by_cases removed : place = location
    · subst removed
      by_cases same : other = place
      · subst same
        simpa using ih
      · simpa [List.lookup_cons, beq_eq_false_iff_ne.mpr same, same] using ih
    · by_cases same : other = place
      · subst same
        simp [removed]
      · simpa [List.lookup_cons, beq_eq_false_iff_ne.mpr same, removed] using ih

theorem contentPut (fs : FileSystem) (name : String) (directory : Location) (content : Content)
    (location : Location) : (fs.put (name :: directory) content).content? location =
      if location = name :: directory then some content else fs.content? location := by
  cases location with
  | nil => simp [content?]
  | cons last above =>
    by_cases same : last :: above = name :: directory
    · simp [content?, put, same]
    · have filtered := lookupFiltered (name :: directory) (last :: above) fs.entries
      simp only [if_neg same] at filtered
      simp only [content?, put, List.lookup_cons, beq_eq_false_iff_ne.mpr same, filtered,
        if_neg same]

theorem contentErase (fs : FileSystem) (name : String) (directory location : Location) :
    (fs.erase (name :: directory)).content? location =
      if location = name :: directory then none else fs.content? location := by
  cases location with
  | nil => simp [content?]
  | cons last above =>
    simpa only [content?, erase] using lookupFiltered (name :: directory) (last :: above) fs.entries

theorem erasePut {fs : FileSystem} {name : String} {directory : Location} (content : Content)
    (free : fs.content? (name :: directory) = none) :
    (fs.put (name :: directory) content).erase (name :: directory) = fs := by
  have absent : ∀ e ∈ fs.entries, e.1 ≠ name :: directory := by
    intro e inside same
    have missing := List.lookup_eq_none_iff.mp free e inside
    simp [same] at missing
  have kept : fs.entries.filter (·.1 ≠ name :: directory) = fs.entries :=
    List.filter_eq_self.mpr (by simpa using absent)
  simp only [put, erase, List.filter_cons, ne_eq, not_true_eq_false, decide_false,
    Bool.false_eq_true, if_false, List.filter_filter, Bool.and_self]
  rw [kept]

/-- The path leads along directories and links to a directory, with so many links allowed. -/
inductive Leads (fs : FileSystem) : (links : Nat) → (here : Location) → List String →
    Location → Prop where
  | here {links : Nat} {here : Location} (held : fs.content? here = some .directory) :
      Leads fs links here [] here
  | dot {links : Nat} {here location : Location} {rest : List String}
      (held : fs.content? here = some .directory) (later : Leads fs links here rest location) :
      Leads fs links here ("." :: rest) location
  | dots {links : Nat} {here location : Location} {rest : List String}
      (held : fs.content? here = some .directory)
      (later : Leads fs links here.tail rest location) :
      Leads fs links here (".." :: rest) location
  | down {links : Nat} {here location : Location} {name : String} {rest : List String}
      (held : fs.content? here = some .directory) (named : name ≠ "." ∧ name ≠ "..")
      (short : ¬ maxNameBytes < byteLength name)
      (next : fs.content? (name :: here) = some .directory)
      (later : Leads fs links (name :: here) rest location) :
      Leads fs links here (name :: rest) location
  | link {links : Nat} {here location : Location} {name target : String} {rest : List String}
      (held : fs.content? here = some .directory) (named : name ≠ "." ∧ name ≠ "..")
      (short : ¬ maxNameBytes < byteLength name)
      (next : fs.content? (name :: here) = some (.link target)) (filled : target ≠ "")
      (later : Leads fs links (if Path.isAbsolute target then [] else here)
        (components target ++ rest) location) :
      Leads fs (links + 1) here (name :: rest) location

theorem walkDot {fs : FileSystem} {follow : Bool} {links : Nat} {here : Location}
    (held : fs.content? here = some .directory) (rest : List String) :
    walk fs follow links here ("." :: rest) = walk fs follow links here rest := by
  cases links <;> simp [walkUnlinked, walkLinked, walkWith, held]

theorem walkDots {fs : FileSystem} {follow : Bool} {links : Nat} {here : Location}
    (held : fs.content? here = some .directory) (rest : List String) :
    walk fs follow links here (".." :: rest) = walk fs follow links here.tail rest := by
  cases links <;> simp [walkUnlinked, walkLinked, walkWith, held]

theorem walkDown {fs : FileSystem} {follow : Bool} {links : Nat} {here : Location} {name : String}
    {content : Content} (held : fs.content? here = some .directory)
    (named : name ≠ "." ∧ name ≠ "..") (short : ¬ maxNameBytes < byteLength name)
    (next : fs.content? (name :: here) = some content) (unlinked : ∀ target, content ≠ .link target)
    (rest : List String) :
    walk fs follow links here (name :: rest) = walk fs follow links (name :: here) rest := by
  cases content with
  | link target => exact absurd rfl (unlinked target)
  | _ =>
    cases links <;> simp [walkUnlinked, walkLinked, walkWith, held, named, short, next]

theorem walkEntry {fs : FileSystem} {links : Nat} {here : Location} {name : String}
    {content : Content} (held : fs.content? here = some .directory)
    (named : name ≠ "." ∧ name ≠ "..") (short : ¬ maxNameBytes < byteLength name)
    (next : fs.content? (name :: here) = some content) :
    walk fs false links here [name] = .ok (.at (name :: here) content) := by
  cases content <;> cases links <;>
    simp [walkUnlinked, walkLinked, walkWith, held, named, short, next]

theorem walkAtLink {fs : FileSystem} {follow : Bool} {links : Nat} {here : Location}
    {name target : String} (held : fs.content? here = some .directory)
    (named : name ≠ "." ∧ name ≠ "..") (next : fs.content? (name :: here) = some (.link target))
    {rest : List String} (goesOn : rest = [] → follow = true) :
    walk fs follow links here (name :: rest) =
      if maxNameBytes < byteLength name then .error .nameTooLong
      else if target = "" then .error .notFound
      else match links with
        | 0 => .error .tooManyLinks
        | fewer + 1 => walk fs follow fewer (if Path.isAbsolute target then [] else here)
            (components target ++ rest) := by
  have on : ¬ (rest = [] ∧ follow = false) := by
    rintro ⟨ends, stays⟩
    simp [goesOn ends] at stays
  cases links <;> simp [walkUnlinked, walkLinked, walkWith, held, named, next, on]

theorem walkAcross {fs : FileSystem} {follow : Bool} {links : Nat} {here : Location}
    {name target : String} (held : fs.content? here = some .directory)
    (named : name ≠ "." ∧ name ≠ "..") (short : ¬ maxNameBytes < byteLength name)
    (next : fs.content? (name :: here) = some (.link target)) (filled : target ≠ "")
    {rest : List String} (goesOn : rest = [] → follow = true) :
    walk fs follow (links + 1) here (name :: rest) =
      walk fs follow links (if Path.isAbsolute target then [] else here)
        (components target ++ rest) := by
  rw [walkAtLink held named next goesOn, if_neg short, if_neg filled]

theorem walkLink {fs : FileSystem} {links : Nat} {here : Location} {name target : String}
    (held : fs.content? here = some .directory) (named : name ≠ "." ∧ name ≠ "..")
    (short : ¬ maxNameBytes < byteLength name)
    (next : fs.content? (name :: here) = some (.link target)) (filled : target ≠ "")
    (rest : List String) :
    walk fs true (links + 1) here (name :: rest) =
      walk fs true links (if Path.isAbsolute target then [] else here)
        (components target ++ rest) :=
  walkAcross held named short next filled fun _ => rfl

section
variable {fs : FileSystem} {follow : Bool} {links : Nat} {here : Location} {name : String}
  {rest : List String}

theorem walkLost (free : fs.content? here = none) (parts : List String) :
    walk fs follow links here parts = .error .notFound := by
  cases parts <;> cases links <;> simp [walkUnlinked, walkLinked, walkWith, free]

theorem walkLong (held : fs.content? here = some .directory) (named : name ≠ "." ∧ name ≠ "..")
    (long : maxNameBytes < byteLength name) :
    walk fs follow links here (name :: rest) = .error .nameTooLong := by
  cases links <;> simp [walkUnlinked, walkLinked, walkWith, held, named, long]

theorem walkMissing (held : fs.content? here = some .directory)
    (named : name ≠ "." ∧ name ≠ "..") (missing : fs.content? (name :: here) = none) :
    walk fs follow links here (name :: rest) =
      if maxNameBytes < byteLength name then .error .nameTooLong
      else if rest = [] then .ok (.missing here name) else .error .notFound := by
  cases links <;> simp [walkUnlinked, walkLinked, walkWith, held, named, missing]

theorem walkBlocked {content : Content} (held : fs.content? here = some content)
    (other : content ≠ .directory) {parts : List String} (more : parts ≠ []) :
    walk fs follow links here parts = .error .notDirectory := by
  cases parts with
  | nil => contradiction
  | cons name rest =>
    cases content with
    | directory => contradiction
    | _ => cases links <;> simp [walkUnlinked, walkLinked, walkWith, held]

theorem walkSpent {target : String} (held : fs.content? here = some .directory)
    (named : name ≠ "." ∧ name ≠ "..") (short : ¬ maxNameBytes < byteLength name)
    (next : fs.content? (name :: here) = some (.link target)) (filled : target ≠ "")
    (goesOn : rest = [] → follow = true) :
    walk fs follow 0 here (name :: rest) = .error .tooManyLinks := by
  rw [walkAtLink held named next goesOn, if_neg short, if_neg filled]

theorem passedDot (held : fs.content? here = some .directory) (rest : List String) :
    passed fs links here ("." :: rest) = passed fs links here rest := by
  cases links <;> simp [passedUnlinked, passedLinked, passedWith, held]

theorem passedDots (held : fs.content? here = some .directory) (rest : List String) :
    passed fs links here (".." :: rest) = passed fs links here.tail rest := by
  cases links <;> simp [passedUnlinked, passedLinked, passedWith, held]

theorem passedStill (still : fs.content? here ≠ some .directory) (parts : List String) :
    passed fs links here parts = [] := by
  cases parts with
  | nil => exact passedHere
  | cons name rest =>
    cases links <;> simp only [passedUnlinked, passedLinked, passedWith]

theorem passedMissing (held : fs.content? here = some .directory)
    (named : name ≠ "." ∧ name ≠ "..") (missing : fs.content? (name :: here) = none) :
    passed fs links here (name :: rest) = [name :: here] := by
  cases links <;> simp [passedUnlinked, passedLinked, passedWith, held, named, missing]

theorem passedFirst (held : fs.content? here = some .directory)
    (named : name ≠ "." ∧ name ≠ "..") (rest : List String) :
    name :: here ∈ passed fs links here (name :: rest) := by
  cases links <;> simp [passedUnlinked, passedLinked, passedWith, held, named]

theorem passedDown {content : Content} (held : fs.content? here = some .directory)
    (named : name ≠ "." ∧ name ≠ "..") (next : fs.content? (name :: here) = some content)
    (unlinked : ∀ target, content ≠ .link target) (rest : List String) :
    passed fs links here (name :: rest) =
      (name :: here) :: passed fs links (name :: here) rest := by
  cases content with
  | link target => exact absurd rfl (unlinked target)
  | _ => cases links <;> simp [passedUnlinked, passedLinked, passedWith, held, named, next]

theorem passedAtLink {target : String} (held : fs.content? here = some .directory)
    (named : name ≠ "." ∧ name ≠ "..") (next : fs.content? (name :: here) = some (.link target))
    (rest : List String) : passed fs links here (name :: rest) =
      (name :: here) :: match links with
        | 0 => []
        | fewer + 1 => passed fs fewer (if Path.isAbsolute target then [] else here)
            (components target ++ rest) := by
  cases links <;> simp [passedUnlinked, passedLinked, passedWith, held, named, next]

theorem passedAcross {target : String} (held : fs.content? here = some .directory)
    (named : name ≠ "." ∧ name ≠ "..") (next : fs.content? (name :: here) = some (.link target))
    (rest : List String) : passed fs (links + 1) here (name :: rest) =
      (name :: here) :: passed fs links (if Path.isAbsolute target then [] else here)
        (components target ++ rest) := passedAtLink held named next rest

end

theorem walkInduction (fs : FileSystem) {P : Nat → Location → List String → Prop}
    (lost : ∀ {links here parts}, fs.content? here = none → P links here parts)
    (here : ∀ {links here content}, fs.content? here = some content → P links here [])
    (blocked : ∀ {links here content name rest}, fs.content? here = some content →
      content ≠ .directory → P links here (name :: rest))
    (dot : ∀ {links here rest}, fs.content? here = some .directory → P links here rest →
      P links here ("." :: rest))
    (dots : ∀ {links here rest}, fs.content? here = some .directory → P links here.tail rest →
      P links here (".." :: rest))
    (missing : ∀ {links here name rest}, fs.content? here = some .directory →
      (name ≠ "." ∧ name ≠ "..") → fs.content? (name :: here) = none → P links here (name :: rest))
    (down : ∀ {links here name rest content}, fs.content? here = some .directory →
      (name ≠ "." ∧ name ≠ "..") → fs.content? (name :: here) = some content →
      (∀ target, content ≠ .link target) → P links (name :: here) rest →
      P links here (name :: rest))
    (link : ∀ {links here name target rest}, fs.content? here = some .directory →
      (name ≠ "." ∧ name ≠ "..") → fs.content? (name :: here) = some (.link target) →
      (∀ fewer, links = fewer + 1 →
        P fewer (if Path.isAbsolute target then [] else here) (components target ++ rest)) →
      P links here (name :: rest))
    (links : Nat) (start : Location) (parts : List String) : P links start parts := by
  -- a link may put any number of names ahead, so that names are counted within the links left
  induction links using Nat.strongRecOn generalizing start parts with
  | ind links across =>
    induction parts generalizing start with
    | nil =>
      cases held : fs.content? start with
      | none => exact lost held
      | some content => exact here held
    | cons name rest ih =>
      cases held : fs.content? start with
      | none => exact lost held
      | some content =>
        by_cases directory : content = .directory
        case neg => exact blocked held directory
        subst directory
        by_cases same : name = "."
        · exact same ▸ dot held (ih _)
        by_cases up : name = ".."
        · exact up ▸ dots held (ih _)
        cases next : fs.content? (name :: start) with
        | none => exact missing held ⟨same, up⟩ next
        | some content =>
          by_cases linked : ∃ target, content = .link target
          · obtain ⟨target, rfl⟩ := linked
            exact link held ⟨same, up⟩ next fun fewer less => across fewer (by omega) _ _
          · exact down held ⟨same, up⟩ next (by simpa using linked) (ih _)

theorem Leads.walked {fs : FileSystem} {links : Nat} {here location : Location}
    {parts : List String} (leads : Leads fs links here parts location) :
    walk fs true links here parts = .ok (.at location .directory) := by
  induction leads with
  | here held => exact walkHere held
  | dot held _ ih => rw [walkDot held, ih]
  | dots held _ ih => rw [walkDots held, ih]
  | down held named short next _ ih => rw [walkDown held named short next (by simp), ih]
  | link held named short next filled _ ih => rw [walkLink held named short next filled, ih]

theorem Leads.onward {fs : FileSystem} {links : Nat} {here location : Location}
    {parts : List String} (leads : Leads fs links here parts location) :
    ∃ fewer, ∀ follow rest, rest ≠ [] →
      walk fs follow links here (parts ++ rest) = walk fs follow fewer location rest := by
  induction leads with
  | @here links _ held => exact ⟨links, fun _ _ _ => rfl⟩
  | dot held _ ih =>
    obtain ⟨fewer, on⟩ := ih
    exact ⟨fewer, fun follow rest more => (walkDot held _).trans (on follow rest more)⟩
  | dots held _ ih =>
    obtain ⟨fewer, on⟩ := ih
    exact ⟨fewer, fun follow rest more => (walkDots held _).trans (on follow rest more)⟩
  | down held named short next _ ih =>
    obtain ⟨fewer, on⟩ := ih
    exact ⟨fewer, fun follow rest more =>
      (walkDown held named short next (by simp) _).trans (on follow rest more)⟩
  | link held named short next filled _ ih =>
    obtain ⟨fewer, on⟩ := ih
    refine ⟨fewer, fun follow rest more => ?_⟩
    rw [List.cons_append, walkAcross held named short next filled (by simp [more]),
      ← List.append_assoc]
    exact on follow rest more

theorem Leads.unfollowed {fs : FileSystem} {links : Nat} {here location : Location}
    {parts : List String} (leads : Leads fs links here parts location) :
    walk fs false links here parts = .ok (.at location .directory) ∨
      ∃ place target, walk fs false links here parts = .ok (.at place (.link target)) := by
  induction leads with
  | here held => exact .inl (walkHere held)
  | dot held _ ih => simpa only [walkDot held] using ih
  | dots held _ ih => simpa only [walkDots held] using ih
  | down held named short next _ ih =>
    simpa only [walkDown held named short next (fun _ => Content.noConfusion)] using ih
  | @link links here location name target rest held named short next filled _ ih =>
    by_cases ends : rest = []
    · subst ends
      exact .inr ⟨name :: here, target, walkEntry held named short next⟩
    · rw [walkAcross held named short next filled fun none => absurd none ends]
      exact ih

theorem Leads.undotted {fs : FileSystem} {links : Nat} {here location : Location}
    {parts dotted : List String} (leads : Leads fs links here dotted location)
    (same : dotted = parts ++ ["."]) : Leads fs links here parts location := by
  induction leads generalizing parts with
  | here held => simp at same
  | dot held later ih =>
    cases parts with
    | nil =>
      cases same
      exact later
    | cons first rest =>
      cases same
      exact .dot held (ih rfl)
  | dots held _ ih =>
    cases parts with
    | nil => simp at same
    | cons first rest =>
      cases same
      exact .dots held (ih rfl)
  | down held named short next _ ih =>
    cases parts with
    | nil => exact absurd (List.cons.inj same).1 named.1
    | cons first rest =>
      cases same
      exact .down held named short next (ih rfl)
  | link held named short next filled _ ih =>
    cases parts with
    | nil => exact absurd (List.cons.inj same).1 named.1
    | cons first rest =>
      cases same
      exact .link held named short next filled (ih (List.append_assoc ..).symm)

inductive Finds (fs : FileSystem) : (links : Nat) → (here : Location) → List String → Found →
    Prop where
  | here {links : Nat} {here : Location} {content : Content}
      (held : fs.content? here = some content) : Finds fs links here [] (.at here content)
  | dot {links : Nat} {here : Location} {rest : List String} {found : Found}
      (held : fs.content? here = some .directory) (later : Finds fs links here rest found) :
      Finds fs links here ("." :: rest) found
  | dots {links : Nat} {here : Location} {rest : List String} {found : Found}
      (held : fs.content? here = some .directory) (later : Finds fs links here.tail rest found) :
      Finds fs links here (".." :: rest) found
  | free {links : Nat} {here : Location} {name : String}
      (held : fs.content? here = some .directory) (named : name ≠ "." ∧ name ≠ "..")
      (short : ¬ maxNameBytes < byteLength name) (next : fs.content? (name :: here) = none) :
      Finds fs links here [name] (.missing here name)
  | down {links : Nat} {here : Location} {name : String} {rest : List String} {content : Content}
      {found : Found} (held : fs.content? here = some .directory)
      (named : name ≠ "." ∧ name ≠ "..") (short : ¬ maxNameBytes < byteLength name)
      (next : fs.content? (name :: here) = some content)
      (unlinked : ∀ target, content ≠ .link target)
      (later : Finds fs links (name :: here) rest found) : Finds fs links here (name :: rest) found
  | link {links : Nat} {here : Location} {name target : String} {rest : List String}
      {found : Found} (held : fs.content? here = some .directory)
      (named : name ≠ "." ∧ name ≠ "..") (short : ¬ maxNameBytes < byteLength name)
      (next : fs.content? (name :: here) = some (.link target)) (filled : target ≠ "")
      (later : Finds fs links (if Path.isAbsolute target then [] else here)
        (components target ++ rest) found) : Finds fs (links + 1) here (name :: rest) found

theorem Finds.stopped {fs : FileSystem} {links : Nat} {here : Location} {parts : List String}
    {found : Found} (finds : Finds fs links here parts found) {content : Content}
    (held : fs.content? here = some content) (other : content ≠ .directory) :
    parts = [] ∧ found = .at here content := by
  have directory : fs.content? here ≠ some .directory := by simp [held, other]
  cases finds with
  | here there => exact ⟨rfl, by rw [Option.some.inj (held.symm.trans there)]⟩
  | dot there => exact absurd there directory
  | dots there => exact absurd there directory
  | free there => exact absurd there directory
  | down there => exact absurd there directory
  | link there => exact absurd there directory

theorem walkFinds {fs : FileSystem} {links : Nat} {here : Location} {parts : List String}
    {found : Found} (led : walk fs true links here parts = .ok found) :
    Finds fs links here parts found := by
  induction links, here, parts using walkInduction fs with
  | lost free =>
    rw [walkLost free] at led
    cases led
  | here held =>
    rw [walkHere held] at led
    cases led
    exact .here held
  | blocked held other =>
    rw [walkBlocked held other (by simp)] at led
    cases led
  | dot held ih =>
    rw [walkDot held] at led
    exact .dot held (ih led)
  | dots held ih =>
    rw [walkDots held] at led
    exact .dots held (ih led)
  | missing held named free =>
    rw [walkMissing held named free] at led
    split at led
    · cases led
    rename_i short
    split at led
    · rename_i ends
      cases led
      subst ends
      exact .free held named short free
    · cases led
  | @down links here name rest content held named next unlinked ih =>
    by_cases long : maxNameBytes < byteLength name
    · rw [walkLong held named long] at led
      cases led
    rw [walkDown held named long next unlinked] at led
    exact .down held named long next unlinked (ih led)
  | @link links here name target rest held named next ih =>
    rw [walkAtLink held named next fun _ => rfl] at led
    split at led
    · cases led
    rename_i short
    split at led
    · cases led
    rename_i filled
    cases links with
    | zero => cases led
    | succ fewer => exact .link held named short next filled (ih fewer rfl led)

theorem walkLeads {fs : FileSystem} {links : Nat} {here location : Location} {parts : List String}
    (led : walk fs true links here parts = .ok (.at location .directory)) :
    Leads fs links here parts location := by
  replace led := walkFinds led
  generalize ends : Found.at location .directory = found at led
  induction led with
  | here held =>
    cases ends
    exact .here held
  | dot held _ ih => exact .dot held (ih ends)
  | dots held _ ih => exact .dots held (ih ends)
  | free => cases ends
  | @down _ _ _ _ content _ held named short next _ later ih =>
    by_cases directory : content = .directory
    · subst directory
      exact .down held named short next (ih ends)
    · obtain ⟨_, rfl⟩ := later.stopped next directory
      cases ends
      exact absurd rfl directory
  | link held named short next filled _ ih => exact .link held named short next filled (ih ends)

structure KeepsWays (before after : FileSystem) : Prop where
  current : after.current = before.current
  ways : ∀ location content, content.leadsOn = true → before.content? location = some content →
    after.content? location = some content

theorem KeepsWays.start {before after : FileSystem} (kept : KeepsWays before after)
    (path : String) : after.startOf path = before.startOf path := by
  simp [startOf, kept.current]

theorem Leads.kept {before after : FileSystem} (kept : KeepsWays before after) {links : Nat}
    {here location : Location} {parts : List String}
    (leads : Leads before links here parts location) :
    Leads after links here parts location := by
  have directory : ∀ place, before.content? place = some .directory →
      after.content? place = some .directory := fun place => kept.ways place _ rfl
  induction leads with
  | here held => exact .here (directory _ held)
  | dot held _ ih => exact .dot (directory _ held) ih
  | dots held _ ih => exact .dots (directory _ held) ih
  | down held named short next _ ih => exact .down (directory _ held) named short (directory _ next) ih
  | link held named short next filled _ ih =>
    exact .link (directory _ held) named short (kept.ways _ _ rfl next) filled ih

theorem walkKept {before after : FileSystem} (kept : KeepsWays before after) {links : Nat}
    {here location : Location} {parts : List String}
    (led : walk before true links here parts = .ok (.at location .directory)) :
    walk after true links here parts = .ok (.at location .directory) :=
  ((walkLeads led).kept kept).walked

def StoppedAt (target : Location) (data : Bytes) (led : Except Fault Found) : Prop :=
  led = .ok (.at target (.file data)) ∨ led = .error .notDirectory

theorem Leads.replaced {before after : FileSystem} {target : Location} {data : Bytes}
    (others : ∀ location, location ≠ target → after.content? location = before.content? location)
    (held : after.content? target = some (.file data))
    (replaceable : before.content? target ≠ some .directory) {links : Nat}
    {here location : Location} {parts : List String}
    (leads : Leads before links here parts location) :
    Leads after links here parts location ∨
      StoppedAt target data (walk after true links here parts) := by
  have directory : ∀ place, before.content? place = some .directory →
      after.content? place = some .directory := by
    intro place found
    rw [others place, found]
    rintro rfl
    exact replaceable found
  induction leads with
  | here held => exact .inl (.here (directory _ held))
  | dot held _ ih =>
    rw [walkDot (directory _ held)]
    exact ih.imp_left (.dot (directory _ held))
  | dots held _ ih =>
    rw [walkDots (directory _ held)]
    exact ih.imp_left (.dots (directory _ held))
  | down held named short next _ ih =>
    rw [walkDown (directory _ held) named short (directory _ next) (by simp)]
    exact ih.imp_left (.down (directory _ held) named short (directory _ next))
  | @link links here location name link rest held' named short next filled _ ih =>
    by_cases same : name :: here = target
    · rw [← same] at held ⊢
      refine .inr ?_
      rw [walkDown (directory _ held') named short held (by simp)]
      cases rest with
      | nil => exact .inl (walkHere held)
      | cons further rest => exact .inr (walkBlocked held (by simp) (by simp))
    · have linked : after.content? (name :: here) = some (.link link) := by rw [others _ same, next]
      rw [walkLink (directory _ held') named short linked filled]
      exact ih.imp_left (.link (directory _ held') named short linked filled)

def Found.enter (fs : FileSystem) (name : String) : Found → Except Fault Found
  | .missing _ _ => .error .notFound
  | .at location .directory =>
    if maxNameBytes < byteLength name then .error .nameTooLong
    else
      match fs.content? (name :: location) with
      | none => .ok (.missing location name)
      | some content => .ok (.at (name :: location) content)
  | .at _ _ => .error .notDirectory

theorem walkOne {fs : FileSystem} {name : String} (named : name ≠ "." ∧ name ≠ "..")
    {follow : Bool} {links : Nat} {here : Location} (held : fs.content? here = some .directory)
    (unlinked : ∀ target, fs.content? (name :: here) ≠ some (.link target)) :
    walk fs follow links here [name] = Found.enter fs name (.at here .directory) := by
  rw [Found.enter]
  by_cases long : maxNameBytes < byteLength name
  · rw [walkLong held named long, if_pos long]
  rw [if_neg long]
  cases next : fs.content? (name :: here) with
  | none => rw [walkMissing held named next, if_neg long, if_pos rfl]
  | some content =>
    rw [walkDown held named long next fun target linked => unlinked target (linked ▸ next),
      walkHere next]

theorem walkLast {fs : FileSystem} {name : String} (named : name ≠ "." ∧ name ≠ "..")
    {follow : Bool} {links : Nat} {here : Location} {front : List String}
    (unlinked : ∀ directory target,
      walk fs true links here front = .ok (.at directory .directory) →
      fs.content? (name :: directory) ≠ some (.link target)) :
    walk fs follow links here (front ++ [name]) =
      (walk fs true links here front).bind (Found.enter fs name) := by
  have going : ∀ rest : List String, rest ++ [name] = [] → follow = true := by simp
  induction links, here, front using walkInduction fs with
  | lost free => rw [walkLost free, walkLost free, Except.bind]
  | @here links here content held =>
    rw [walkHere held, Except.bind, List.nil_append]
    by_cases directory : content = .directory
    · subst directory
      exact walkOne named held fun target => unlinked here target (walkHere held)
    · rw [walkBlocked held directory (by simp)]
      cases content <;> first | rfl | contradiction
  | blocked held other =>
    rw [walkBlocked held other (by simp), walkBlocked held other (by simp), Except.bind]
  | dot held ih =>
    rw [walkDot held] at unlinked ⊢
    rw [List.cons_append, walkDot held]
    exact ih unlinked
  | dots held ih =>
    rw [walkDots held] at unlinked ⊢
    rw [List.cons_append, walkDots held]
    exact ih unlinked
  | missing held named' free =>
    rw [List.cons_append, walkMissing held named' free, walkMissing held named' free,
      if_neg (show ¬ _ ++ [name] = [] by simp)]
    split
    · rfl
    · split <;> rfl
  | @down links here first rest content held named' next plain ih =>
    rw [List.cons_append]
    by_cases long : maxNameBytes < byteLength first
    · rw [walkLong held named' long, walkLong held named' long, Except.bind]
    rw [walkDown held named' long next plain] at unlinked ⊢
    rw [walkDown held named' long next plain]
    exact ih unlinked
  | @link links here first target rest held named' next ih =>
    rw [walkAtLink held named' next fun _ => rfl] at unlinked ⊢
    rw [List.cons_append, walkAtLink held named' next (going rest)]
    by_cases long : maxNameBytes < byteLength first
    · rw [if_pos long, if_pos long, Except.bind]
    by_cases empty : target = ""
    · rw [if_neg long, if_neg long, if_pos empty, if_pos empty, Except.bind]
    rw [if_neg long, if_neg empty] at unlinked ⊢
    rw [if_neg long, if_neg empty]
    cases links with
    | zero => rfl
    | succ fewer =>
      rw [← List.append_assoc]
      exact ih fewer rfl unlinked

end FileSystem

end SourceModels
