import SourceModels.Proofs.FileSystem.Descent
import SourceModels.Proofs.FileSystem.Files

/-! Making the directories of a path below another that leads to a directory: what is missing is
made name by name from there. -/
namespace SourceModels.FileSystem

section
variable {fs : FileSystem} {links : Nat} {here middle location : Location}
  {parts more : List String}

theorem Leads.append (leads : Leads fs links here parts middle)
    (later : ∀ links, Leads fs links middle more location) :
    Leads fs links here (parts ++ more) location := by
  induction leads with
  | here held => exact later _
  | dot held _ ih => exact .dot held (ih later)
  | dots held _ ih => exact .dots held (ih later)
  | down held named short next _ ih => exact .down held named short next (ih later)
  | link held named short next filled _ ih =>
    exact .link held named short next filled (by simpa using ih later)

theorem Leads.start (leads : Leads fs links here parts location) :
    fs.content? here = some .directory := by
  cases leads <;> assumption

theorem Leads.ends (leads : Leads fs links here parts location) :
    fs.content? location = some .directory := by
  induction leads with
  | here held => exact held
  | dot _ _ ih => exact ih
  | dots _ _ ih => exact ih
  | down _ _ _ _ _ ih => exact ih
  | link _ _ _ _ _ _ ih => exact ih

theorem Leads.through {whole : List String} (leads : Leads fs links here whole location)
    (same : whole = parts ++ more) :
    ∃ middle fewer, Leads fs links here parts middle ∧ Leads fs fewer middle more location := by
  induction leads generalizing parts with
  | here held =>
    obtain ⟨rfl, rfl⟩ := List.append_eq_nil_iff.mp same.symm
    exact ⟨_, 0, .here held, .here held⟩
  | dot held later ih =>
    cases parts with
    | nil =>
      cases same
      exact ⟨_, _, .here held, .dot held later⟩
    | cons first rest =>
      cases same
      obtain ⟨middle, fewer, led, onward⟩ := ih rfl
      exact ⟨middle, fewer, .dot held led, onward⟩
  | dots held later ih =>
    cases parts with
    | nil =>
      cases same
      exact ⟨_, _, .here held, .dots held later⟩
    | cons first rest =>
      cases same
      obtain ⟨middle, fewer, led, onward⟩ := ih rfl
      exact ⟨middle, fewer, .dots held led, onward⟩
  | down held named short next later ih =>
    cases parts with
    | nil =>
      cases same
      exact ⟨_, _, .here held, .down held named short next later⟩
    | cons first rest =>
      cases same
      obtain ⟨middle, fewer, led, onward⟩ := ih rfl
      exact ⟨middle, fewer, .down held named short next led, onward⟩
  | link held named short next filled later ih =>
    cases parts with
    | nil =>
      cases same
      exact ⟨_, _, .here held, .link held named short next filled later⟩
    | cons first rest =>
      cases same
      obtain ⟨middle, fewer, led, onward⟩ := ih (List.append_assoc ..).symm
      exact ⟨middle, fewer, .link held named short next filled led, onward⟩

theorem Leads.lastHeld {last : String} (leads : Leads fs links here (parts ++ [last]) location)
    (named : last ≠ "." ∧ last ≠ "..") : ¬ maxNameBytes < byteLength last ∧
      ∃ directory content, Leads fs links here parts directory ∧
        fs.content? (last :: directory) = some content := by
  obtain ⟨directory, _, led, onward⟩ := leads.through rfl
  cases onward with
  | dot => exact absurd rfl named.1
  | dots => exact absurd rfl named.2
  | down _ _ short next => exact ⟨short, directory, _, led, next⟩
  | link _ _ short next => exact ⟨short, directory, _, led, next⟩

theorem Leads.undottedAll {dots : List String} (leads : Leads fs links here (parts ++ dots) location)
    (dotted : ∀ name ∈ dots, name = ".") : Leads fs links here parts location := by
  induction dots generalizing parts with
  | nil => simpa using leads
  | cons name rest ih =>
    have dot := dotted name List.mem_cons_self
    rw [List.append_cons] at leads
    exact (ih leads fun other inside => dotted other (List.mem_cons_of_mem _ inside)).undotted
      (by rw [dot])

theorem leadsDotted {dots : List String} (held : fs.content? here = some .directory)
    (dotted : ∀ name ∈ dots, name = ".") : Leads fs links here dots here := by
  induction dots with
  | nil => exact .here held
  | cons name rest ih =>
    rw [dotted name List.mem_cons_self]
    exact .dot held (ih fun other inside => dotted other (List.mem_cons_of_mem _ inside))

theorem enteredStopped {content : Content} (held : fs.content? here = some content)
    (other : content ≠ .directory) :
    entered (walk fs true links here parts) = .error .notDirectory := by
  cases parts with
  | nil =>
    rw [walkHere held]
    cases content <;> simp_all [entered]
  | cons name rest =>
    rw [walkBlocked held other (by simp)]
    rfl

theorem enteredBelow (held : fs.content? here = some .directory)
    (unlinked : ∀ below target, fs.content? (below ++ here) ≠ some (.link target))
    (within : ".." ∉ parts) (links : Nat) :
    entered (walk fs true links here parts) = fs.enterBelow here (plainNames parts) := by
  induction parts generalizing here with
  | nil =>
    rw [walkHere held]
    rfl
  | cons name rest ih =>
    have later : ".." ∉ rest := fun inside => within (List.mem_cons_of_mem _ inside)
    by_cases dot : name = "."
    · subst dot
      rw [walkDot held, ih held unlinked later]
      rfl
    have named : name ≠ "." ∧ name ≠ ".." :=
      ⟨dot, fun same => within (same ▸ List.mem_cons_self)⟩
    have first : plainNames (name :: rest) = name :: plainNames rest := by
      simp [plainNames, dot]
    rw [first, enterBelow]
    split
    · rename_i long
      rw [walkLong held named long, FileSystem.entered]
    rename_i short
    split
    · rename_i free
      rw [walkMissing held named free, if_neg short]
      cases rest <;> rfl
    · rename_i next
      rw [walkDown held named short next (by simp)]
      refine ih next (fun below target => ?_) later
      have further := unlinked (below ++ [name]) target
      rwa [List.append_assoc] at further
    · rename_i content other next
      have plain : ∀ target, content ≠ .link target := by
        rintro target rfl
        exact unlinked [name] target next
      rw [walkDown held named short next plain]
      exact enteredStopped next other

theorem leadsBelow (held : fs.content? here = some .directory) (within : ".." ∉ parts)
    (through : fs.enterBelow here (plainNames parts) = .ok location) (links : Nat) :
    Leads fs links here parts location := by
  induction parts generalizing here with
  | nil =>
    cases through
    exact .here held
  | cons name rest ih =>
    have later : ".." ∉ rest := fun inside => within (List.mem_cons_of_mem _ inside)
    by_cases dot : name = "."
    · subst dot
      exact .dot held (ih held later through)
    have named : name ≠ "." ∧ name ≠ ".." :=
      ⟨dot, fun same => within (same ▸ List.mem_cons_self)⟩
    have first : plainNames (name :: rest) = name :: plainNames rest := by
      simp [plainNames, dot]
    simp only [first, enterBelow] at through
    split at through
    · cases through
    rename_i short
    split at through
    · cases through
    · rename_i next
      exact .down held named short next (ih next later through)
    · cases through

end

section
variable {fs : FileSystem} {path : String} {location : Location}

theorem findParentEntered (checked : checkPath path = .ok ()) (short : checkLength path = .ok ()) :
    fs.findParent path =
      (entered (walk fs true maxLinks (fs.startOf path) (names path).dropLast)).bind
        fun directory => (lastOf (names path)).map (directory, ·) := by
  simp only [findParent, checked, short, bind, Except.bind]
  cases walk fs true maxLinks (fs.startOf path) (names path).dropLast with
  | error fault => rfl
  | ok found =>
    cases found with
    | missing directory name => rfl
    | «at» place content =>
      cases content <;>
        simp [existing, entered, Content.isDirectory, pure, Except.pure, Except.map]

theorem ledComponents (led : Leads fs maxLinks (fs.startOf path) (names path) location) :
    Leads fs maxLinks (fs.startOf path) (components path) location := by
  unfold components
  split
  · exact led.append fun _ => leadsDotted led.ends (by simp)
  · exact led

theorem ledPresent (checked : checkPath path = .ok ()) (short : checkLength path = .ok ())
    (led : Leads fs maxLinks (fs.startOf path) (names path) location) :
    fs.orPresent path (fs.makeDirectory path) = .ok fs := by
  have directory : fs.isDirectory path = true := by
    simp [isDirectory, status, find, checked, short, (ledComponents led).walked, existing,
      Except.map, Content.isDirectory, bind, Except.bind]
  have present : fs.makeDirectory path = .error .alreadyExists := by
    rw [makeDirectory, findParentEntered checked short]
    rcases List.eq_nil_or_concat (names path) with none | ⟨front, last, split⟩
    · rw [none] at led ⊢
      rw [List.dropLast_nil, walkHere led.start]
      rfl
    rw [List.concat_eq_append] at split
    rw [split] at led ⊢
    rw [List.dropLast_concat]
    by_cases named : last ≠ "." ∧ last ≠ ".."
    · obtain ⟨within, place, content, upper, held⟩ := led.lastHeld named
      simp [upper.walked, entered, lastShort named within, Except.map, Except.bind, bind, held]
    · obtain ⟨place, _, upper, _⟩ := led.through rfl
      have unnamed : lastOf (front ++ [last]) = .ok .noName := by
        have either : last = "." ∨ last = ".." := by
          by_cases dot : last = "." <;> simp_all
        simp [lastOf, either]
      simp [upper.walked, entered, unnamed, Except.map, Except.bind, bind]
  rw [present, orPresent, directory, if_pos rfl]

theorem ledMade (fuel : Nat) (led : path ≠ "" → checkPath path = .ok () ∧
      checkLength path = .ok () ∧ Leads fs maxLinks (fs.startOf path) (names path) location) :
    makeAll .sound fuel fs path = (fs, .ok ()) := by
  cases fuel with
  | zero => rfl
  | succ fuel =>
    unfold makeAll
    by_cases empty : path = ""
    · have none : Path.parent? "" = none := by decide
      subst empty
      rw [none]
    · obtain ⟨checked, short, leads⟩ := led empty
      simp only [makeSound, ledPresent checked short leads]
      split <;> rfl

end

theorem textAbove {path above : String} (start : above.toList <+: path.toList) (filled : above ≠ "")
    (checked : checkPath path = .ok ()) (short : checkLength path = .ok ()) :
    checkPath above = .ok () ∧ checkLength above = .ok () ∧
      Path.isAbsolute above = Path.isAbsolute path := by
  obtain ⟨rest, text⟩ := start
  refine ⟨?_, ?_, ?_⟩
  · have noNul : '\x00' ∉ above.toList := by
      intro inside
      have whole : '\x00' ∈ path.toList := text ▸ List.mem_append_left _ inside
      simp [checkPath, whole] at checked
    simp [checkPath, noNul, filled]
  · have within := byteLengthPrefix ⟨rest, text⟩
    unfold checkLength at short ⊢
    split at short
    · contradiction
    · rw [if_neg (by omega)]
  · cases chars : above.toList with
    | nil => exact absurd (String.toList_eq_nil_iff.mp chars) filled
    | cons c more => simp [Path.isAbsolute, ← text, chars]

theorem trimmedSplit {path last : String} {front dots more : List String}
    (trimmed : Path.Trimmed path.toList) (same : names path ++ dots = front ++ last :: more)
    (named : last ≠ ".") (dotted : ∀ name ∈ dots, name = ".") (later : ∀ name ∈ more, name = ".") :
    names path = front ++ [last] := by
  rw [List.append_cons] at same
  rcases List.append_eq_append_iff.mp same with ⟨extra, longer, rest⟩ | ⟨extra, longer, rest⟩
  · rcases List.eq_nil_or_concat extra with rfl | ⟨before, final, rfl⟩
    · simpa using longer.symm
    · rw [List.concat_eq_append, ← List.append_assoc] at longer
      obtain ⟨rfl⟩ := List.singleton_inj.mp (List.append_inj' longer rfl).2
      exact absurd (dotted last (by simp [rest])) named
  · rcases List.eq_nil_or_concat extra with rfl | ⟨before, final, rfl⟩
    · simpa using longer
    · have dot : final = "." := later final (by simp [rest])
      subst dot
      rw [List.concat_eq_append] at longer
      have unlike : names path ≠ ["."] := by
        intro single
        have count := congrArg List.length (longer.symm.trans single)
        simp at count
        omega
      have ends : (names path).getLast? = some "." := by
        rw [longer, ← List.append_assoc, List.getLast?_concat]
      rcases trimmed.undotted with single | other
      · exact absurd (by simp [names, single]) unlike
      · rw [names, List.getLast?_map, Option.map_eq_some_iff] at ends
        obtain ⟨part, final, dot⟩ := ends
        rw [← String.toList_inj, String.toList_ofList] at dot
        subst dot
        exact absurd final other

structure Below (output path : String) (between : List String) (last : String) : Prop where
  split : names path = names output ++ between ++ [last]
  within : ".." ∉ between
  named : last ≠ "." ∧ last ≠ ".."
  start : Path.isAbsolute path = Path.isAbsolute output
  ends : hasTrailingSlash path = false

namespace Ground

variable {fs after : FileSystem} {output : String} {top : Location}

theorem held (ground : Ground fs output top) : fs.content? top = some .directory :=
  ground.leads.ends

theorem kept (ground : Ground fs output top) (ways : KeepsWays fs after)
    (unlinked : ∀ below target, after.content? (below ++ top) ≠ some (.link target))
    (nested : Nested after) : Ground after output top where
  checked := ground.checked
  leads := by
    rw [ways.start]
    exact ground.leads.kept ways
  unlinked := unlinked
  nested := nested

theorem made (ground : Ground fs output top) {names : List String}
    (made : MadeBelow fs after top names) : Ground after output top := by
  refine ground.kept ⟨made.outside.current, fun _ _ _ => made.directories⟩ ?_
    (made.nested ground.held ground.nested)
  intro below target linked
  rcases made.added (below ++ top) with kept | ⟨_, directory, _⟩
  · exact ground.unlinked below target (kept ▸ linked)
  · rw [directory] at linked
    cases linked

theorem filePut (ground : Ground fs output top) {name : String} {below : List String}
    (up : fs.content? (below ++ top) = some .directory)
    (clear : fs.content? (name :: (below ++ top)) ≠ some .directory) (data : Bytes) :
    Ground (fs.put (name :: (below ++ top)) (.file data)) output top := by
  have ways : KeepsWays fs (fs.put (name :: (below ++ top)) (.file data)) := by
    refine ⟨rfl, fun location content leads held => ?_⟩
    rw [contentPut, if_neg]
    · exact held
    · rintro rfl
      cases content with
      | directory => exact clear held
      | link target => exact ground.unlinked (name :: below) target held
      | _ => cases leads
  refine ground.kept ways ?_ ?_
  · intro further target linked
    rw [contentPut] at linked
    split at linked
    · cases linked
    · exact ground.unlinked further target linked
  · intro other directory content found
    rw [contentPut] at found ⊢
    have above : fs.content? directory = some .directory := by
      split at found
      · rename_i here
        rw [(List.cons.inj here).2]
        exact up
      · exact ground.nested other directory content found
    rw [if_neg]
    · exact above
    · rintro rfl
      exact clear above

theorem entered (ground : Ground fs output top) {below : List String} (within : ".." ∉ below) :
    entered (walk fs true maxLinks (fs.startOf output) (names output ++ below)) =
      fs.enterBelow top (plainNames below) := by
  by_cases more : below = []
  · subst more
    rw [List.append_nil, ground.leads.walked]
    rfl
  · obtain ⟨fewer, on⟩ := ground.leads.onward
    rw [on true below more]
    exact enteredBelow ground.held ground.unlinked within fewer

theorem leadsTo (ground : Ground fs output top) {below : List String} (within : ".." ∉ below)
    {location : Location} (through : fs.enterBelow top (plainNames below) = .ok location) :
    Leads fs maxLinks (fs.startOf output) (names output ++ below) location :=
  ground.leads.append fun links => leadsBelow ground.held within through links

theorem findBelow (ground : Ground fs output top) {path last : String} {between : List String}
    (below : Below output path between last) (checked : checkPath path = .ok ())
    (short : checkLength path = .ok ()) (follow : Bool) :
    fs.find follow path = (fs.enterBelow top (plainNames between)).bind
      fun directory => Found.enter fs last (.at directory .directory) := by
  have start : fs.startOf path = fs.startOf output := by simp only [startOf, below.start]
  have parts : components path = names output ++ between ++ [last] := by
    rw [components, below.ends, below.split]
    simp
  have unlinked : ∀ directory target,
      walk fs true maxLinks (fs.startOf output) (names output ++ between) =
        .ok (.at directory .directory) →
      fs.content? (last :: directory) ≠ some (.link target) := by
    intro directory target led
    have through := ground.entered below.within
    rw [led] at through
    rw [enterBelowPlace through.symm]
    exact ground.unlinked (last :: (plainNames between).reverse) target
  have enter : ∀ found : Except Fault Found, found.bind (Found.enter fs last) =
      (FileSystem.entered found).bind
        fun directory => Found.enter fs last (.at directory .directory) := by
    rintro (fault | ⟨place, content⟩ | _)
    · rfl
    · cases content <;> rfl
    · rfl
  simp only [find, checked, short, parts, start, bind, Except.bind]
  rw [walkLast below.named unlinked, enter, ground.entered below.within]
  rfl

theorem presentBelow (ground : Ground fs output top) {path last : String} {between : List String}
    (below : Below output path between last) (checked : checkPath path = .ok ())
    (short : checkLength path = .ok ()) :
    fs.orPresent path (fs.makeDirectory path) =
      match fs.enterBelow top (plainNames between) with
      | .error fault => .error fault
      | .ok directory =>
        match fs.makeBelow directory [last] with
        | (made, .ok ()) => .ok made
        | (_, .error fault) => .error fault := by
  have start : fs.startOf path = fs.startOf output := by simp only [startOf, below.start]
  have parent := @findParentEntered fs path checked short
  rw [below.split, List.dropLast_concat, start, ground.entered below.within] at parent
  cases through : fs.enterBelow top (plainNames between) with
  | error fault =>
    have lost : fs.makeDirectory path = .error fault := by
      simp [makeDirectory, parent, through, Except.bind, bind]
    rw [lost]
    rcases enterBelowFault through with rfl | rfl | rfl <;> rfl
  | ok directory =>
    by_cases long : maxNameBytes < byteLength last
    · have refused : lastOf (names output ++ between ++ [last]) = .error .nameTooLong := by
        simp [lastOf, below.named, long]
      have parent' : fs.findParent path = .error .nameTooLong := by
        rw [parent, through, refused]
        rfl
      simp [makeDirectory, parent', bind, Except.bind, orPresent, makeBelow, long]
    have parent' : fs.findParent path = .ok (directory, .name last) := by
      rw [parent, through, lastShort below.named long]
      rfl
    cases next : fs.content? (last :: directory) with
    | none =>
      simp [makeDirectory, parent', next, bind, Except.bind, pure, Except.pure, orPresent, makeBelow,
        long]
    | some content =>
      have there : fs.makeDirectory path = .error .alreadyExists := by
        simp [makeDirectory, parent', next, bind, Except.bind]
      have found : fs.status path = .ok content := by
        simp [status, ground.findBelow below checked short, through, Found.enter, long, next,
          existing, Except.map, Except.bind]
      rw [there]
      cases content <;>
        simp [orPresent, isDirectory, found, Content.isDirectory, makeBelow, long, next]

theorem makesLast (ground : Ground fs output top) {fuel : Nat} {path above last : String}
    {between : List String} (below : Below output path between last)
    (checked : checkPath path = .ok ()) (short : checkLength path = .ok ())
    (found : Path.parent? path = some above)
    (higher : makeAll .sound fuel fs above = fs.makeBelow top (plainNames between)) :
    makeAll .sound (fuel + 1) fs path = fs.makeBelow top (plainNames between ++ [last]) := by
  simp only [makeAll, found, makeSound, ground.presentBelow below checked short, higher]
  cases through : fs.enterBelow top (plainNames between) with
  | error fault =>
    by_cases missing : fault = .notFound
    · subst missing
      rw [makeBelowOn ground.nested through]
      have added := madeBelow fs top (plainNames between)
      cases made : fs.makeBelow top (plainNames between) with
      | mk halfway result =>
        rw [made] at added
        cases result with
        | error fault => rfl
        | ok _ =>
          simp only [(ground.made added).presentBelow below checked short, makeBelowDone made,
            andBelow]
          rcases makeOne halfway ((plainNames between).reverse ++ top) last with
            ⟨done, one⟩ | ⟨fault, one, _⟩ <;> rw [one]
    · rw [makeBelowBlocked through missing (by simp)]
      split <;> simp_all
  | ok directory =>
    rw [makeBelowThrough through]
    rcases makeOne fs directory last with ⟨done, one⟩ | ⟨fault, one, other⟩
    · simp only [one]
    · simp only [one]

theorem makesBelow (ground : Ground fs output top) {fuel : Nat} {path : String}
    {below dots : List String} (plenty : path.toList.length < fuel)
    (texts : path ≠ "" → checkPath path = .ok () ∧ checkLength path = .ok () ∧
      Path.isAbsolute path = Path.isAbsolute output)
    (trimmed : Path.Trimmed path.toList) (split : names path ++ dots = names output ++ below)
    (dotted : ∀ name ∈ dots, name = ".") (within : ".." ∉ below) :
    makeAll .sound fuel fs path = fs.makeBelow top (plainNames below) := by
  induction fuel generalizing path below dots with
  | zero => exact absurd plenty (Nat.not_lt_zero _)
  | succ fuel ih =>
    by_cases plain : plainNames below = []
    · rw [plain]
      refine @ledMade fs path top _ fun filled => ?_
      obtain ⟨checked, short, start⟩ := texts filled
      have led := ground.leads.append fun _ =>
        leadsDotted ground.held (plainNamesNone.mp plain)
      rw [← split] at led
      have same : fs.startOf path = fs.startOf output := by simp only [startOf, start]
      exact ⟨checked, short, same ▸ led.undottedAll dotted⟩
    obtain ⟨front, last, more, rfl, named, later, parts⟩ := plainNamesLast plain
    rw [← List.append_assoc] at split
    have whole := trimmedSplit trimmed split named dotted later
    have filled : path ≠ "" := by
      rintro rfl
      have none : names "" = [] := by decide
      simp [none] at whole
    obtain ⟨checked, short, absolute⟩ := texts filled
    have ends : hasTrailingSlash path = false := by
      simp only [hasTrailingSlash, beq_eq_false_iff_ne]
      intro slash
      simp [names, trimmed.ends slash] at whole
    have within' : ".." ∉ front := fun inside => within (by simp [inside])
    have named' : last ≠ "." ∧ last ≠ ".." := ⟨named, fun same => within (by simp [same])⟩
    cases found : Path.parent? path with
    | none => exact absurd (Path.parentNone found last (by simp [whole])) named
    | some above =>
      obtain ⟨dots', upper, dotted'⟩ := Path.parentNames found whole named
      obtain ⟨_, prefix', shorter, trimmed', _⟩ := Path.parentParts found
      have higher := @ih above front dots' (Nat.lt_of_lt_of_le shorter (Nat.le_of_lt_succ plenty))
        (fun some' => by
          obtain ⟨checked', short', same⟩ := textAbove prefix' some' checked short
          exact ⟨checked', short', same.trans absolute⟩)
        trimmed' upper.symm dotted' within'
      rw [parts]
      exact ground.makesLast ⟨whole, within', named', absolute, ends⟩ checked short found higher

end Ground

end SourceModels.FileSystem
