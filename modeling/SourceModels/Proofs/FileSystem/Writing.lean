import SourceModels.Proofs.FileSystem.Files

/-! A path that leads to a file, or to a place where there is none yet, leads there as long as the
directories and links stay. So a file that is written through a path is read through it. -/
namespace SourceModels.FileSystem

def Found.place : Found → Location
  | .at location _ => location
  | .missing directory name => name :: directory

def Found.content? : Found → Option Content
  | .at _ content => some content
  | .missing _ _ => none

def FoundAgain (fs : FileSystem) (found : Found) (led : Except Fault Found) : Prop :=
  ∀ content, fs.content? found.place = some content →
    (∀ target, content = .link target → found.content? = some content) →
    led = .ok (.at found.place content)

section
variable {before after : FileSystem} {found : Found}

theorem lastAgain {links : Nat} {here : Location} {name : String}
    (held : after.content? here = some .directory) (named : name ≠ "." ∧ name ≠ "..")
    (short : ¬ maxNameBytes < byteLength name) (place : found.place = name :: here)
    (unlinked : ∀ target, found.content? ≠ some (.link target)) :
    FoundAgain after found (walk after true links here [name]) := by
  intro content there same
  have plain : ∀ target, content ≠ .link target := by
    rintro target rfl
    exact unlinked target (same target rfl)
  rw [place] at there ⊢
  rw [walkDown held named short there plain, walkHere there]

theorem walkAgain (kept : KeepsWays before after) {links : Nat} {here : Location}
    {parts : List String} (led : walk before true links here parts = .ok found) :
    before.content? found.place = found.content? ∧
      FoundAgain after found (walk after true links here parts) := by
  have directory : ∀ place, before.content? place = some .directory →
      after.content? place = some .directory := fun place => kept.ways place _ rfl
  replace led := walkFinds led
  induction led with
  | here held =>
    refine ⟨held, fun later there _ => ?_⟩
    exact walkHere there
  | dot held _ ih =>
    rw [walkDot (directory _ held)]
    exact ih
  | dots held _ ih =>
    rw [walkDots (directory _ held)]
    exact ih
  | free held named short next =>
    exact ⟨next, lastAgain (directory _ held) named short rfl (by simp [Found.content?])⟩
  | @down _ _ _ _ content _ held named short next unlinked later ih =>
    by_cases onward : content.leadsOn = true
    · rw [walkDown (directory _ held) named short (kept.ways _ _ onward next) unlinked]
      exact ih
    · -- such a thing ends the path, and whatever is there by now ends it again
      have other : content ≠ .directory := by
        rintro rfl
        exact onward rfl
      obtain ⟨rfl, rfl⟩ := later.stopped next other
      refine ⟨next, lastAgain (directory _ held) named short rfl ?_⟩
      exact fun target same => unlinked target (Option.some.inj same)
  | link held named short next filled _ ih =>
    rw [walkLink (directory _ held) named short (kept.ways _ _ rfl next) filled]
    exact ih

theorem findAgain (kept : KeepsWays before after) {path : String}
    (led : before.find true path = .ok found) :
    before.content? found.place = found.content? ∧
      FoundAgain after found (after.find true path) := by
  simp only [find, bind, Except.bind] at led ⊢
  split at led
  · contradiction
  split at led
  · contradiction
  rw [kept.start]
  exact walkAgain kept led

end

section
variable {fs after : FileSystem} {path : String} {data : Bytes}

theorem statusFound {found : Found} (led : fs.find true path = .ok found) {content : Content} :
    fs.status path = .ok content ↔ found = .at found.place content := by
  cases found <;> simp [status, led, existing, Except.map, Found.place]

theorem DirectoriesAdded.read {made : String} (added : DirectoriesAdded fs after made)
    (read : fs.readBytes path = .ok data) : after.readBytes path = .ok data := by
  cases led : fs.find true path with
  | error fault =>
    rw [unread led] at read
    contradiction
  | ok found =>
    cases found with
    | missing directory name =>
      simp [readBytes, status, led, existing, Except.map, bind, Except.bind] at read
    | «at» location content =>
      obtain ⟨held, again⟩ := findAgain added.keepsWays led
      have same := again content (added.kept _ _ held) fun _ _ => rfl
      simp only [readBytes, status, led] at read
      simp only [readBytes, status, same]
      exact read

theorem putKeeps {place : Location} (below : place ≠ [])
    (unled : ∀ content, fs.content? place = some content → content.leadsOn = false) :
    KeepsWays fs (fs.put place (.file data)) := by
  obtain ⟨name, directory, rfl⟩ := List.exists_cons_of_ne_nil below
  refine ⟨rfl, fun location content leads held => ?_⟩
  rw [contentPut, if_neg]
  · exact held
  · rintro rfl
    rw [unled content held] at leads
    contradiction

def FilePlace (fs : FileSystem) (path : String) : Prop :=
  ∀ content, fs.status path = .ok content → ∃ data, content = .file data

theorem placeHolds {found : Found} (led : fs.find true path = .ok found) :
    fs.content? found.place = found.content? :=
  (findAgain ⟨rfl, fun _ _ _ held => held⟩ led).1

theorem FilePlace.free (place : FilePlace fs path) {found : Found}
    (led : fs.find true path = .ok found) :
    found.content? = none ∨ ∃ old, found.content? = some (.file old) := by
  cases found with
  | missing directory name => exact .inl rfl
  | «at» location content =>
    obtain ⟨old, same⟩ := place content ((statusFound led).mpr rfl)
    exact .inr ⟨old, congrArg some same⟩

theorem writtenFound (written : fs.writeFile path data = .ok after) :
    ∃ found, fs.find true path = .ok found ∧
      ((found.content? = none ∨ ∃ old, found.content? = some (.file old)) →
        after = fs.put found.place (.file data)) := by
  simp only [writeFile, bind, Except.bind] at written
  split at written
  · split at written <;> contradiction
  split at written
  · contradiction
  rename_i found led
  refine ⟨found, led, ?_⟩
  rintro (none | ⟨old, file⟩)
  · cases found with
    | missing directory name => exact (Except.ok.inj written).symm
    | «at» location content => contradiction
  · cases found with
    | missing directory name => contradiction
    | «at» location content =>
      cases Option.some.inj file
      exact (Except.ok.inj written).symm

theorem FilePlace.written (place : FilePlace fs path)
    (written : fs.writeFile path data = .ok after) : after.readBytes path = .ok data := by
  obtain ⟨found, led, put⟩ := writtenFound written
  have held := placeHolds led
  have free := place.free led
  have below : found.place ≠ [] := by
    intro root
    rw [root] at held
    rcases free with none | ⟨old, file⟩
    · exact nomatch held.trans none
    · exact nomatch held.trans file
  have unled : ∀ content, fs.content? found.place = some content → content.leadsOn = false := by
    intro content there
    rw [held] at there
    rcases free with none | ⟨old, file⟩
    · exact nomatch none.symm.trans there
    · cases Option.some.inj (file.symm.trans there)
      rfl
  have there : after.content? found.place = some (.file data) := by
    obtain ⟨name, directory, same⟩ := List.exists_cons_of_ne_nil below
    rw [put free, same, contentPut, if_pos rfl]
  have kept : KeepsWays fs after := put free ▸ putKeeps below unled
  exact bytesRead ((findAgain kept led).2 _ there nofun)

theorem writtenAny (written : fs.writeFile path data = .ok after) (other : Bytes) :
    ∃ done, fs.writeFile path other = .ok done := by
  simp only [writeFile, bind, Except.bind] at written ⊢
  split at written
  · split at written <;> contradiction
  rename_i open'
  rw [if_neg open']
  split at written
  · contradiction
  rename_i found led
  split at written
  · exact ⟨_, rfl⟩
  · exact ⟨_, rfl⟩
  · contradiction
  · exact ⟨_, rfl⟩

end

end SourceModels.FileSystem
