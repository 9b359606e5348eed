import SourceModels.Proofs.FileSystem.Making
import SourceModels.Proofs.Store.Replacement

/-! Writing a model below a directory without links: whether it can be written depends on the texts
of the paths and on what is in the places on the way, and the changes are directories on the way and
the model itself. -/
namespace SourceModels

namespace FileSystem

def checkText (path : String) : Except Fault Unit := do
  checkPath path
  checkLength path

theorem checkTextOk {path : String} :
    checkText path = .ok () ↔ checkPath path = .ok () ∧ checkLength path = .ok () := by
  simp only [checkText, bind, Except.bind]
  cases checkPath path <;> simp

theorem checkFaults {path : String} {fault : Fault} (filled : path ≠ "")
    (refused : checkText path = .error fault) : fault = .nulInName ∨ fault = .nameTooLong := by
  simp only [checkText, checkPath, if_neg filled, checkLength, bind, Except.bind] at refused
  split at refused
  · rename_i nul
    split at nul
    · cases nul
      exact .inl (Except.error.inj refused).symm
    · cases nul
  · split at refused
    · cases refused
      exact .inr rfl
    · cases refused

theorem checkRefused {α : Type} {path : String} {fault : Fault}
    (refused : checkText path = .error fault) (next : Except Fault α) :
    (do checkPath path; checkLength path; next) = .error fault := by
  simp only [checkText, bind, Except.bind] at refused ⊢
  cases checked : checkPath path with
  | error other => simpa [checked] using refused
  | ok _ =>
    rw [checked] at refused
    simp [refused]

theorem findParentUnchecked {path : String} {fault : Fault}
    (refused : checkText path = .error fault) (fs : FileSystem) :
    fs.findParent path = .error fault := checkRefused refused _

theorem findUnchecked {path : String} {fault : Fault} (refused : checkText path = .error fault)
    (fs : FileSystem) (follow : Bool) : fs.find follow path = .error fault :=
  checkRefused refused _

def unfoundFalse (found : Except Fault Bool) : Except Fault Bool :=
  match found with
  | .error .notFound => .ok false
  | other => other

def heldBytes : Option Content → Option Bytes
  | some (.file data) => some data
  | some .device => some []
  | _ => none

namespace Ground

variable {fs : FileSystem} {output path last : String} {top : Location} {between : List String}

theorem existsBelow (ground : Ground fs output top) (below : Below output path between last) :
    fs.tryExists path = unfoundFalse ((checkText path).bind fun _ =>
      (fs.enterBelow top (plainNames between)).bind fun directory =>
        if maxNameBytes < byteLength last then .error .nameTooLong
        else .ok (fs.content? (last :: directory)).isSome) := by
  cases text : checkText path with
  | error fault =>
    simp only [tryExists, status, findUnchecked text, existing, Except.map, Except.bind,
      unfoundFalse]
    split <;> simp_all
  | ok _ =>
    obtain ⟨checked, short⟩ := checkTextOk.mp text
    have found := ground.findBelow below checked short true
    simp only [tryExists, status, found, Except.bind]
    cases through : fs.enterBelow top (plainNames between) with
    | error fault =>
      simp only [existing, Except.map, unfoundFalse]
      split <;> simp_all
    | ok directory =>
      by_cases long : maxNameBytes < byteLength last
      · simp [Found.enter, long, existing, Except.map, unfoundFalse]
      · cases held : fs.content? (last :: directory) <;>
          simp [Found.enter, long, held, existing, Except.map, unfoundFalse]

theorem readBelow (ground : Ground fs output top) (below : Below output path between last)
    (shorter : ∀ name ∈ between, byteLength name ≤ byteLength last) :
    (fs.readBytes path).toOption = (checkText path).toOption.bind fun _ =>
      if maxNameBytes < byteLength last then none
      else heldBytes (fs.content? (last :: ((plainNames between).reverse ++ top))) := by
  cases text : checkText path with
  | error fault =>
    rw [unread (findUnchecked text fs true)]
    rfl
  | ok _ =>
    obtain ⟨checked, short⟩ := checkTextOk.mp text
    have found := ground.findBelow below checked short true
    rw [Except.toOption.eq_def (.ok _), Option.bind_some]
    cases through : fs.enterBelow top (plainNames between) with
    | error fault =>
      rw [through] at found
      rw [unread found]
      by_cases long : maxNameBytes < byteLength last
      · rw [if_pos long]
        rfl
      rw [if_neg long]
      cases held : fs.content? (last :: ((plainNames between).reverse ++ top)) with
      | none => rfl
      | some content =>
        have within : ∀ name ∈ plainNames between, ¬ maxNameBytes < byteLength name := by
          intro name inside
          have less := shorter name (plainNamesMember.mp inside).1
          omega
        have all := enterBelowAll ground.nested within (ground.nested _ _ _ held)
        rw [through] at all
        cases all
    | ok directory =>
      rw [through, Except.bind, enterBelowPlace through] at found
      by_cases long : maxNameBytes < byteLength last
      · rw [Found.enter, if_pos long] at found
        rw [unread found, if_pos long]
        rfl
      · rw [Found.enter, if_neg long] at found
        rw [if_neg long]
        cases held : fs.content? (last :: ((plainNames between).reverse ++ top)) with
        | none =>
          rw [held] at found
          simp [readBytes, status, found, existing, Except.map, bind, Except.bind, Except.toOption,
            heldBytes]
        | some content =>
          rw [held] at found
          cases content with
          | link target =>
            exact absurd held (ground.unlinked (last :: (plainNames between).reverse) target)
          | _ =>
            simp [readBytes, status, found, existing, Except.map, bind, Except.bind,
              Except.toOption, heldBytes]

end Ground

end FileSystem

namespace Store
open FileSystem

def readyText (path : String) : Except Fault Unit :=
  match Path.parent? path with
  | none => .ok ()
  | some above =>
    match Path.parent? above with
    | none => .ok ()
    | some _ => checkText above

def placedText (path token : String) : Except Fault Unit := do
  checkText (stagingPath path token)
  if maxNameBytes < byteLength (stagingName path token) then throw .nameTooLong
  checkText path

theorem stagingJoined {path last : String} {front : List String}
    (split : names path = front ++ [last]) (named : last ≠ "." ∧ last ≠ "..") (token : String) :
    stagingName path token = "." ++ last ++ "." ++ token ++ ".tmp" ∧
      stagingPath path token = Path.join ((Path.parent? path).getD "") (stagingName path token) := by
  have name := Path.fileNameLast split named
  exact ⟨by simp [stagingName, name], by simp [stagingPath, Path.withFileName, name]⟩

theorem stagingLonger (path token : String) {last : String} {front : List String}
    (split : names path = front ++ [last]) (named : last ≠ "." ∧ last ≠ "..") :
    byteLength last < byteLength (stagingName path token) := by
  have dot : byteLength "." = 1 := by decide
  rw [(stagingJoined split named token).1]
  simp only [byteLengthAppend]
  omega

theorem stagingChars {path last : String} {front : List String}
    (split : names path = front ++ [last]) (named : last ≠ "." ∧ last ≠ "..") (token : String) :
    (stagingPath path token).toList = Path.joint ((Path.parent? path).getD "").toList ++
      (stagingName path token).toList := by
  obtain ⟨name, joined⟩ := stagingJoined split named token
  rw [joined, Path.join, String.toList_ofList, Path.joinedAs]
  simp [name, String.toList_append]

/-- Tokens of one length serve alike. -/
structure Token (token : String) : Prop where
  plain : '/' ∉ token.toList
  noNul : '\x00' ∉ token.toList
  size : byteLength token = 32

theorem placedAlike {path last token other : String} {front : List String}
    (split : names path = front ++ [last]) (named : last ≠ "." ∧ last ≠ "..")
    (first : Token token) (second : Token other) : placedText path token = placedText path other := by
  have name := (stagingJoined split named token).1
  have name' := (stagingJoined split named other).1
  have long : byteLength (stagingName path token) = byteLength (stagingName path other) := by
    simp only [name, name', byteLengthAppend, first.size, second.size]
  have whole := stagingChars split named token
  have whole' := stagingChars split named other
  have nul : checkPath (stagingPath path token) = checkPath (stagingPath path other) := by
    have filled : ∀ {text : String} {front : List Char}, text.toList = front ++
        (stagingName path token).toList ∨ text.toList = front ++ (stagingName path other).toList →
        text ≠ "" := by
      rintro text front chars rfl
      have none : "".toList = [] := rfl
      rcases chars with same | same <;> simp [none, name, name', String.toList_append] at same
    have inside : ('\x00' ∈ (stagingPath path token).toList) ↔
        '\x00' ∈ (stagingPath path other).toList := by
      simp [whole, whole', name, name', String.toList_append, first.noNul, second.noNul]
    simp [checkPath, inside, filled (.inl whole), filled (.inr whole')]
  have length : checkLength (stagingPath path token) = checkLength (stagingPath path other) := by
    have same : byteLength (stagingPath path token) = byteLength (stagingPath path other) := by
      have names := long
      simp only [byteLength, Utf8.ofTextChars] at names ⊢
      simp only [whole, whole', Bytes.ofCharsAppend, List.length_append, names]
    simp only [checkLength, same]
  simp only [placedText, checkText, nul, length, long]

section
variable {fs : FileSystem} {output path last token : String} {top : Location}
  {between : List String}

theorem prepareBelow (ground : Ground fs output top) (below : Below output path between last) :
    prepare .sound fs path =
      match readyText path with
      | .error fault => (fs, .error fault)
      | .ok () => fs.makeBelow top (plainNames between) := by
  unfold prepare readyText
  cases found : Path.parent? path with
  | none => exact absurd (Path.parentNone found last (by simp [below.split])) below.named.1
  | some above =>
    obtain ⟨dots, split, dotted⟩ := Path.parentNames found below.split below.named.1
    obtain ⟨_, _, _, trimmed, absolute⟩ := Path.parentParts found
    have makes := fun texts => @Ground.makesBelow fs output top ground (above.length + 1) above
      between dots (by rw [String.length_toList]; exact Nat.lt_succ_self _) texts trimmed split.symm
      dotted below.within
    simp only [makeDirectories]
    cases higher : Path.parent? above with
    | none =>
      have plain : plainNames between = [] := by
        refine plainNamesNone.mpr fun name inside => ?_
        have all := List.mem_append_right (names output) inside
        rw [split] at all
        exact (List.mem_append.mp all).elim (Path.parentNone higher name) (dotted name)
      rw [plain]
      simp [makeAll, higher, makeBelow]
    | some top' =>
      dsimp only
      cases text : checkText above with
      | error fault =>
        have refused : fs.makeDirectory above = .error fault := by
          simp [makeDirectory, findParentUnchecked text, bind, Except.bind]
        have filled : above ≠ "" := by
          rintro rfl
          have none : Path.parent? "" = none := by decide
          simp [none] at higher
        simp only [makeAll, makeSound, higher, refused]
        rcases checkFaults filled text with rfl | rfl <;> rfl
      | ok _ =>
        obtain ⟨checked, short⟩ := checkTextOk.mp text
        exact makes fun _ => ⟨checked, short, absolute.trans below.start⟩

theorem writtenFree {name : String} {front : List String} (split : names path = front ++ [name])
    (named : name ≠ "." ∧ name ≠ "..") (ended : hasTrailingSlash path = false)
    {directory : Location} (led : Leads fs maxLinks (fs.startOf path) front directory)
    (free : fs.content? (name :: directory) = none) (bytes : Bytes) :
    fs.writeFile path bytes =
      match checkText path with
      | .error fault => .error fault
      | .ok () =>
        if maxNameBytes < byteLength name then .error .nameTooLong
        else .ok (fs.put (name :: directory) (.file bytes)) := by
  cases text : checkText path with
  | error fault => simp [writeFile, ended, findUnchecked text, bind, Except.bind]
  | ok _ =>
    obtain ⟨checked, short⟩ := checkTextOk.mp text
    have parts : components path = front ++ [name] := by simp [components, ended, split]
    have unlinked : ∀ place target,
        walk fs true maxLinks (fs.startOf path) front = .ok (.at place .directory) →
        fs.content? (name :: place) ≠ some (.link target) := by
      intro place target same linked
      rw [led.walked] at same
      cases same
      rw [free] at linked
      cases linked
    have found : fs.find true path = Found.enter fs name (.at directory .directory) := by
      simp only [find, checked, short, parts, bind, Except.bind]
      rw [walkLast named unlinked, led.walked, Except.bind]
    by_cases long : maxNameBytes < byteLength name
    · simp [writeFile, ended, found, Found.enter, long, bind, Except.bind]
    · simp [writeFile, ended, found, Found.enter, long, free, bind, Except.bind, pure, Except.pure]

theorem addedMoved {source name : String} {front : List String} {directory : Location}
    (parent : fs.findParent source = .ok (directory, .name name))
    (free : fs.content? (name :: directory) = none) (split : names path = front ++ [last])
    (named : last ≠ "." ∧ last ≠ "..") (ended : hasTrailingSlash path = false)
    (up : Leads fs maxLinks (fs.startOf path) front directory)
    (short : ¬ maxNameBytes < byteLength last) (other : last ≠ name) (bytes : Bytes) :
    (fs.put (name :: directory) (.file bytes)).rename source path =
      match checkText path with
      | .error fault => .error fault
      | .ok () =>
        if fs.content? (last :: directory) = some .directory then .error .isDirectory
        else .ok (fs.put (last :: directory) (.file bytes)) := by
  have added := @fileAdded _ _ _ bytes free
  have source' := findParentKept added parent
  have held : (fs.put (name :: directory) (.file bytes)).content? (name :: directory) =
      some (.file bytes) := by simp [contentPut]
  cases text : checkText path with
  | error fault => simp [rename, source', findParentUnchecked text, bind, Except.bind]
  | ok _ =>
    obtain ⟨checked, within⟩ := checkTextOk.mp text
    have target : fs.findParent path = .ok (directory, .name last) :=
      findParentOk.mpr ⟨checked, within, by rw [split, List.dropLast_concat, up.walked],
        by rw [split, lastShort named short]⟩
    have target' := findParentKept added target
    have apart : last :: directory ≠ name :: directory := by simp [other]
    dsimp only
    split
    · rename_i inTheWay
      simp [rename, source', target', held, ended, contentPut, apart, inTheWay, bind, Except.bind]
    · rename_i clear
      simp [rename, source', target', held, ended, contentPut, apart, clear, bind, Except.bind,
        pure, Except.pure, erasePut _ free]

theorem stagingLeads {front : List String} (split : names path = front ++ [last])
    (named : last ≠ "." ∧ last ≠ "..") {directory : Location}
    (up : Leads fs maxLinks (fs.startOf path) front directory) (plain : '/' ∉ token.toList) :
    ∃ front, names (stagingPath path token) = front ++ [stagingName path token] ∧
      Leads fs maxLinks (fs.startOf (stagingPath path token)) front directory := by
  have joined := (stagingJoined split named token).2
  cases found : Path.parent? path with
  | none => exact absurd (Path.parentNone found last (by simp [split])) named.1
  | some above =>
    obtain ⟨dots, rfl, dotted⟩ := Path.parentNames found split named.1
    obtain ⟨_, _, _, _, absolute⟩ := Path.parentParts found
    have long := stagingNameLong path token
    rw [found, Option.getD_some] at joined
    rw [joined]
    refine ⟨names above, namesJoined (stagingNamePlain plain)
      (List.ne_nil_of_length_pos (by omega)), ?_⟩
    have start : fs.startOf (Path.join above (stagingName path token)) = fs.startOf path := by
      simp only [startOf, Path.joinedStart (stagingNamePlain plain), absolute]
    rw [start]
    exact up.undottedAll dotted

theorem replaceAt {front : List String} (split : names path = front ++ [last])
    (named : last ≠ "." ∧ last ≠ "..") (ended : hasTrailingSlash path = false)
    {directory : Location} (up : Leads fs maxLinks (fs.startOf path) front directory)
    (plain : '/' ∉ token.toList) (unused : NoFileNamed fs (stagingName path token))
    (free : fs.content? (stagingName path token :: directory) = none) (bytes : Bytes) :
    replace .sound fs path token bytes =
      match placedText path token with
      | .error fault => (fs, .error fault)
      | .ok () =>
        if fs.content? (last :: directory) = some .directory then (fs, .error .isDirectory)
        else (fs.put (last :: directory) (.file bytes), .ok ()) := by
  have staging := stagingNameUnlikeDots path token
  obtain ⟨front', split', led⟩ := stagingLeads split named up plain
  have wrote := writtenFree split' staging (stagingPathEnds path token) led free bytes
  have cleared := clearNothing plain unused
  cases text : checkText (stagingPath path token) with
  | error fault =>
    simp [replace, wrote, text, cleared, placedText, bind, Except.bind]
  | ok _ =>
    obtain ⟨checked, short⟩ := checkTextOk.mp text
    by_cases long : maxNameBytes < byteLength (stagingName path token)
    · simp [replace, wrote, text, long, cleared, placedText, bind, Except.bind, throw, throwThe,
        MonadExceptOf.throw]
    have longer := stagingLonger path token split named
    have parent : fs.findParent (stagingPath path token) =
        .ok (directory, .name (stagingName path token)) :=
      findParentOk.mpr ⟨checked, short, by rw [split', List.dropLast_concat, led.walked],
        by rw [split', lastShort staging long]⟩
    have other : last ≠ stagingName path token := by
      intro same
      rw [← same] at longer
      exact Nat.lt_irrefl _ longer
    have moved := addedMoved parent free split named ended up (by omega) other bytes
    have restored := @clearStaged _ _ _ bytes _ parent free
    cases text' : checkText path with
    | error fault =>
      simp [replace, wrote, moved, restored, text, text', long, placedText, bind, Except.bind]
    | ok _ =>
      by_cases inTheWay : fs.content? (last :: directory) = some .directory
      · simp [replace, wrote, moved, restored, text, text', long, inTheWay, placedText, bind,
          Except.bind]
      · simp [replace, wrote, moved, text, text', long, inTheWay, placedText, bind, Except.bind]

theorem replaceBelow (ground : Ground fs output top) (below : Below output path between last)
    (plain : '/' ∉ token.toList) (unused : NoFileNamed fs (stagingName path token))
    {directory : Location} (through : fs.enterBelow top (plainNames between) = .ok directory)
    (free : fs.content? (stagingName path token :: directory) = none) (bytes : Bytes) :
    replace .sound fs path token bytes =
      match placedText path token with
      | .error fault => (fs, .error fault)
      | .ok () =>
        if fs.content? (last :: directory) = some .directory then (fs, .error .isDirectory)
        else (fs.put (last :: directory) (.file bytes), .ok ()) := by
  have start : fs.startOf output = fs.startOf path := by simp only [startOf, below.start]
  have up := ground.leadsTo below.within through
  rw [start] at up
  exact replaceAt below.split below.named below.ends up plain unused free bytes

def readyBelow (fs : FileSystem) (top : Location) (between : List String) (path : String) :
    Except Fault Unit := do
  readyText path
  (fs.makeBelow top (plainNames between)).2

def freeBelow (fs : FileSystem) (top : Location) (between : List String)
    (path last token : String) : Except Fault Unit := do
  placedText path token
  if fs.content? (last :: ((plainNames between).reverse ++ top)) = some .directory then
    throw .isDirectory

theorem readyMade (ready : readyBelow fs top between path = .ok ()) :
    readyText path = .ok () ∧ fs.makeBelow top (plainNames between) =
      ((fs.makeBelow top (plainNames between)).1, .ok ()) := by
  simp only [readyBelow, bind, Except.bind] at ready
  split at ready
  · cases ready
  · rename_i text
    exact ⟨text, Prod.ext rfl ready⟩

theorem freeShort (below : Below output path between last)
    (free : freeBelow fs top between path last token = .ok ()) :
    ¬ maxNameBytes < byteLength last := by
  simp only [freeBelow, placedText, bind, Except.bind] at free
  split at free
  · cases free
  rename_i verdict
  split at verdict
  · cases verdict
  split at verdict
  · cases verdict
  · rename_i short
    have longer := stagingLonger path token below.split below.named
    omega

theorem freeClear (free : freeBelow fs top between path last token = .ok ()) :
    fs.content? (last :: ((plainNames between).reverse ++ top)) ≠ some .directory := by
  simp only [freeBelow, bind, Except.bind] at free
  split at free
  · cases free
  split at free
  · cases free
  · assumption

theorem preparedBelow (ground : Ground fs output top) (below : Below output path between last)
    {model : Model} (valid : model.validate = .ok ()) :
    (readyBelow fs top between path = .ok () → (writer .sound).prepare fs model path =
      ((fs.makeBelow top (plainNames between)).1, .ok ())) ∧
    ∀ fault, readyBelow fs top between path = .error fault →
      ∃ later, (writer .sound).prepare fs model path =
        (later, .error (.writeFailed path fault.message)) ∧
        (later = fs ∨ later = (fs.makeBelow top (plainNames between)).1) := by
  simp only [readyBelow, writer, valid, prepareBelow ground below, bind, Except.bind]
  cases readyText path with
  | error fault =>
    refine ⟨(fun done => by cases done), fun other failed => ?_⟩
    cases failed
    exact ⟨fs, rfl, .inl rfl⟩
  | ok _ =>
    obtain ⟨made, result⟩ := fs.makeBelow top (plainNames between)
    cases result with
    | error fault =>
      refine ⟨(fun done => by cases done), fun other failed => ?_⟩
      cases failed
      exact ⟨made, rfl, .inr rfl⟩
    | ok _ => exact ⟨fun _ => rfl, (fun _ failed => by cases failed)⟩

theorem placedBelow (ground : Ground fs output top) (below : Below output path between last)
    (plain : '/' ∉ token.toList) (unused : NoFileNamed fs (stagingName path token))
    (through : fs.enterBelow top (plainNames between) =
      .ok ((plainNames between).reverse ++ top))
    (free : fs.content? (stagingName path token :: ((plainNames between).reverse ++ top)) = none)
    (model : Model) :
    (writer .sound).place fs model path token =
      match freeBelow fs top between path last token with
      | .error fault => (fs, .error (.writeFailed path fault.message))
      | .ok () =>
        (fs.put (last :: ((plainNames between).reverse ++ top)) (.file model.encode), .ok ()) := by
  simp only [writer, replaceBelow ground below plain unused through free, freeBelow, bind,
    Except.bind]
  cases placedText path token with
  | error fault => rfl
  | ok _ =>
    dsimp only
    split <;> rfl

end

end Store

end SourceModels
