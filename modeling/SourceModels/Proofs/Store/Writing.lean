import SourceModels.Proofs.FileSystem.Regular
import SourceModels.Proofs.Identifier.Places
import SourceModels.Proofs.Model.Stored
import SourceModels.Proofs.Store.Placement

/-! Writing a model: what it changes, whether it fails or not, and for which names it succeeds. -/
namespace SourceModels.Store
open FileSystem

structure Unwritten (fs after : FileSystem) (model : Model) (path token : String)
    (fault : ModelFault) : Prop where
  cause : (model.validate = .error fault ∧ after = fs) ∨
    (model.validate = .ok () ∧ ∃ reason, fault = .writeFailed path reason)
  directories : DirectoriesAdded fs after path
  unstaged : NoFileNamed after (stagingName path token)

structure Written (fs made after : FileSystem) (model : Model) (path token : String)
    (target : Location) : Prop where
  valid : model.validate = .ok ()
  directories : DirectoriesAdded fs made path
  replaced : ReplacedAt made after path target model.encode
  unstaged : NoFileNamed after (stagingName path token)
  found : (∀ follow, after.find follow path = .ok (.at target (.file model.encode))) ↔
    Independent made path target
  unlinked : (∀ link, fs.content? target ≠ some (.link link)) → Independent made path target

section
variable {disk : Disk} {fs made after : FileSystem} {model : Model} {path token : String}
  {target : Location} {data : Bytes}

theorem ReplacedAt.found (done : ReplacedAt made after path target data) :
    (∀ follow, after.find follow path = .ok (.at target (.file data))) ↔
      Independent made path target := by
  constructor
  · intro found
    refine Classical.byContradiction fun through => ?_
    have lost := done.lost through
    rw [bytesRead (found true)] at lost
    cases lost
  · intro alone follow
    have replaced := done.replaced
    obtain ⟨directory, name, _, rfl⟩ := done.named
    obtain ⟨place, last, parent, same⟩ := alone
    cases same
    exact heldFound (findParentKept (replacedAside replaced).2 parent) done.ends replaced.held follow

theorem ReplacedAt.unstaged (done : ReplacedAt made after path target data)
    (unused : NoFileNamed made (stagingName path token)) :
    NoFileNamed after (stagingName path token) := by
  intro directory content held
  have other : stagingName path token :: directory ≠ target := by
    rintro rfl
    obtain ⟨place, name, parent, same⟩ := done.named
    obtain ⟨split, named⟩ := lastSplit (findParentOk.mp parent).2.2.2
    have longer := stagingLonger path token split named
    rw [(List.cons.inj same).1] at longer
    exact Nat.lt_irrefl _ longer
  rw [done.replaced.others _ other] at held
  exact unused directory content held

theorem SpareToken.unwritten (spare : SpareToken fs path token) {fault : ModelFault}
    (failed : write disk fs model path token = (after, .error fault)) :
    Unwritten fs after model path token fault := by
  rcases spare.writeFailed failed with ⟨rfl, invalid⟩ | ⟨wrapped, added⟩
  · exact ⟨.inl ⟨invalid, rfl⟩, .none .., spare.noFile⟩
  · refine ⟨?_, added, spare.noFile.kept added⟩
    cases checked : model.validate with
    | ok _ => exact .inr ⟨rfl, wrapped⟩
    | error other =>
      simp only [write, ModelWriter.write, writer, checked] at failed
      cases failed
      exact .inl ⟨rfl, rfl⟩

theorem SpareToken.written (spare : SpareToken fs path token)
    (done : write disk fs model path token = (after, .ok ())) :
    ∃ made target, Written fs made after model path token target := by
  obtain ⟨valid, made, target, added, replaced⟩ := spare.writeDone done
  refine ⟨made, target, valid, added, replaced, replaced.unstaged (spare.noFile.kept added),
    replaced.found, fun unlinked => ?_⟩
  exact replaced.independent fun link held => unlinked link (added.linked held)

theorem writeReplaces (spare : SpareToken fs path token) (disk : Disk) (model : Model) :
    (∀ after fault, write disk fs model path token = (after, .error fault) →
      Unwritten fs after model path token fault) ∧
    ∀ after, write disk fs model path token = (after, .ok ()) →
      ∃ made target, Written fs made after model path token target :=
  ⟨fun _ _ failed => spare.unwritten failed, fun _ done => spare.written done⟩

end

def linkedRoot : FileSystem := ⟨[(["d"], .directory), (["l"], .link "d")], [], []⟩

theorem freshFileWritten : SpareToken linkedRoot "d/m" "0" ∧
    (write .sound linkedRoot Model.oneFile "d/m" "0").2.toOption = some () ∧
    (∃ made target, Written linkedRoot made (write .sound linkedRoot Model.oneFile "d/m" "0").1
      Model.oneFile "d/m" "0" target) ∧
    (linkedRoot.writeOn fullDisk "d/.m.0.tmp" Model.oneFile.encode).1.content?
      [".m.0.tmp", "d"] = some (.file [0x85, 0xA4]) ∧
    ∃ fault, Unwritten linkedRoot (write fullDisk linkedRoot Model.oneFile "d/m" "0").1
      Model.oneFile "d/m" "0" fault := by
  have fresh : FreshToken linkedRoot "d/m" "0" := ⟨by decide, by decide⟩
  have done : (write .sound linkedRoot Model.oneFile "d/m" "0").2.toOption = some () := by
    decide +kernel
  have full : (write fullDisk linkedRoot Model.oneFile "d/m" "0").2.toOption = none := by
    decide +kernel
  refine ⟨fresh.spare, done, ?_, by decide +kernel, ?_⟩
  · cases whole : write .sound linkedRoot Model.oneFile "d/m" "0" with
    | mk after result =>
      rw [whole] at done
      cases result with
      | error fault => cases done
      | ok _ => exact (writeReplaces fresh.spare .sound Model.oneFile).2 after whole
  · cases whole : write fullDisk linkedRoot Model.oneFile "d/m" "0" with
    | mk after result =>
      rw [whole] at full
      cases result with
      | error fault => exact ⟨fault, (writeReplaces fresh.spare fullDisk Model.oneFile).1 _ _ whole⟩
      | ok _ => cases full

theorem linkOnItsWay : (write .sound linkedRoot Model.oneFile "l/../l" "0").2.toOption = some () ∧
    ((write .sound linkedRoot Model.oneFile "l/../l" "0").1.status "l/../l").toOption = none := by
  decide +kernel

structure Admits (fs made : FileSystem) (path last : String) (directory : Location) : Prop where
  ready : prepare .sound fs path = (made, .ok ())
  parent : made.findParent path = .ok (directory, .name last)
  ends : hasTrailingSlash path = false
  free : made.content? (last :: directory) = none

def Stageable (path last token : String) : Prop :=
  byteLength last + 38 ≤ maxNameBytes ∧ byteLength (stagingPath path token) ≤ maxPathBytes

instance (path last token : String) : Decidable (Stageable path last token) :=
  inferInstanceAs (Decidable (_ ∧ _))

section
variable {fs made : FileSystem} {path last token : String} {front : List String}
  {directory : Location} {model : Model}

theorem stagingSize (split : names path = front ++ [last]) (named : last ≠ "." ∧ last ≠ "..")
    (sized : Token token) : byteLength (stagingName path token) = byteLength last + 38 := by
  have dot : byteLength "." = 1 := by decide
  have ending : byteLength ".tmp" = 4 := by decide
  rw [(stagingJoined split named token).1]
  simp only [byteLengthAppend, sized.size]
  omega

theorem stagingChecked (split : names path = front ++ [last]) (named : last ≠ "." ∧ last ≠ "..")
    (sized : Token token) (checked : checkPath path = .ok ()) :
    checkPath (stagingPath path token) = .ok () := by
  have clean : '\x00' ∉ path.toList := by
    intro inside
    simp [checkPath, inside] at checked
  have chars := stagingChars split named token
  have above : '\x00' ∉ Path.joint ((Path.parent? path).getD "").toList := by
    have upper : '\x00' ∉ ((Path.parent? path).getD "").toList := by
      cases found : Path.parent? path with
      | none => simp
      | some above =>
        exact fun inside => clean ((Path.parentParts found).2.1.subset inside)
    unfold Path.joint
    split <;> simp [upper]
  have name : '\x00' ∉ last.toList := by
    have listed : last ∈ names path := by simp [split]
    obtain ⟨part, piece, rfl⟩ := List.mem_map.mp listed
    rw [String.toList_ofList]
    exact fun inside => clean (Path.splitInside (List.mem_filter.mp piece).1 inside)
  have noNul : '\x00' ∉ (stagingPath path token).toList := by
    rw [chars, (stagingJoined split named token).1]
    simp [String.toList_append, above, name, sized.noNul]
  have filled : stagingPath path token ≠ "" := by
    intro empty
    have long := stagingNameLong path token
    rw [empty] at chars
    have none := (List.append_eq_nil_iff.mp chars.symm).2
    simp [none] at long
  simp [checkPath, noNul, filled]

theorem placedSized (split : names path = front ++ [last]) (named : last ≠ "." ∧ last ≠ "..")
    (sized : Token token) (checked : checkPath path = .ok ()) (short : checkLength path = .ok ()) :
    placedText path token =
      if Stageable path last token then .ok () else .error .nameTooLong := by
  have size := stagingSize split named sized
  have plain := stagingChecked split named sized checked
  have text := checkTextOk.mpr ⟨checked, short⟩
  unfold Stageable
  by_cases long : byteLength (stagingPath path token) ≤ maxPathBytes
  · have staged : checkText (stagingPath path token) = .ok () :=
      checkTextOk.mpr ⟨plain, by rw [checkLength, if_neg (by omega)]⟩
    by_cases fits : byteLength last + 38 ≤ maxNameBytes
    · have within : ¬ maxNameBytes < byteLength (stagingName path token) := by omega
      simp [placedText, staged, within, text, fits, long, bind, Except.bind]
    · have exceeds : maxNameBytes < byteLength (stagingName path token) := by omega
      simp [placedText, staged, exceeds, fits, bind, Except.bind, throw, throwThe,
        MonadExceptOf.throw]
  · have refused : checkText (stagingPath path token) = .error .nameTooLong := by
      simp only [checkText, plain, checkLength, if_pos (show maxPathBytes <
        byteLength (stagingPath path token) by omega), bind, Except.bind]
    simp [placedText, refused, long, bind, Except.bind]

namespace Admits

theorem placed (admits : Admits fs made path last directory) (sized : Token token)
    (fresh : FreshToken made path token) (valid : model.validate = .ok ()) :
    write .sound fs model path token =
      if Stageable path last token then
        (made.put (last :: directory) (.file model.encode), .ok ())
      else (made, .error (.writeFailed path Fault.nameTooLong.message)) := by
  obtain ⟨checked, short, led, ends⟩ := findParentOk.mp admits.parent
  obtain ⟨split, named⟩ := lastSplit ends
  have replaced := replaceAt split named admits.ends (walkLeads led) fresh.plain fresh.noFile
    (fresh.free directory) model.encode
  rw [placedSized split named sized checked short, admits.free] at replaced
  simp only [write, ModelWriter.write, writer, valid, admits.ready, Store.named, replaced]
  by_cases fits : Stageable path last token
  · simp [fits]
  · simp [fits]

theorem direct (admits : Admits fs made path last directory) (data : Bytes) :
    made.writeFile path data = .ok (made.put (last :: directory) (.file data)) := by
  obtain ⟨checked, short, led, ends⟩ := findParentOk.mp admits.parent
  obtain ⟨split, named⟩ := lastSplit ends
  have unlinked : ∀ place link,
      walk made true maxLinks (made.startOf path) (names path).dropLast =
        .ok (.at place .directory) →
      made.content? (last :: place) ≠ some (.link link) := by
    intro place link same
    rw [led] at same
    cases same
    simp [admits.free]
  have found : made.find true path = .ok (.missing directory last) :=
    (findLast admits.ends split named unlinked).mpr
      ⟨directory, admits.parent, .inl ⟨rfl, admits.free⟩⟩
  simp [writeFile, admits.ends, found, bind, Except.bind, pure, Except.pure]

end Admits

theorem preparedThere (parent : fs.findParent path = .ok (directory, .name last)) :
    prepare .sound fs path = (fs, .ok ()) := by
  obtain ⟨checked, short, led, ends⟩ := findParentOk.mp parent
  obtain ⟨split, named⟩ := lastSplit ends
  unfold prepare
  cases found : Path.parent? path with
  | none => rfl
  | some above =>
    obtain ⟨dots, parts, dotted⟩ := Path.parentNames found split named.1
    obtain ⟨_, start, _⟩ := Path.parentParts found
    rw [parts] at led
    refine @ledMade fs above directory _ fun filled => ?_
    obtain ⟨checked', short', same⟩ := textAbove start filled checked short
    have begins : fs.startOf above = fs.startOf path := by simp only [startOf, same]
    exact ⟨checked', short', by rw [begins]; exact (walkLeads led).undottedAll dotted⟩

theorem modelStageable (path key token : String) :
    Stageable path (Identifier.modelFileName key) token ↔
      byteLength key ≤ 205 ∧ byteLength (stagingPath path token) ≤ maxPathBytes := by
  rw [Stageable, Identifier.fileNameSize, maxNameBytes]
  omega

theorem stagingLimits (sized : Token token) (valid : model.validate = .ok ()) :
    (∀ fs made path last directory, Admits fs made path last directory →
      FreshToken made path token →
      made.writeFile path model.encode =
        .ok (made.put (last :: directory) (.file model.encode)) ∧
      write .sound fs model path token =
        if Stageable path last token then
          (made.put (last :: directory) (.file model.encode), .ok ())
        else (made, .error (.writeFailed path Fault.nameTooLong.message))) ∧
    (∀ fs path last directory, fs.findParent path = .ok (directory, .name last) →
      prepare .sound fs path = (fs, .ok ())) ∧
    ∀ identifier root depth fs made directory,
      Admits fs made (Identifier.destination identifier root depth)
        (Identifier.modelFileName (Identifier.key identifier)) directory →
      FreshToken made (Identifier.destination identifier root depth) token →
      ((write .sound fs model (Identifier.destination identifier root depth) token).2 = .ok () ↔
        byteLength (Identifier.key identifier) ≤ 205 ∧
          byteLength (stagingPath (Identifier.destination identifier root depth) token) ≤
            maxPathBytes) := by
  refine ⟨?_, fun _ _ _ _ parent => preparedThere parent, ?_⟩
  · intro fs made path last directory admits fresh
    exact ⟨admits.direct model.encode, admits.placed sized fresh valid⟩
  · intro identifier root depth fs made directory admits fresh
    rw [← modelStageable, admits.placed sized fresh valid]
    split <;> simp_all

end

def zeros : String := "00000000000000000000000000000000"

theorem foundParent {fs : FileSystem} {path : String} {found : Location × Last}
    (held : (fs.findParent path).toOption = some found) : fs.findParent path = .ok found := by
  cases parent : fs.findParent path with
  | error fault => simp [parent, Except.toOption] at held
  | ok pair => simpa [parent, Except.toOption] using held

theorem shortNameStaged : Stageable "d/m" "m" zeros ∧
    write .sound linkedRoot Model.oneFile "d/m" zeros =
      (linkedRoot.put ["m", "d"] (.file Model.oneFile.encode), .ok ()) := by
  have parent : linkedRoot.findParent "d/m" = .ok (["d"], .name "m") :=
    foundParent (by decide +kernel)
  have fits : Stageable "d/m" "m" zeros := by decide +kernel
  have fresh : FreshToken linkedRoot "d/m" zeros := ⟨by decide, by decide⟩
  obtain ⟨places, there, _⟩ := @stagingLimits zeros Model.oneFile
    ⟨by decide, by decide, by decide⟩ rfl
  have admits : Admits linkedRoot linkedRoot "d/m" "m" ["d"] :=
    ⟨there _ _ _ _ parent, parent, by decide, by decide⟩
  have written := (places _ _ _ _ _ admits fresh).2
  rw [if_pos fits] at written
  exact ⟨fits, written⟩

theorem entryAdmitted {fs : FileSystem} {name : String} (entry : EntryName name)
    (held : fs.content? fs.current = some .directory)
    (free : fs.content? (name :: fs.current) = none) : Admits fs fs name name fs.current := by
  have parts : names name = [name] := by
    rw [names, Path.partsSingle entry.noSlash entry.filled, List.map_singleton, String.ofList_toList]
  have filled : name ≠ "" := fun empty => entry.filled (by rw [empty]; rfl)
  have relative : Path.isAbsolute name = false := by
    rw [Path.isAbsolute, beq_eq_false_iff_ne]
    exact fun slash => entry.noSlash (List.mem_of_mem_head? slash)
  have checked : checkPath name = .ok () := by simp [checkPath, entry.noNul, filled]
  have short : checkLength name = .ok () := by
    have bound := entry.short
    rw [maxNameBytes] at bound
    rw [checkLength, maxPathBytes, if_neg (by omega)]
  have start : fs.startOf name = fs.current := by rw [startOf, relative, if_neg (by decide)]
  have parent : fs.findParent name = .ok (fs.current, .name name) := by
    refine findParentOk.mpr ⟨checked, short, ?_, ?_⟩
    · rw [parts, start]
      exact walkHere held
    · rw [parts]
      exact @lastShort [] name entry.named entry.short
  refine ⟨preparedThere parent, parent, ?_, free⟩
  rw [hasTrailingSlash, beq_eq_false_iff_ne]
  exact fun slash => entry.noSlash (List.mem_of_mem_getLast? slash)

def fullName : String := String.ofList (List.replicate 218 'f')

theorem fullNameEntry : EntryName fullName ∧ byteLength fullName = 218 := by
  have chars : fullName.toList = List.replicate 218 'f' := String.toList_ofList
  have size : byteLength fullName = 218 := by
    rw [byteLength, Utf8.ofTextChars, chars]
    decide +kernel
  have only : ∀ c, c ≠ 'f' → c ∉ fullName.toList := by
    intro c other inside
    rw [chars] at inside
    exact other (List.eq_of_mem_replicate inside)
  have longer : ∀ other : String, other.toList.length < 218 → fullName ≠ other := by
    rintro other fewer rfl
    rw [chars, List.length_replicate] at fewer
    exact Nat.lt_irrefl _ fewer
  have filled : fullName.toList ≠ [] :=
    List.ne_nil_of_length_pos (by rw [chars, List.length_replicate]; decide)
  exact ⟨⟨filled, only _ (by decide), only _ (by decide),
    ⟨longer _ (by decide), longer _ (by decide)⟩, by rw [size]; decide⟩, size⟩

theorem fullNameUnstaged :
    Admits ⟨[], [], []⟩ ⟨[], [], []⟩ fullName fullName [] ∧ byteLength fullName = 218 ∧
    FileSystem.writeFile ⟨[], [], []⟩ fullName Model.oneFile.encode =
      .ok ⟨[([fullName], .file Model.oneFile.encode)], [], []⟩ ∧
    write .sound ⟨[], [], []⟩ Model.oneFile fullName zeros =
      (⟨[], [], []⟩, .error (.writeFailed fullName "File name too long (os error 36)")) := by
  obtain ⟨entry, size⟩ := fullNameEntry
  have admits : Admits ⟨[], [], []⟩ ⟨[], [], []⟩ fullName fullName [] := entryAdmitted entry rfl rfl
  have fresh : FreshToken ⟨[], [], []⟩ fullName zeros := ⟨by decide, by simp⟩
  have sized : Token zeros := ⟨by decide, by decide, by decide⟩
  have valid : Model.oneFile.validate = .ok () := rfl
  have written := admits.placed sized fresh valid
  rw [if_neg (by rw [Stageable, size]; decide)] at written
  exact ⟨admits, size, admits.direct _, written⟩

end SourceModels.Store
