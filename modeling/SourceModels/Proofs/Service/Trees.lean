import SourceModels.Proofs.Extraction.Fidelity
import SourceModels.Proofs.SyntaxTree.Received
import SourceModels.Proofs.SyntaxTree.Stored
import SourceModels.Service

/-! Whatever tree a service answers with is read back from its stored form: the limit on how deep an
answer may be keeps trees far above the limit on how deep a stored one may be. -/
namespace SourceModels
open MessagePack

namespace Service

def Reply.Bounded : Reply → Prop
  | .unreachable _ => True
  | .response status body _ => 200 ≤ status → status < 300 → body.length < lengthBound

namespace Answer

def Readable (room : Nat) (tree : Option SyntaxTree) : Prop :=
  ∀ t, tree = some t → t.Fits ∧ 2 * t.levels ≤ room + 1

theorem orNullReadable {room : Nat} {v : Json.Value} {tree : Option SyntaxTree}
    (read : orNull? room v = some tree) (small : v.weight < lengthBound) : Readable room tree := by
  intro t given
  unfold orNull? at read
  split at read
  · cases read
    contradiction
  · obtain ⟨received, known, rfl⟩ := Option.map_eq_some_iff.mp read
    cases given
    exact SyntaxTree.jsonFits v known small

theorem putReadable {room index : Nat} {parts grown : Partial} {v : Json.Value}
    (done : parts.put room index v = some grown) (small : v.weight < lengthBound)
    (before : Readable room (parts.tree.getD none)) : Readable room (grown.tree.getD none) := by
  unfold Partial.put at done
  split at done
  · split at done
    · simp at done
    · simp only [Option.bind_eq_bind, Option.bind_eq_some_iff, Option.some.injEq] at done
      obtain ⟨_, _, rfl⟩ := done
      exact before
  · split at done
    · simp at done
    · simp only [Option.bind_eq_bind, Option.bind_eq_some_iff, Option.some.injEq] at done
      obtain ⟨_, _, rfl⟩ := done
      exact before
  · split at done
    · simp at done
    · simp only [Option.bind_eq_bind, Option.bind_eq_some_iff, Option.some.injEq] at done
      obtain ⟨tree, read, rfl⟩ := done
      exact orNullReadable read small
  · simp at done

theorem membersReadable {room : Nat} {flat : List Json.Value} {parts out : Partial}
    (read : ofMembers room parts flat = some out) (small : Json.Value.weights flat < lengthBound)
    (before : Readable room (parts.tree.getD none)) : Readable room (out.tree.getD none) := by
  fun_induction ofMembers room parts flat with
  | case1 parts key v rest index known ih =>
    simp only [Json.Value.weights] at small
    obtain ⟨grown, added, later⟩ := Option.bind_eq_some_iff.mp read
    exact ih grown later (by omega) (putReadable added (by omega) before)
  | case2 parts key v rest known ih =>
    simp only [Json.Value.weights] at small
    exact ih read (by omega) before
  | case3 => simp at read
  | case4 =>
    cases read
    exact before
  | case5 => simp at read

theorem elementsReadable {room index : Nat} {items : List Json.Value} {parts out : Partial}
    (read : ofElements room index parts items = some out)
    (small : Json.Value.weights items < lengthBound)
    (before : Readable room (parts.tree.getD none)) : Readable room (out.tree.getD none) := by
  induction items generalizing index parts with
  | nil =>
    cases read
    exact before
  | cons v rest ih =>
    simp only [Json.Value.weights] at small
    obtain ⟨grown, added, later⟩ := Option.bind_eq_some_iff.mp read
    exact ih later (by omega) (putReadable added (by omega) before)

theorem decodedReadable {body : Bytes} {answer : Answer} (decoded : decode? body = some answer)
    (small : body.length < lengthBound) : Readable (maxOpen - 1) answer.tree := by
  obtain ⟨v, read, taken⟩ := Option.bind_eq_some_iff.mp decoded
  have weight := Json.readWeight read
  unfold ofJson? at taken
  split at taken
  · obtain ⟨parts, members, rfl⟩ := Option.map_eq_some_iff.mp taken
    rw [Json.Value.weight] at weight
    exact membersReadable members (by omega) (by simp [Readable])
  · obtain ⟨parts, elements, rfl⟩ := Option.map_eq_some_iff.mp taken
    rw [Json.Value.weight] at weight
    exact elementsReadable elements (by omega) (by simp [Readable])
  · simp at taken

end Answer

theorem judgedTree {file : String} {status : Nat} {payload : Bytes} {t : SyntaxTree}
    (judged : judge file status payload = .tree t) :
    200 ≤ status ∧ status < 300 ∧ ∃ answer, Answer.decode? payload = some answer ∧
      answer.tree = some t := by
  unfold judge at judged
  split at judged
  · simp at judged
  split at judged
  · simp at judged
  rename_i answer decoded
  split at judged
  · rename_i received held
    cases judged
    exact ⟨by omega, by omega, answer, decoded, held⟩
  · simp at judged

theorem payloadLength {status : Nat} {body payload : Bytes} {complete : Bool}
    (given : payload? status body complete = some payload) : payload.length ≤ body.length := by
  unfold payload? at given
  split at given
  · simp at given
  split at given
  · cases given
    exact Nat.zero_le _
  split at given
  · cases given
    exact Nat.le_refl _
  · simp at given

theorem classifiedTree {file : String} {reply : Reply} {t : SyntaxTree} (bounded : reply.Bounded)
    (classified : classify file reply = .tree t) : t.Fits ∧ t.levels ≤ 63 := by
  cases reply with
  | unreachable reason => simp [classify] at classified
  | response status body complete =>
    simp only [classify] at classified
    split at classified
    · simp at classified
    · rename_i payload given
      obtain ⟨low, high, answer, decoded, held⟩ := judgedTree classified
      have small := Nat.lt_of_le_of_lt (payloadLength given) (bounded low high)
      obtain ⟨fits, shallow⟩ := Answer.decodedReadable decoded small t held
      refine ⟨fits, ?_⟩
      simp only [Answer.maxOpen] at shallow
      omega

theorem parsedTree {network : Network} {address : String} {request : ParseRequest} {t : SyntaxTree}
    (bounded : ∀ post, post? address request = some post → (network post).Bounded)
    (parsed : parser network address request = .tree t) : decodeTree t.encode = .ok t := by
  unfold parser at parsed
  split at parsed
  · simp at parsed
  · rename_i post sent
    obtain ⟨fits, shallow⟩ := classifiedTree (bounded post sent) parsed
    rw [SyntaxTree.decodedBack fits, SyntaxTree.readBack, if_pos (by omega)]

end Service

theorem Model.treeHeld {model : Model} {index : Nat} {file : ParsedFile}
    (filename : model.filenames[index]? = some file.candidate.relativePath)
    (source : model.sources.get? index = some file.content)
    (tree : model.trees.get? index = some file.tree.encode)
    (readable : SourceModels.decodeTree file.tree.encode = .ok file.tree) :
    model.tree index = .ok file.tree := by
  have found : model.entry? index =
      some ⟨file.candidate.relativePath, file.content, file.tree.encode⟩ := by
    simp [filename, entry?, source, tree]
  rw [treeOfEntry found, Entry.decodeTree, readable]

namespace Service

section
variable {network : List ParseRequest → Network} {address : String}

theorem parsedTrees {x : Extractor} {fs : FileSystem} {earlier : List ParseRequest}
    {files : List ParsedFile} (bounded : ∀ earlier post, (network earlier post).Bounded)
    (asks : x.parser = fun earlier => parser (network earlier) address)
    (parses : x.Parses fs earlier files) :
    ∀ file ∈ files, decodeTree file.tree.encode = .ok file.tree := by
  induction parses with
  | nil => simp
  | cons read answer later ih =>
    rw [asks] at answer
    exact List.forall_mem_cons.mpr ⟨parsedTree (fun post _ => bounded _ post) answer, ih⟩

theorem acceptedTreesRead (bounded : ∀ earlier post, (network earlier post).Bounded) :
    (∀ earlier request t, parser (network earlier) address request = .tree t →
      decodeTree t.encode = .ok t) ∧
    (∃ (t : SyntaxTree) (message : String),
      decodeTree t.encode = .error (.decodeFailed message)) ∧
    ∀ (x : Extractor) (disk : Disk) (repository destination path : String) (stamp : Stamp)
      (fs after : FileSystem) (count : Nat) (requests : List ParseRequest),
      x.parser = (fun earlier => parser (network earlier) address) →
      x.writer = Store.writer disk → x.detector.Quiet → Store.FreshToken fs destination stamp.token →
      x.extractTo repository destination stamp fs =
        ⟨.ok (.written path count), after, requests⟩ →
      ∃ (files : List ParsedFile) (model : Model) (made : FileSystem) (target : Location),
        x.Parses fs [] files ∧ requests = files.map ParsedFile.request ∧
        files.length = count ∧ model.size = count ∧
        FileSystem.DirectoriesAdded fs made destination ∧
        Store.ReplacedAt made after destination target model.encode ∧
        ∀ (index : Nat) (file : ParsedFile), files[index]? = some file →
          model.tree index = .ok file.tree := by
  refine ⟨fun earlier request t => parsedTree fun post _ => bounded earlier post, ?_, ?_⟩
  · have refused := SyntaxTree.decodedBack (SyntaxTree.nestedFits 511)
    rw [SyntaxTree.readBack, if_neg (by simp [SyntaxTree.nestedLevels])] at refused
    exact ⟨SyntaxTree.nested 511, _, refused⟩
  intro x disk repository destination path stamp fs after count requests asks container quiet fresh run
  obtain ⟨draft, gathered, stored⟩ := Extractor.writtenParts quiet run
  obtain ⟨files, _, parses, holds, asked⟩ := Extractor.gatherCaptures quiet gathered
  obtain ⟨_, model, finished, size, made, target, added, replaced⟩ :=
    Extractor.storedCaptures container fresh stored
  obtain ⟨_, _, rfl⟩ := Draft.finalizeDone finished
  have length : files.length = count := by
    simp [size, Model.size, holds.filenames]
  refine ⟨files, _, made, target, parses, asked, length, size.symm, added, replaced, ?_⟩
  intro index file found
  have readable := parsedTrees bounded asks parses file (List.mem_of_getElem? found)
  refine Model.treeHeld ?_ ?_ ?_ readable
  · simp [holds.filenames, found]
  · simp [holds.sources.get, found]
  · simp [holds.trees.get, found]

end

def nestedAnswer : String :=
  "[\"ok\",[],\x7b\"internal_type\":\"module\",\"children\":[[\"name\",\"x\"]]\x7d]"

def nestedService (_ : List ParseRequest) : Network :=
  fun _ => .response 200 (Bytes.ofText nestedAnswer) true

def nestedTree : SyntaxTree :=
  .branch { internalType := "module" } [.branch { internalType := "name", token := "x" } []]

def nestedExtractor : Extractor :=
  { Extractor.new { overwrite := true } fun _ => .silent with
    parser := fun earlier => parser (nestedService earlier) "localhost:8080" }

def nestedRun : Run (Except Failure Outcome) :=
  nestedExtractor.extractTo "r" "m" ⟨.ofEpoch 0 0, .zero, "0"⟩ Extractor.linkedFiles

theorem nestedTreesRead :
    decodeTree nestedTree.encode = .ok nestedTree ∧
    ∃ (files : List ParsedFile) (model : Model) (made : FileSystem) (target : Location),
      files.length = 1 ∧ Store.ReplacedAt made nestedRun.files "m" target model.encode ∧
      ∀ (index : Nat) (file : ParsedFile), files[index]? = some file →
        model.tree index = .ok file.tree := by
  have bounded : ∀ earlier post, (nestedService earlier post).Bounded := by
    intro earlier post _ _
    decide +kernel
  have answered : parser (nestedService []) "localhost:8080" ⟨"a.py", "python", [0x61]⟩ =
      .tree nestedTree := by decide +kernel
  have quiet : nestedExtractor.detector.Quiet := fun _ _ _ => rfl
  have fresh : Store.FreshToken Extractor.linkedFiles "m" "0" := ⟨by decide, by decide⟩
  have written : nestedRun.result.toOption = some (.written "m" 1) := by decide +kernel
  have run : nestedExtractor.extractTo "r" "m" ⟨.ofEpoch 0 0, .zero, "0"⟩ Extractor.linkedFiles =
      ⟨.ok (.written "m" 1), nestedRun.files, nestedRun.requests⟩ := Extractor.resultOf written
  have asks : nestedExtractor.parser =
      fun earlier => parser (nestedService earlier) "localhost:8080" := by
    dsimp only [nestedExtractor]
  obtain ⟨single, _, whole⟩ := acceptedTreesRead bounded
  obtain ⟨files, model, made, target, _, _, length, _, _, replaced, read⟩ :=
    whole nestedExtractor .sound "r" "m" "m" _ _ _ _ _ asks rfl quiet fresh run
  exact ⟨single [] _ _ answered, files, model, made, target, length, replaced, read⟩

end Service

end SourceModels
