import SourceModels.Proofs.Json.Documents
import SourceModels.Proofs.SyntaxTree.Described
import SourceModels.Service

/-! Which answer a response is read as, and what becomes of a response: a tree where the body spells
an answer with one, and a failure of its own kind wherever it does not. -/
namespace SourceModels

namespace Service

namespace Answer

inductive Field where
  | status (text : String)
  | errors (texts : List String)
  | tree (t : Option SyntaxTree)

def Field.index : Field → Nat
  | .status _ => 0
  | .errors _ => 1
  | .tree _ => 2

def member? (room : Nat) (i : Nat) (v : Json.Value) : Option Field :=
  match i with
  | 0 => v.text?.map .status
  | 1 => v.texts?.map .errors
  | 2 => (orNull? room v).map .tree
  | _ => none

def Partial.take (parts : Partial) : Field → Option Partial
  | .status text => if parts.status.isSome then none else some { parts with status := some text }
  | .errors texts => if parts.errors.isSome then none else some { parts with errors := some texts }
  | .tree t => if parts.tree.isSome then none else some { parts with tree := some t }

theorem fieldsDistinct : fields.Nodup := by decide

def slots : Slots Partial Field where
  size := fields.length
  index := Field.index
  put := Partial.take
  slot parts i :=
    match i with
    | 0 => parts.status.map .status
    | 1 => parts.errors.map .errors
    | 2 => parts.tree.map .tree
    | _ => none
  slotIndex := by
    intro parts i f held
    split at held <;> simp only [Option.map_eq_some_iff, reduceCtorEq] at held <;>
      obtain ⟨_, _, rfl⟩ := held <;> rfl
  putDone := by
    rintro parts grown f done j
    cases f <;> simp only [Partial.take, Option.ite_none_left_eq_some] at done <;>
      obtain ⟨_, same⟩ := done <;> cases same <;>
      rcases j with _ | _ | _ | j <;> simp_all [Field.index]
  putRefused := by
    rintro parts f
    cases f <;> simp [Partial.take, fields, Field.index, Option.isSome_iff_ne_none]

theorem memberIndexed {room i : Nat} {v : Json.Value} {f : Field}
    (read : member? room i v = some f) : slots.index f = i := by
  unfold member? at read
  split at read <;> simp only [Option.map_eq_some_iff, reduceCtorEq] at read <;>
    obtain ⟨_, _, rfl⟩ := read <;> rfl

theorem putMember {room i : Nat} {v : Json.Value} {parts : Partial} :
    parts.put room i v = (member? room i v).bind (slots.put parts) := by
  rcases i with _ | _ | _ | i
  · cases said : v.text? <;> simp [Partial.put, member?, slots, Partial.take, said]
  · cases said : v.texts? <;> simp [Partial.put, member?, slots, Partial.take, said]
  · cases given : orNull? room v <;> simp [Partial.put, member?, slots, Partial.take, given]
  · rfl

theorem membersAlike (room : Nat) (parts : Partial) (flat : List Json.Value) :
    ofMembers room parts flat = slots.gatherMembers (member? room) fields parts flat := by
  refine Slots.membersAlike (fun _ => rfl) (fun _ _ => rfl) (fun parts key v rest => ?_) parts flat
  rcases known : Json.key? fields key with _ | _ | i <;> simp only [ofMembers, known, putMember]

theorem elementsAlike (room : Nat) (items : List Json.Value) (index : Nat) (parts : Partial) :
    ofElements room index parts items =
      slots.gather (member? room) parts ((items.zipIdx index).map Prod.swap) := by
  refine slots.itemsGathered (fun _ _ => rfl) (fun i parts v rest => ?_) items index parts
  rw [ofElements, putMember]

structure Written (room : Nat) (entries : List (String × Json.Value)) (answer : Answer) :
    Prop where
  once : Once fields entries
  status : Given entries "status" (fun v => v.text? = some answer.status) (answer.status = "")
  errors : Given entries "errors" (fun v => v.texts? = some answer.errors) (answer.errors = [])
  tree : Given entries "uast" (fun v => match answer.tree with
    | none => v = .null
    | some t => t.Described room v) (answer.tree = none)

def Described (answer : Answer) (v : Json.Value) : Prop :=
  ∃ entries, Json.Record fields v entries ∧ Written (maxOpen - 1) entries answer

def Spelled (answer : Answer) (body : Bytes) : Prop :=
  ∃ v, Json.Document v body ∧ answer.Described v

theorem orNullRead {room : Nat} {v : Json.Value} {tree : Option SyntaxTree} :
    orNull? room v = some tree ↔ match tree with
      | none => v = .null
      | some t => t.Described room v := by
  cases tree with
  | none =>
    unfold orNull?
    split
    · simp
    · rename_i other
      simpa using other
  | some t =>
    simp only [← SyntaxTree.jsonRead]
    unfold orNull?
    split
    · cases room <;> simp [SyntaxTree.ofJson?]
    · simp

def written (answer : Answer) : List Field :=
  [.status answer.status, .errors answer.errors, .tree answer.tree]

def Field.Default : Field → Prop
  | .status text => text = ""
  | .errors texts => texts = []
  | .tree t => t = none

theorem finishes (answer : Answer) (parts : Partial) : (some ∘ Partial.finish) parts = some answer ↔
    ∀ f ∈ answer.written,
      slots.Holds parts f ∨ slots.slot parts (slots.index f) = none ∧ f.Default := by
  obtain ⟨status, errors, tree⟩ := parts
  cases answer
  simp [Partial.finish, written, slots, Slots.Holds, Field.index, Field.Default,
    SyntaxTree.slotLeft]

section
variable {room : Nat}

theorem gathered {given : List (Nat × Json.Value)} {answer : Answer} :
    (slots.gather (member? room) {} given).bind (some ∘ Partial.finish) = some answer ↔
      (given.map Prod.fst).Nodup ∧ (∀ e ∈ given, e.1 < fields.length) ∧
        ∀ f ∈ answer.written, slots.Stands (member? room) given f f.Default := by
  rw [Option.bind_eq_some_iff]
  refine slots.gatheredAs memberIndexed (fun i => ?_) (finishes answer) fun i within => ?_
  · rcases i with _ | _ | _ | i <;> rfl
  · rcases i with _ | _ | _ | i <;> simp_all [written, slots, fields, Field.index]
    omega

theorem namedRead {entries : List (String × Json.Value)} {answer : Answer} :
    (slots.gather (member? room) {} (numbered fields entries)).bind (some ∘ Partial.finish) =
      some answer ↔ Written room entries answer := by
  have named (f : Field) {name : String} (own : fields[f.index]? = some name) {other : Prop} :
      slots.Stands (member? room) (numbered fields entries) f other ↔
        Given entries name (fun v => member? room f.index v = some f) other :=
    slots.standsNamed fieldsDistinct own
  have status (v : Json.Value) (text : String) :
      member? room 0 v = some (.status text) ↔ v.text? = some text := by simp [member?]
  have errors (v : Json.Value) (texts : List String) :
      member? room 1 v = some (.errors texts) ↔ v.texts? = some texts := by simp [member?]
  have tree (v : Json.Value) (t : Option SyntaxTree) :
      member? room 2 v = some (.tree t) ↔ orNull? room v = some t := by simp [member?]
  simp only [gathered, numberedOnce, written, List.forall_mem_cons, named (.status _) rfl,
    named (.errors _) rfl, named (.tree _) rfl, Field.index, status, errors, tree, orNullRead]
  constructor
  · rintro ⟨once, _, status, errors, tree, _⟩
    exact ⟨once, status, errors, tree⟩
  · rintro ⟨once, status, errors, tree⟩
    exact ⟨once, fun _ => numberedWithin, status, errors, tree, by simp⟩

end

theorem jsonRead {v : Json.Value} {answer : Answer} :
    ofJson? v = some answer ↔ answer.Described v := by
  simp only [Described, ← namedRead, slots.recordGathered fieldsDistinct rfl memberIndexed,
    ← membersAlike]
  cases v with
  | object flat => simp [ofJson?, Option.bind_eq_some_iff]
  | array items =>
    have alike := elementsAlike (maxOpen - 1) items 0 {}
    simp [ofJson?, alike, positioned, Option.bind_eq_some_iff]
  | _ => simp [ofJson?]

theorem decodedSpelled {body : Bytes} {answer : Answer} :
    decode? body = some answer ↔ answer.Spelled body := by
  simp only [decode?, Option.bind_eq_some_iff, Json.documentRead, jsonRead, Spelled]

end Answer

section
variable {network : Network} {address : String} {request : ParseRequest} {post : Post}
  {status : Nat} {body received : Bytes} {complete : Bool}

theorem parsedJudged (sent : post? address request = some post)
    (replied : network post = .response status body complete)
    (full : payload? status body complete = some received) :
    parser network address request = judge request.filename status received := by
  unfold parser
  simp only [sent, replied, classify, full]

theorem responseClassified (sent : post? address request = some post)
    (replied : network post = .response status body complete)
    (full : payload? status body complete = some received) :
    (∀ reason, parser network address request = .failed (.transport request.filename reason) ↔
      ¬ (200 ≤ status ∧ status < 300) ∧
        reason = "parser service returned HTTP " ++ toString status) ∧
    ((∃ reason, parser network address request = .failed (.undecodable request.filename reason)) ↔
      (200 ≤ status ∧ status < 300) ∧ ¬ ∃ answer : Answer, answer.Spelled received) ∧
    (∀ reason, parser network address request = .failed (.noTree request.filename reason) ↔
      (200 ≤ status ∧ status < 300) ∧ ∃ answer : Answer, answer.Spelled received ∧
        answer.tree = none ∧ reason = answer.reason) ∧
    ∀ t, parser network address request = .tree t ↔
      (200 ≤ status ∧ status < 300) ∧ ∃ answer : Answer, answer.Spelled received ∧
        answer.tree = some t := by
  simp only [parsedJudged sent replied full, ← Answer.decodedSpelled, judge]
  by_cases inside : 200 ≤ status ∧ status < 300
  · rw [if_neg (by omega)]
    cases decoded : Answer.decode? received with
    | none => simp [inside]
    | some answer =>
      cases held : answer.tree with
      | none => simp [inside, held, eq_comm]
      | some t => simp [inside, held]
  · rw [if_pos (by omega)]
    simp [inside, eq_comm]

end

def failingAnswer : String :=
  "[\"error\",[\"slow\"],\x7b\"depth\":[[2]],\"children\":[[\"name\",\"x\"]]," ++
    "\"internal_type\":\"module\"\x7d]"

theorem failingClassified :
    ∃ answer : Answer, answer.Spelled (Bytes.ofText failingAnswer) ∧ answer.tree =
      some (.branch { internalType := "module" }
        [.branch { internalType := "name", token := "x" } []]) := by
  let request : ParseRequest := ⟨"a.py", "python", [0x61]⟩
  let network : Network := fun _ => .response 200 (Bytes.ofText failingAnswer) true
  have sent : post? "localhost:8080" request = some ⟨⟨false, "localhost", 8080, "/v1/parse", none⟩,
    "application/json", Service.body request⟩ := by decide +kernel
  have classified := @responseClassified network "localhost:8080" request _ 200
    (Bytes.ofText failingAnswer) (Bytes.ofText failingAnswer) true sent rfl (by decide)
  exact ((classified.2.2.2 _).mp (by decide +kernel)).2

end Service

end SourceModels
