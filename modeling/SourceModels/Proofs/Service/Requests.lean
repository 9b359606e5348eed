import SourceModels.Proofs.Json.Written
import SourceModels.Proofs.Model.History
import SourceModels.Proofs.Utf8.Recovery
import SourceModels.Service

/-! What the parser is sent for a file and what is kept of it: the names and the recovered text go
out in one object, and the entry of the model has the bytes themselves. -/
namespace SourceModels

theorem Draft.Step.addedShort {step : Step} (whole : ¬ step.Halfway) :
    step.added? = match step.outcome with
      | .parsed tree source =>
        if source.length < 2 ^ 32 then some ⟨step.filename, source, tree.encode⟩ else none
      | _ => none := by
  have adds := step.adds
  obtain ⟨draft, filename, outcome, after, answer, done⟩ := step
  dsimp only at adds ⊢
  cases adds with
  | whole stored kept => exact (if_pos (Column.pushDone.mp stored).1).symm
  | halfway stored refused => exact absurd ⟨⟨_, _, rfl, stored⟩, rfl, _, rfl⟩ whole
  | unstored refused => exact (if_neg (Nat.not_lt.mpr (Column.pushLong refused))).symm
  | oversize => rfl
  | failed fault => rfl

namespace Service

/-- One object is posted, which says the two names and what the content is recovered as. Where the
content is a text, it is that text. -/
structure Sent (request : ParseRequest) (post : Post) : Prop where
  object : ∃ flat, (∀ v, Json.Document v post.body ↔ v = .object flat) ∧
    Json.Texts flat [("filename", request.filename), ("language", request.language),
      ("content", Utf8.decodeLossy request.content)]
  recovered : ∀ text, Utf8.Recovered request.content text.toList ↔
    text = Utf8.decodeLossy request.content
  whole : (∃ text, request.content = Bytes.ofText text) ↔
    Bytes.ofText (Utf8.decodeLossy request.content) = request.content

theorem sent {address : String} {request : ParseRequest} {post : Post}
    (posted : post? address request = some post) : Sent request post := by
  obtain ⟨url, _, rfl⟩ := Option.map_eq_some_iff.mp posted
  constructor
  case object =>
    have document := Json.objectDocument [("filename", request.filename),
      ("language", request.language), ("content", Utf8.decodeLossy request.content)]
    refine ⟨_, fun v => ⟨fun other => other.unique document, ?_⟩, Json.flatSays _⟩
    rintro rfl
    exact document
  case recovered => exact fun text => Utf8.recoveredIff.trans eq_comm
  case whole =>
    constructor
    · rintro ⟨text, same⟩
      rw [same, Utf8.lossyText]
    · exact fun same => ⟨_, same.symm⟩

section
variable (network : Network) (address : String) (limits : ParseLimits)

def asked (request : ParseRequest) : String × ParseOutcome :=
  (request.filename, invoke (parser network address) limits request)

def kept? (request : ParseRequest) : Option Entry :=
  match invoke (parser network address) limits request with
  | .parsed tree _ =>
    if request.content.length < 2 ^ 32 then
      some ⟨request.filename, request.content, tree.encode⟩
    else none
  | _ => none

theorem parsedContent {p : Parser} {request : ParseRequest} {tree : SyntaxTree} {source : Bytes}
    (parsed : invoke p limits request = .parsed tree source) : source = request.content := by
  unfold invoke at parsed
  split at parsed
  · split at parsed <;> cases parsed
    rfl
  · contradiction

theorem stepKept {step : Draft.Step} {request : ParseRequest} (whole : ¬ step.Halfway)
    (same : (step.filename, step.outcome) = asked network address limits request) :
    step.added? = kept? network address limits request := by
  obtain ⟨name, outcome⟩ := Prod.mk.inj same
  rw [Draft.Step.addedShort whole, name, outcome, kept?]
  split
  · rename_i parsed
    rw [parsedContent limits parsed]
  · rfl

theorem stepsKept {steps : List Draft.Step} {requests : List ParseRequest}
    (whole : ∀ step ∈ steps, ¬ step.Halfway)
    (same : steps.map (fun step => (step.filename, step.outcome)) =
      requests.map (asked network address limits)) :
    Draft.added steps = requests.filterMap (kept? network address limits) := by
  induction requests generalizing steps with
  | nil => rw [List.map_eq_nil_iff.mp same]; rfl
  | cons request rest ih =>
    cases steps with
    | nil => simp at same
    | cons step later =>
      simp only [List.map_cons, List.cons.injEq] at same
      obtain ⟨first, others⟩ := List.forall_mem_cons.mp whole
      have entry := stepKept network address limits first same.1
      rw [Draft.addedCons, entry, ih others same.2]
      cases kept : kept? network address limits request <;> simp [kept]

theorem filesSentFaithfully :
    (∀ (request : ParseRequest) (post : Post), post? address request = some post →
      Sent request post ∧
        parser network address request = classify request.filename (network post)) ∧
    ∀ (requests : List ParseRequest) (repository : String) (stamp : Stamp) (model : Model),
      (Draft.empty.grown (requests.map (asked network address limits))).finalize repository stamp =
        .ok model →
      model.entries = requests.filterMap (kept? network address limits) := by
  refine ⟨fun request post posted => ⟨sent posted, by unfold parser; simp only [posted]⟩, ?_⟩
  intro requests repository stamp model finalized
  obtain ⟨same, whole, entries, -⟩ :=
    Draft.historyFinalized (requests.map (asked network address limits)) repository stamp
  have none := (whole.mp ⟨model, finalized⟩).2
  rw [(entries model finalized).2.2.1]
  exact stepsKept network address limits none same

end

def torn : ParseRequest := ⟨"\"a\\b\".py", "python", [0x78, 0x00, 0xE2, 0x82, 0x22]⟩

def moduleNetwork : Network := fun _ =>
  .response 200 (Bytes.ofText "\x7b\"uast\":\x7b\"internal_type\":\"module\"\x7d\x7d") true

theorem tornSentFaithfully :
    (∃ post, post? "localhost:8080" torn = some post ∧ Sent torn post ∧
      Utf8.Recovered torn.content ['x', '\x00', '\uFFFD', '"']) ∧
    ∃ model : Model, model.entries = [⟨torn.filename, [0x78, 0x00, 0xE2, 0x82, 0x22],
      (SyntaxTree.branch { internalType := "module" } []).encode⟩] := by
  let limits : ParseLimits := ⟨.ofSeconds 1, 5⟩
  let stamp : Stamp := ⟨.ofEpoch 0 0, .zero, "0"⟩
  obtain ⟨sending, keeping⟩ := filesSentFaithfully moduleNetwork "localhost:8080" limits
  have posted : post? "localhost:8080" torn = some ⟨⟨false, "localhost", 8080, "/v1/parse", none⟩,
    "application/json", body torn⟩ := by decide +kernel
  have parsed : invoke (parser moduleNetwork "localhost:8080") limits torn =
      .parsed (.branch { internalType := "module" } []) torn.content := by decide +kernel
  have kept : kept? moduleNetwork "localhost:8080" limits torn =
      some ⟨torn.filename, torn.content,
        (SyntaxTree.branch { internalType := "module" } []).encode⟩ := by
    rw [kept?, parsed]
    rfl
  let draft := Draft.empty.grown
    [(torn.filename, .parsed (.branch { internalType := "module" } []) torn.content)]
  have finalized : draft.finalize "r" stamp = .ok (draft.model "r" stamp) := by decide +kernel
  have recovered : "x\x00\uFFFD\"" = Utf8.decodeLossy torn.content := by decide +kernel
  refine ⟨⟨_, posted, (sending torn _ posted).1, ?_⟩, draft.model "r" stamp, ?_⟩
  · exact ((sending torn _ posted).1.recovered _).mpr recovered
  · have gathered : (Draft.empty.grown ([torn].map
        (asked moduleNetwork "localhost:8080" limits))).finalize "r" stamp =
          .ok (draft.model "r" stamp) := by
      rw [List.map_singleton, asked, parsed]
      exact finalized
    rw [keeping [torn] "r" stamp _ gathered, List.filterMap_cons_some kept]
    rfl

end Service

end SourceModels
