import SourceModels.Proofs.Slots
import SourceModels.SyntaxTree.Fields

/-! Nodes and positions from their fields: which fields give which node, whatever they are read
from. -/
namespace SourceModels

namespace Position

theorem fieldsDistinct : fields.Nodup := by decide

def slots : Slots Partial (Nat × UInt32) where
  size := fields.length
  index := Prod.fst
  put parts f := parts.put f.1 f.2
  slot parts i :=
    match i with
    | 0 => parts.offset.map (0, ·)
    | 1 => parts.line.map (1, ·)
    | 2 => parts.column.map (2, ·)
    | _ => none
  slotIndex := by
    intro parts i f held
    split at held <;> simp only [Option.map_eq_some_iff, reduceCtorEq] at held <;>
      obtain ⟨_, _, rfl⟩ := held <;> rfl
  putDone := by
    rintro parts grown ⟨i, n⟩ done j
    unfold Partial.put at done
    split at done <;> simp only [Option.ite_none_left_eq_some, reduceCtorEq] at done <;>
      obtain ⟨_, same⟩ := done <;> cases same <;>
      rcases j with _ | _ | _ | j <;> simp_all
  putRefused := by
    rintro ⟨offset, line, column⟩ ⟨i, n⟩
    rcases i with _ | _ | _ | i <;> simp [Partial.put, fields, Option.isSome_iff_ne_none]

def written (p : Position) : List (Nat × UInt32) := [(0, p.offset), (1, p.line), (2, p.column)]

theorem finishes (p : Position) (parts : Partial) : parts.finish = some p ↔ ∀ f ∈ p.written,
    slots.Holds parts f ∨ slots.slot parts (slots.index f) = none ∧ False := by
  obtain ⟨offset, line, column⟩ := parts
  cases p
  cases offset <;> cases line <;> cases column <;> simp [Partial.finish, written, slots, Slots.Holds]

section
variable {V : Type}

structure Written (number : UInt32 → V → Prop) (entries : List (String × V)) (p : Position) :
    Prop where
  once : Once fields entries
  offset : Given entries "offset" (number p.offset) False
  line : Given entries "line" (number p.line) False
  column : Given entries "col" (number p.column) False

theorem Written.mono {number other : UInt32 → V → Prop} {entries : List (String × V)}
    {p : Position} (written : Written number entries p)
    (weaker : ∀ n v, number n v → other n v) : Written other entries p where
  once := written.once
  offset := written.offset.mono (weaker _)
  line := written.line.mono (weaker _)
  column := written.column.mono (weaker _)

def reading (word : V → Option UInt32) (i : Nat) (v : V) : Option (Nat × UInt32) :=
  (word v).map (i, ·)

theorem gathered (word : V → Option UInt32) {given : List (Nat × V)} {p : Position} :
    (slots.gather (reading word) {} given).bind Partial.finish = some p ↔
      (given.map Prod.fst).Nodup ∧ (∀ e ∈ given, e.1 < fields.length) ∧
        ∀ f ∈ p.written, slots.Stands (reading word) given f False := by
  rw [Option.bind_eq_some_iff]
  refine slots.gatheredAs (fun known => ?_) (fun i => ?_) (finishes p) fun i within => ?_
  · obtain ⟨_, _, rfl⟩ := Option.map_eq_some_iff.mp known
    rfl
  · rcases i with _ | _ | _ | i <;> rfl
  · rcases i with _ | _ | _ | i <;> simp_all [written, slots, fields]
    omega

theorem namedRead (word : V → Option UInt32) {entries : List (String × V)} {p : Position} :
    (slots.gather (reading word) {} (numbered fields entries)).bind Partial.finish = some p ↔
      Written (fun n v => word v = some n) entries p := by
  have named (f : Nat × UInt32) {name : String} (own : fields[f.1]? = some name) :
      slots.Stands (reading word) (numbered fields entries) f False ↔
        Given entries name (fun v => word v = some f.2) False := by
    rw [slots.standsNamed fieldsDistinct own]
    simp [reading, slots, Prod.ext_iff]
  simp only [gathered, numberedOnce, written, List.forall_mem_cons,
    named (0, p.offset) rfl, named (1, p.line) rfl, named (2, p.column) rfl]
  constructor
  · rintro ⟨once, _, offset, line, column, _⟩
    exact ⟨once, offset, line, column⟩
  · rintro ⟨once, offset, line, column⟩
    exact ⟨once, fun _ => numberedWithin, offset, line, column, by simp⟩

end

end Position

namespace SyntaxTree

theorem fieldsDistinct : fields.Nodup := by decide

def Field.index : Field → Nat
  | .internalType _ => 0
  | .token _ => 1
  | .roles _ => 2
  | .properties _ => 3
  | .start _ => 4
  | .stop _ => 5
  | .children _ => childrenField

def slots : Slots Partial Field where
  size := fields.length
  index := Field.index
  put := Partial.put
  slot parts i :=
    match i with
    | 0 => parts.internalType.map .internalType
    | 1 => parts.token.map .token
    | 2 => parts.roles.map .roles
    | 3 => parts.properties.map .properties
    | 4 => parts.start.map .start
    | 5 => parts.stop.map .stop
    | childrenField => parts.children.map .children
    | _ => none
  slotIndex := by
    intro parts i f held
    split at held <;> simp only [Option.map_eq_some_iff, reduceCtorEq] at held <;>
      obtain ⟨_, _, rfl⟩ := held <;> rfl
  putDone := by
    rintro parts grown f done j
    cases f <;> simp only [Partial.put, Option.ite_none_left_eq_some] at done <;>
      obtain ⟨_, same⟩ := done <;> cases same <;>
      rcases j with _ | _ | _ | _ | _ | _ | _ | j <;> simp_all [Field.index, childrenField]
  putRefused := by
    rintro parts f
    cases f <;> simp [Partial.put, fields, Field.index, childrenField, Option.isSome_iff_ne_none]

def Field.Own : Field → Prop
  | .children _ => False
  | _ => True

def Field.Default : Field → Prop
  | .internalType _ => False
  | .token text => text = ""
  | .roles texts => texts = []
  | .properties p => p = .empty
  | .start p => p = none
  | .stop p => p = none
  | .children trees => trees = []

def written : SyntaxTree → List Field
  | .branch node children => [.internalType node.internalType, .token node.token,
    .roles node.roles, .properties node.properties, .start node.start, .stop node.stop,
    .children children]

theorem slotLeft {α : Type} {o : Option α} {a d : α} :
    o.getD d = a ↔ o = some a ∨ o = none ∧ a = d := by
  cases o <;> simp [eq_comm]

theorem finishes (t : SyntaxTree) (parts : Partial) : parts.finish = some t ↔ ∀ f ∈ t.written,
    slots.Holds parts f ∨ slots.slot parts (slots.index f) = none ∧ f.Default := by
  obtain ⟨internalType, token, roles, properties, start, stop, children⟩ := parts
  obtain ⟨⟨_, _, _, _, _, _⟩, _⟩ := t
  cases internalType <;>
    simp [Partial.finish, written, slots, Slots.Holds, Field.index, Field.Default, slotLeft,
      and_assoc]

section
variable {V : Type}

structure Written (form : Field → V → Prop) (below : V → Prop) (entries : List (String × V))
    (node : Node) (children : List SyntaxTree) : Prop where
  once : Once fields entries
  internalType : Given entries "internal_type" (form (.internalType node.internalType)) False
  token : Given entries "token" (form (.token node.token)) (node.token = "")
  roles : Given entries "roles" (form (.roles node.roles)) (node.roles = [])
  properties :
    Given entries "properties" (form (.properties node.properties)) (node.properties = .empty)
  start : Given entries "start_position" (form (.start node.start)) (node.start = none)
  stop : Given entries "end_position" (form (.stop node.stop)) (node.stop = none)
  children : Given entries "children" below (children = [])

theorem Written.mono {form other : Field → V → Prop} {below beneath : V → Prop}
    {entries : List (String × V)} {node : Node} {children : List SyntaxTree}
    (written : Written form below entries node children)
    (weaker : ∀ f v, f.Own → form f v → other f v)
    (lower : ∀ v, below v → beneath v) : Written other beneath entries node children where
  once := written.once
  internalType := written.internalType.mono fun v => weaker _ v trivial
  token := written.token.mono fun v => weaker _ v trivial
  roles := written.roles.mono fun v => weaker _ v trivial
  properties := written.properties.mono fun v => weaker _ v trivial
  start := written.start.mono fun v => weaker _ v trivial
  stop := written.stop.mono fun v => weaker _ v trivial
  children := written.children.mono lower

variable {read : Nat → V → Option Field}
  (indexed : ∀ {i v f}, read i v = some f → f.index = i)
include indexed

theorem gathered {given : List (Nat × V)} {t : SyntaxTree} :
    (slots.gather read {} given).bind Partial.finish = some t ↔
      (given.map Prod.fst).Nodup ∧ (∀ e ∈ given, e.1 < fields.length) ∧
        ∀ f ∈ t.written, slots.Stands read given f f.Default := by
  rw [Option.bind_eq_some_iff]
  refine slots.gatheredAs indexed (fun i => ?_) (finishes t) fun i within => ?_
  · rcases i with _ | _ | _ | _ | _ | _ | _ | i <;> rfl
  · obtain ⟨node, children⟩ := t
    rcases i with _ | _ | _ | _ | _ | _ | _ | i <;>
      simp_all [written, slots, fields, Field.index, childrenField]
    omega

theorem namedRead {entries : List (String × V)} {node : Node} {children : List SyntaxTree} :
    (slots.gather read {} (numbered fields entries)).bind Partial.finish =
        some (.branch node children) ↔
      Written (fun f v => read f.index v = some f)
        (fun v => read childrenField v = some (.children children)) entries node children := by
  have named (f : Field) {name : String} (own : fields[f.index]? = some name) {other : Prop} :
      slots.Stands read (numbered fields entries) f other ↔
        Given entries name (fun v => read f.index v = some f) other :=
    slots.standsNamed fieldsDistinct own
  simp only [gathered indexed, numberedOnce, written, List.forall_mem_cons,
    named (.internalType node.internalType) rfl, named (.token node.token) rfl,
    named (.roles node.roles) rfl, named (.properties node.properties) rfl,
    named (.start node.start) rfl, named (.stop node.stop) rfl, named (.children children) rfl]
  constructor
  · rintro ⟨once, _, internalType, token, roles, properties, start, stop, below, _⟩
    exact ⟨once, internalType, token, roles, properties, start, stop, below⟩
  · rintro ⟨once, internalType, token, roles, properties, start, stop, below⟩
    exact ⟨once, fun _ => numberedWithin, internalType, token, roles, properties, start, stop,
      below, by simp⟩

end

end SyntaxTree

end SourceModels
