import SourceModels.Glob

/-! The written form of wildcard patterns. -/
namespace SourceModels.Glob

structure SetState where
  ranges : List (Char × Char) := []
  inRange : Bool := false
  first : Bool := true

def closeRange (ranges : List (Char × Char)) (c : Char) : Option (List (Char × Char)) :=
  match ranges with
  | [] => none
  | (low, _) :: more => if c < low then none else some ((low, c) :: more)

def readSet : SetState → List Char → Option (List (Char × Char) × List Char)
  | _, [] => none
  | state, c :: rest =>
    if c = ']' then
      if state.first then
        readSet ⟨(']', ']') :: state.ranges, state.inRange, false⟩ rest
      else
        let ranges := if state.inRange then ('-', '-') :: state.ranges else state.ranges
        some (ranges.reverse, rest)
    else if c = '-' then
      if state.first then readSet ⟨('-', '-') :: state.ranges, state.inRange, false⟩ rest
      else if state.inRange then do
        let ranges ← closeRange state.ranges '-'
        readSet ⟨ranges, false, false⟩ rest
      else readSet ⟨state.ranges, true, false⟩ rest
    else if state.inRange then do
      let ranges ← closeRange state.ranges c
      readSet ⟨ranges, false, false⟩ rest
    else readSet ⟨(c, c) :: state.ranges, false, false⟩ rest

/-- A set matches single bytes, so a longer character stands for each of its bytes, and a range
runs from the last byte of its start to the first byte of its end. -/
def byteRanges (range : Char × Char) : List (UInt8 × UInt8) :=
  let low := String.utf8EncodeChar range.1
  let high := String.utf8EncodeChar range.2
  if range.1 = range.2 then low.map fun b => (b, b)
  else
    (low.dropLast.map fun b => (b, b)) ++ [(low.getLastD 0, high.headD 0)] ++
      (high.tail.map fun b => (b, b))

structure Group where
  finished : List Glob := []
  current : List Glob := []

structure ReadState where
  outer : List Glob := []
  groups : List Group := []

namespace ReadState

def current (state : ReadState) : List Glob :=
  match state.groups with
  | [] => state.outer
  | group :: _ => group.current

def setCurrent (state : ReadState) (parts : List Glob) : ReadState :=
  match state.groups with
  | [] => ⟨parts, []⟩
  | group :: more => ⟨state.outer, ⟨group.finished, parts⟩ :: more⟩

def push (state : ReadState) (part : Glob) : ReadState :=
  state.setCurrent (part :: state.current)

def nested (state : ReadState) : Bool := !state.groups.isEmpty

def finishBranch (group : Group) : List Glob := ofList group.current.reverse :: group.finished

def nextBranch (state : ReadState) : ReadState :=
  match state.groups with
  | [] => state
  | group :: more => ⟨state.outer, ⟨finishBranch group, []⟩ :: more⟩

def close? (state : ReadState) : Option ReadState :=
  match state.groups with
  | [] => none
  | group :: more =>
    some (push ⟨state.outer, more⟩ (ofBranches (finishBranch group).reverse))

def literal (state : ReadState) (c : Char) : ReadState :=
  (String.utf8EncodeChar c).foldl (fun s b => s.push (.byte b)) state

def twoStars (state : ReadState) : ReadState := (state.push .anyRun).push .anyRun

def replaceNewest (state : ReadState) (part : Glob) : ReadState :=
  match state.current with
  | .leading :: _ => state
  | .inside :: _ => state
  | _ :: more => state.setCurrent (part :: more)
  | [] => state.push part

end ReadState

def readDoubleStar (state : ReadState) (before : Option Char) (rest : List Char) :
    ReadState × Char × List Char :=
  if state.current.isEmpty then
    match rest with
    | [] => (state.push .leading, '*', [])
    | '/' :: more => (state.push .leading, '/', more)
    | _ => (state.twoStars, '*', rest)
  else if before ≠ some '/' ∧ ¬(state.nested ∧ (before = some ',' ∨ before = some '{')) then
    (state.twoStars, '*', rest)
  else
    match rest with
    | [] => (state.replaceNewest .inside, '*', [])
    | '/' :: more => (state.replaceNewest .between, '/', more)
    | c :: _ =>
      if state.nested ∧ (c = ',' ∨ c = '}') then (state.replaceNewest .inside, '*', rest)
      else (state.twoStars, '*', rest)

def readFrom : (fuel : Nat) → ReadState → (before : Option Char) → List Char → Option ReadState
  | _, state, _, [] => if state.nested then none else some state
  | 0, _, _, _ => none
  | fuel + 1, state, before, c :: rest =>
    if c = '?' then readFrom fuel (state.push .anyByte) (some c) rest
    else if c = '*' then
      match rest with
      | '*' :: more =>
        let (state, last, more) := readDoubleStar state before more
        readFrom fuel state (some last) more
      | _ => readFrom fuel (state.push .anyRun) (some c) rest
    else if c = '[' then
      let (negated, body) := match rest with
        | '!' :: body => (true, body)
        | '^' :: body => (true, body)
        | _ => (false, rest)
      match readSet {} body with
      | none => none
      | some (ranges, more) =>
        readFrom fuel (state.push (.oneOf negated (ranges.flatMap byteRanges))) (some ']') more
    else if c = '{' then
      readFrom fuel ⟨state.outer, ⟨[], []⟩ :: state.groups⟩ (some c) rest
    else if c = '}' then
      match state.close? with
      | none => none
      | some state => readFrom fuel state (some c) rest
    else if c = ',' ∧ state.nested then readFrom fuel state.nextBranch (some c) rest
    else if c = '\\' then
      match rest with
      | [] => none
      | escaped :: more => readFrom fuel (state.literal escaped) (some escaped) more
    else readFrom fuel (state.literal c) (some c) rest

def dot : UInt8 := 46

def isByte : Glob → Bool
  | .byte _ => true
  | _ => false

/-- Whether a pattern, given by its parts, newest first, asks for a file name or an extension that
ends in a dot. A path that ends in a dot has neither, so that such a pattern matches nothing.
Literal text alone, or after any directories or any run when there is more of it, is compared with
the end of the path instead. -/
def endsNameless (parts : List Glob) : Bool :=
  let tail := parts.takeWhile isByte
  tail.head? == some (.byte dot) &&
    match parts.dropWhile isByte with
    | [] => false
    | [.leading] => !tail.contains (.byte slash)
    | [.anyRun] | [.anyRun, .leading] => tail.length == 1
    | _ => true

def read? (text : String) : Option Glob := do
  let state ← readFrom text.length {} none text.toList
  match state.outer with
  | [.leading] => some .anyRun
  | parts => if endsNameless parts then some nothing else some (ofList parts.reverse)

end SourceModels.Glob
