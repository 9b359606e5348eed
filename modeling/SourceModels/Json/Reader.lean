import SourceModels.Json.Value

/-! Reading a JSON document. The bytes are cut into tokens, and the tokens drive a machine that
keeps the arrays and objects that are still open. -/
namespace SourceModels.Json

inductive Token where
  | openArray
  | closeArray
  | openObject
  | closeObject
  | colon
  | comma
  | scalar (v : Value)
  deriving Repr

def readString : (seen : Bytes) → Bytes → Option (Bytes × Bytes)
  | _, [] => none
  | seen, 34 :: rest => some (seen.reverse, rest)
  | seen, 92 :: 117 :: a :: b :: c :: d :: rest =>
    match hexFour? a b c d with
    | some _ => readString (d :: c :: b :: a :: 117 :: 92 :: seen) rest
    | none => none
  | seen, 92 :: b :: rest =>
    match escaped? b with
    | some _ => readString (b :: 92 :: seen) rest
    | none => none
  | seen, b :: rest => if b < 32 then none else readString (b :: seen) rest

def digits (bytes : Bytes) : Bytes × Bytes := (bytes.takeWhile isDigit, bytes.dropWhile isDigit)

def readWhole (bytes : Bytes) : Option (Bytes × Bytes) :=
  match bytes with
  | 48 :: rest => some ([48], rest)
  | _ =>
    let (ds, rest) := digits bytes
    if ds = [] then none else some (ds, rest)

def readFraction (bytes : Bytes) : Option (Bytes × Bytes) :=
  match bytes with
  | 46 :: rest =>
    let (ds, rest) := digits rest
    if ds = [] then none else some (46 :: ds, rest)
  | _ => some ([], bytes)

def readExponent (bytes : Bytes) : Option (Bytes × Bytes) :=
  match bytes with
  | e :: rest =>
    if e = 101 ∨ e = 69 then
      let (sign, rest) : Bytes × Bytes := match rest with
        | 43 :: rest => ([43], rest)
        | 45 :: rest => ([45], rest)
        | _ => ([], rest)
      let (ds, rest) := digits rest
      if ds = [] then none else some (e :: sign ++ ds, rest)
    else some ([], bytes)
  | [] => some ([], [])

def readNumber (bytes : Bytes) : Option (Bytes × Bytes) := do
  let (sign, rest) : Bytes × Bytes := match bytes with
    | 45 :: rest => ([45], rest)
    | _ => ([], bytes)
  let (whole, rest) ← readWhole rest
  let (fraction, rest) ← readFraction rest
  let (exponent, rest) ← readExponent rest
  some (sign ++ whole ++ fraction ++ exponent, rest)

def isSpace (b : UInt8) : Bool := b == 32 || b == 9 || b == 10 || b == 13

def readToken (b : UInt8) (rest : Bytes) : Option (Token × Bytes) :=
  match b with
  | 91 => some (.openArray, rest)
  | 93 => some (.closeArray, rest)
  | 123 => some (.openObject, rest)
  | 125 => some (.closeObject, rest)
  | 58 => some (.colon, rest)
  | 44 => some (.comma, rest)
  | 34 => (readString [] rest).map fun (raw, rest) => (.scalar (.string raw), rest)
  | 110 => word "ull" .null
  | 116 => word "rue" (.bool true)
  | 102 => word "alse" (.bool false)
  | _ => (readNumber (b :: rest)).map fun (text, rest) => (.scalar (.number text), rest)
where
  word (more : String) (v : Value) : Option (Token × Bytes) :=
    ((Bytes.ofText more).isPrefixOf? rest).map fun rest => (.scalar v, rest)

def tokensFrom : (fuel : Nat) → (seen : List Token) → Bytes → Option (List Token)
  | 0, _, _ => none
  | fuel + 1, seen, bytes =>
    match bytes.dropWhile isSpace with
    | [] => some seen.reverse
    | b :: rest =>
      match readToken b rest with
      | some (token, rest) => tokensFrom fuel (token :: seen) rest
      | none => none

def tokens (bytes : Bytes) : Option (List Token) := tokensFrom (bytes.length + 1) [] bytes

inductive Frame where
  | array (seen : List Value)
  | object (seen : List Value)

inductive Expect where
  | value (orClose : Bool)
  | key (orClose : Bool)
  | colon
  | more
  | nothing (v : Value)

structure State where
  frames : List Frame
  expect : Expect

def complete (frames : List Frame) (v : Value) : State :=
  match frames with
  | [] => ⟨[], .nothing v⟩
  | .array seen :: outer => ⟨.array (v :: seen) :: outer, .more⟩
  | .object seen :: outer => ⟨.object (v :: seen) :: outer, .more⟩

def close (state : State) (token : Token) : Option State :=
  match state.frames, token with
  | .array seen :: outer, .closeArray => some (complete outer (.array seen.reverse))
  | .object seen :: outer, .closeObject => some (complete outer (.object seen.reverse))
  | _, _ => none

def step (state : State) (token : Token) : Option State :=
  match state.expect, token with
  | .value _, .scalar v => some (complete state.frames v)
  | .value _, .openArray => some ⟨.array [] :: state.frames, .value true⟩
  | .value _, .openObject => some ⟨.object [] :: state.frames, .key true⟩
  | .value true, .closeArray => close state token
  | .key _, .scalar (.string raw) =>
    match state.frames with
    | .object seen :: outer => some ⟨.object (.string raw :: seen) :: outer, .colon⟩
    | _ => none
  | .key true, .closeObject => close state token
  | .colon, .colon => some ⟨state.frames, .value false⟩
  | .more, .comma =>
    match state.frames with
    | .array _ :: _ => some ⟨state.frames, .value false⟩
    | .object _ :: _ => some ⟨state.frames, .key false⟩
    | [] => none
  | .more, .closeArray => close state token
  | .more, .closeObject => close state token
  | _, _ => none

def read? (bytes : Bytes) : Option Value := do
  let state ← (← tokens bytes).foldlM step ⟨[], .value false⟩
  match state.expect with
  | .nothing v => some v
  | _ => none

end SourceModels.Json
