import SourceModels.Bytes
import SourceModels.Text.Blank
import SourceModels.Text.Decimal

/-! Addresses of web services: scheme, host with a number, path and query. -/
namespace SourceModels

structure Url where
  secure : Bool
  host : String
  portNumber : Nat
  path : String
  query : Option String
  deriving DecidableEq, Repr

namespace Url

def isSlash (c : Char) : Bool := c == '/' || c == '\\'

def isControlOrSpace (c : Char) : Bool := c.toNat ≤ 32

def cleaned (text : List Char) : List Char :=
  (Text.dropEnd isControlOrSpace (text.dropWhile isControlOrSpace)).filter
    fun c => c ≠ '\t' ∧ c ≠ '\n' ∧ c ≠ '\r'

def hexValue? (c : Char) : Option Nat :=
  if '0' ≤ c ∧ c ≤ '9' then some (c.toNat - 48)
  else if 'a' ≤ c ∧ c ≤ 'f' then some (c.toNat - 87)
  else if 'A' ≤ c ∧ c ≤ 'F' then some (c.toNat - 55)
  else none

def unescape : List Char → List Char
  | '%' :: a :: b :: rest =>
    match hexValue? a, hexValue? b with
    | some x, some y =>
      if x * 16 + y < 128 then Char.ofNat (x * 16 + y) :: unescape rest
      else '%' :: unescape (a :: b :: rest)
    | _, _ => '%' :: unescape (a :: b :: rest)
  | c :: rest => c :: unescape rest
  | [] => []

def percent (b : UInt8) : List Char :=
  ['%', (Bytes.hexDigit (b.toNat / 16)).toUpper, (Bytes.hexDigit (b.toNat % 16)).toUpper]

def escape (set : List Char) (text : List Char) : List Char :=
  text.flatMap fun c =>
    if c.toNat < 32 ∨ 127 ≤ c.toNat ∨ set.contains c then
      (String.utf8EncodeChar c).flatMap percent
    else [c]

def pathSet : List Char := [' ', '"', '#', '<', '>', '?', '\x60', '\x7b', '\x7d']

def querySet : List Char := [' ', '"', '#', '<', '>', '\'']

def isSingleDot (segment : List Char) : Bool :=
  segment.map Char.toLower ∈ [['.'], ['%', '2', 'e']]

def isDoubleDot (segment : List Char) : Bool :=
  segment.map Char.toLower ∈
    [['.', '.'], ['.', '%', '2', 'e'], ['%', '2', 'e', '.'], ['%', '2', 'e', '%', '2', 'e']]

def resolveDots : (seen : List (List Char)) → List (List Char) → List (List Char)
  | seen, [] => seen.reverse
  | seen, segment :: rest =>
    if isDoubleDot segment then
      if rest = [] then resolveDots ([] :: seen.tail) rest else resolveDots seen.tail rest
    else if isSingleDot segment then
      if rest = [] then resolveDots ([] :: seen) rest else resolveDots seen rest
    else resolveDots (segment :: seen) rest

def normalPath (path : List Char) : List Char :=
  let segments := Text.splitOn '/' (path.map fun c => if c = '\\' then '/' else c)
  let body := match segments with
    | [] :: rest => rest
    | other => other
  (resolveDots [] body).flatMap fun segment => '/' :: escape pathSet segment

def numericPart? (part : List Char) : Option Nat :=
  let inBase (base : Nat) (digits : List Char) : Option Nat :=
    digits.foldlM (fun n c => do
      let d ← hexValue? c
      if d < base then some (n * base + d) else none) 0
  match part with
  | [] => none
  | '0' :: 'x' :: rest => inBase 16 rest
  | '0' :: 'X' :: rest => inBase 16 rest
  | '0' :: rest => inBase 8 rest
  | _ => inBase 10 part

def dotted (n : Nat) : String :=
  ".".intercalate [toString (n / 2 ^ 24), toString (n / 2 ^ 16 % 256), toString (n / 2 ^ 8 % 256),
    toString (n % 256)]

/-- The address of a numeric host: every part but the last is a byte, and the last one fills the
remaining bytes. -/
def numericHost? (parts : List (List Char)) : Option String := do
  let numbers ← parts.mapM numericPart?
  let last ← numbers.getLast?
  let front := numbers.dropLast
  if 4 < numbers.length ∨ front.any (255 < ·) ∨ 256 ^ (5 - numbers.length) ≤ last then none
  else some (dotted (Bytes.ofBigEndian (front.map UInt8.ofNat) * 256 ^ (5 - numbers.length) + last))

def forbiddenInHost : List Char :=
  ['\x00', '\t', '\n', '\r', ' ', '#', '/', ':', '<', '>', '?', '@', '[', '\\', ']', '^', '|', '%',
    '\x7f']

def host? (text : List Char) : Option String :=
  let name := (unescape text).map Char.toLower
  if name = [] then none
  else if name.head? = some '[' then
    if name.getLast? = some ']' then some (String.ofList name) else none
  else if name.any fun c => forbiddenInHost.contains c || c.toNat < 32 then none
  else
    let parts := Text.splitOn '.' name
    let parts := if parts.getLast? = some [] ∧ 1 < parts.length then parts.dropLast else parts
    let last := parts.getLastD []
    if (last ≠ [] ∧ last.all Decimal.isDigit) ∨ (numericPart? last).isSome then numericHost? parts
    else some (String.ofList name)

def splitPort (text : List Char) : List Char × Option (List Char) :=
  let reversed := text.reverse
  let tail := reversed.takeWhile fun c => c ≠ ':' ∧ c ≠ ']'
  match reversed.drop tail.length with
  | ':' :: before => (before.reverse, some tail.reverse)
  | _ => (text, none)

def portNumber? (default : Nat) : Option (List Char) → Option Nat
  | none => some default
  | some [] => some default
  | some digits => (Decimal.digits? digits).filter (· < 65536)

def parse? (text : String) : Option Url := do
  let text := cleaned text.toList
  let scheme := text.takeWhile (· ≠ ':')
  let secure ← match String.ofList (scheme.map Char.toLower) with
    | "http" => some false
    | "https" => some true
    | _ => none
  match text.drop scheme.length with
  | [] => none
  | _ :: rest =>
    let rest := rest.dropWhile isSlash
    let authority := rest.takeWhile fun c => !isSlash c && c ≠ '?' && c ≠ '#'
    let rest := rest.drop authority.length
    let address := (Text.afterLast? ['@'] authority).getD authority
    let (name, digits) := splitPort address
    let host ← host? name
    let number ← portNumber? (if secure then 443 else 80) digits
    let path := rest.takeWhile fun c => c ≠ '?' ∧ c ≠ '#'
    let query := match rest.drop path.length with
      | '?' :: more => some (String.ofList (escape querySet (more.takeWhile (· ≠ '#'))))
      | _ => none
    let path := match normalPath path with
      | [] => ['/']
      | segments => segments
    some ⟨secure, host, number, String.ofList path, query⟩

def target (url : Url) : String :=
  match url.query with
  | some query => url.path ++ "?" ++ query
  | none => url.path

end Url

end SourceModels
