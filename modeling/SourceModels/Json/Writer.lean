import SourceModels.Bytes

/-! Writing JSON texts: quotes, backslashes and control characters are escaped, all else stands for
itself. -/
namespace SourceModels.Json

def escapeChar (c : Char) : List Char :=
  if c = '"' then ['\\', '"']
  else if c = '\\' then ['\\', '\\']
  else if c = '\n' then ['\\', 'n']
  else if c = '\r' then ['\\', 'r']
  else if c = '\t' then ['\\', 't']
  else if c = '\x08' then ['\\', 'b']
  else if c = '\x0C' then ['\\', 'f']
  else if c.toNat < 32 then
    ['\\', 'u', '0', '0', Bytes.hexDigit (c.toNat / 16), Bytes.hexDigit (c.toNat % 16)]
  else [c]

def quote (text : String) : List Char := '"' :: text.toList.flatMap escapeChar ++ ['"']

def object (members : List (String × String)) : List Char :=
  '{' :: List.flatten ((members.map fun m => quote m.1 ++ ':' :: quote m.2).intersperse [',']) ++
    ['\x7d']

end SourceModels.Json
