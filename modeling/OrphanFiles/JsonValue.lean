/-!
JSON values with the fields of an object in a fixed order, and their text over several lines: two blanks for each
level, and nothing between the brackets of an empty list or object.
-/
namespace OrphanFiles

inductive JsonValue where
  | null
  | bool (b : Bool)
  | number (n : Nat)
  | text (s : String)
  | array (items : List JsonValue)
  | object (fields : List (String × JsonValue))

namespace JsonValue

def hexDigit (n : Nat) : Char := if n < 10 then Char.ofNat (48 + n) else Char.ofNat (87 + n)

def escape (c : Char) : String :=
  if c = '"' then "\\\""
  else if c = '\\' then "\\\\"
  else if c = '\n' then "\\n"
  else if c = '\r' then "\\r"
  else if c = '\t' then "\\t"
  else if c = '\x08' then "\\b"
  else if c = '\x0c' then "\\f"
  else if c.toNat < 0x20 then "\\u00" ++ String.ofList [hexDigit (c.toNat / 16), hexDigit (c.toNat % 16)]
  else String.singleton c

def quote (s : String) : String := "\"" ++ String.join (s.toList.map escape) ++ "\""

mutual

def pretty (indent : String) : JsonValue → String
  | .null => "null"
  | .bool b => if b then "true" else "false"
  | .number n => toString n
  | .text s => quote s
  | .array [] => "[]"
  | .array (x :: xs) => "[" ++ prettyItems (indent ++ "  ") (x :: xs) ++ "\n" ++ indent ++ "]"
  | .object [] => "\x7b\x7d"
  | .object (f :: fs) => "\x7b" ++ prettyFields (indent ++ "  ") (f :: fs) ++ "\n" ++ indent ++ "\x7d"

def prettyItems (indent : String) : List JsonValue → String
  | [] => ""
  | [x] => "\n" ++ indent ++ pretty indent x
  | x :: y :: xs => "\n" ++ indent ++ pretty indent x ++ "," ++ prettyItems indent (y :: xs)

def prettyFields (indent : String) : List (String × JsonValue) → String
  | [] => ""
  | [(k, v)] => "\n" ++ indent ++ quote k ++ ": " ++ pretty indent v
  | (k, v) :: f :: fs =>
    "\n" ++ indent ++ quote k ++ ": " ++ pretty indent v ++ "," ++ prettyFields indent (f :: fs)

end

end JsonValue
end OrphanFiles
