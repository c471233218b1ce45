import SpringLint.Text.Quoted

/-! JSON values and their written forms. -/

namespace SpringLint

/-- A JSON value. An object keeps its members in the order in which they are written. -/
inductive Json where
  | null
  | bool (value : Bool)
  | nat (value : Nat)
  | decimal (text : String)
  | string (text : String)
  | array (items : List Json)
  | object (members : List (String × Json))
  /-- A value, as it is written, that can be passed over but not read: an escape in it, or in the
  name of one of its members, stands for half of a character. -/
  | halved (text : String)
  deriving Repr, Inhabited

namespace Json

def escapeChar (c : Char) : List Char :=
  if c == '"' then ['\\', '"']
  else if c == '\\' then ['\\', '\\']
  else if c == '\n' then ['\\', 'n']
  else if c == '\r' then ['\\', 'r']
  else if c == '\t' then ['\\', 't']
  else if c == '\x08' then ['\\', 'b']
  else if c == '\x0c' then ['\\', 'f']
  else if c.toNat < 32 then
    ['\\', 'u', '0', '0', Nat.digitChar (c.toNat / 16), Nat.digitChar (c.toNat % 16)]
  else [c]

def quote (s : String) : String :=
  String.ofList ('"' :: s.toList.flatMap escapeChar ++ ['"'])

def indentation (depth : Nat) : String :=
  String.ofList (List.replicate (2 * depth) ' ')

def bracket (depth : Nat) (opening closing : String) (items : List String) : String :=
  if items.isEmpty then opening ++ closing
  else
    opening ++ "\n"
      ++ String.intercalate ",\n" (items.map fun item => indentation (depth + 1) ++ item)
      ++ "\n" ++ indentation depth ++ closing

mutual

def pretty (depth : Nat) : Json → String
  | .null => "null"
  | .bool true => "true"
  | .bool false => "false"
  | .nat n => toString n
  | .decimal text => text
  | .string s => quote s
  | .array items => bracket depth "[" "]" (prettyItems (depth + 1) items)
  | .object members => bracket depth "\x7b" "\x7d" (prettyMembers (depth + 1) members)
  | .halved text => text

def prettyItems (depth : Nat) : List Json → List String
  | [] => []
  | item :: items => pretty depth item :: prettyItems depth items

def prettyMembers (depth : Nat) : List (String × Json) → List String
  | [] => []
  | (name, value) :: members =>
    (quote name ++ ": " ++ pretty depth value) :: prettyMembers depth members

end

mutual

def compact : Json → String
  | .null => "null"
  | .bool true => "true"
  | .bool false => "false"
  | .nat n => toString n
  | .decimal text => text
  | .string s => quote s
  | .array items => "[" ++ String.intercalate "," (compactItems items) ++ "]"
  | .object members =>
    "\x7b" ++ String.intercalate "," (compactMembers members) ++ "\x7d"
  | .halved text => text

def compactItems : List Json → List String
  | [] => []
  | item :: items => compact item :: compactItems items

def compactMembers : List (String × Json) → List String
  | [] => []
  | (name, value) :: members => (quote name ++ ":" ++ compact value) :: compactMembers members

end

/-- The value of a member of an object, the last one of that name. -/
def get? (name : String) : Json → Option Json
  | .object members => members.reverse.lookup name
  | _ => none

end Json

end SpringLint
