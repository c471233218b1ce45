import SpringLint.Json.Value
import SpringLint.Text.Basic

/-! Reading JSON text. -/

namespace SpringLint.Json

def skipBlanks (cs : List Char) : List Char :=
  cs.dropWhile fun c => c == ' ' || c == '\n' || c == '\r' || c == '\t'

def unit? (a b c d : Char) : Option Nat :=
  Text.digits? 16 0 [a, b, c, d]

def joinSurrogates (high low : Nat) : Char :=
  Char.ofNat (0x10000 + (high - 0xD800) * 0x400 + (low - 0xDC00))

def simpleEscape? (c : Char) : Option Char :=
  match c with
  | '"' => some '"'
  | '\\' => some '\\'
  | '/' => some '/'
  | 'b' => some '\x08'
  | 'f' => some '\x0c'
  | 'n' => some '\n'
  | 'r' => some '\r'
  | 't' => some '\t'
  | _ => none

/-- The text of a string, read from after its opening quote, and what follows its closing quote.
Control characters and surrogates without their partner are refused. -/
def readString : List Char → Option (List Char × List Char)
  | [] => none
  | '"' :: rest => some ([], rest)
  | '\\' :: 'u' :: a :: b :: c :: d :: rest =>
    match unit? a b c d with
    | none => none
    | some unit =>
      if 0xD800 ≤ unit && unit < 0xDC00 then
        match rest with
        | '\\' :: 'u' :: e :: f :: g :: h :: rest =>
          match unit? e f g h with
          | some low =>
            if 0xDC00 ≤ low && low < 0xE000 then
              (readString rest).map fun (text, rest) => (joinSurrogates unit low :: text, rest)
            else none
          | none => none
        | _ => none
      else if 0xDC00 ≤ unit && unit < 0xE000 then none
      else (readString rest).map fun (text, rest) => (Char.ofNat unit :: text, rest)
  | '\\' :: c :: rest =>
    match simpleEscape? c with
    | some char => (readString rest).map fun (text, rest) => (char :: text, rest)
    | none => none
  | c :: rest =>
    if c == '\\' || c.toNat < 32 then none
    else (readString rest).map fun (text, rest) => (c :: text, rest)

/-- What follows the closing quote of a string, whatever its escapes stand for. -/
def passString? : List Char → Option (List Char)
  | [] => none
  | '"' :: rest => some rest
  | '\\' :: 'u' :: a :: b :: c :: d :: rest =>
    if (unit? a b c d).isSome then passString? rest else none
  | '\\' :: c :: rest => if (simpleEscape? c).isSome then passString? rest else none
  | c :: rest => if c == '\\' || c.toNat < 32 then none else passString? rest

/-- The text of a string, if there is such a text, and what follows its closing quote. -/
def readText? (cs : List Char) : Option (Option String × List Char) :=
  match readString cs with
  | some (text, rest) => some (some (String.ofList text), rest)
  | none => (passString? cs).map fun rest => (none, rest)

def written (cs rest : List Char) : String :=
  String.ofList (cs.take (cs.length - rest.length))

/-- The object with the given members, if every name is a text. -/
def objectOf? (members : List (Option String × Json)) : Option Json := do
  let named ← members.mapM fun member => member.1.map fun name => (name, member.2)
  return .object named

def isDigit (c : Char) : Bool := 48 ≤ c.toNat && c.toNat ≤ 57

def readDigits? (cs : List Char) : Option (List Char × List Char) :=
  let digits := cs.takeWhile isDigit
  if digits.isEmpty then none else some (digits, cs.dropWhile isDigit)

def readFraction? (cs : List Char) : Option (List Char × List Char) :=
  match cs with
  | '.' :: rest => (readDigits? rest).map fun (digits, rest) => ('.' :: digits, rest)
  | _ => some ([], cs)

def readExponent? (cs : List Char) : Option (List Char × List Char) :=
  match cs with
  | e :: rest =>
    if e == 'e' || e == 'E' then
      match rest with
      | sign :: more =>
        if sign == '+' || sign == '-' then
          (readDigits? more).map fun (digits, rest) => (e :: sign :: digits, rest)
        else (readDigits? rest).map fun (digits, rest) => (e :: digits, rest)
      | [] => none
    else some ([], cs)
  | [] => some ([], [])

/-- A number without its sign. A leading zero stands alone. -/
def readMagnitude? (cs : List Char) : Option (Json × List Char) :=
  match readDigits? cs with
  | none => none
  | some (digits, rest) =>
    if digits.length > 1 && digits.head? == some '0' then none
    else
      match readFraction? rest with
      | none => none
      | some (fraction, rest) =>
        match readExponent? rest with
        | none => none
        | some (exponent, rest) =>
          if fraction.isEmpty && exponent.isEmpty then
            (Text.digits? 10 0 digits).map fun n => (.nat n, rest)
          else some (.decimal (String.ofList (digits ++ fraction ++ exponent)), rest)

def readNumber? : List Char → Option (Json × List Char)
  | '-' :: cs =>
    (readMagnitude? cs).map fun (value, rest) => (.decimal ("-" ++ compact value), rest)
  | cs => readMagnitude? cs

def keyword? (word : List Char) (value : Json) (cs : List Char) : Option (Json × List Char) :=
  if word.isPrefixOf cs then some (value, cs.drop word.length) else none

mutual

/-- A value and what follows it; `fuel` bounds the nesting and the number of items. -/
def readValue : Nat → List Char → Option (Json × List Char)
  | 0, _ => none
  | fuel + 1, cs =>
    match skipBlanks cs with
    | '"' :: cs =>
      (readText? cs).map fun (text?, rest) =>
        ((text?.map .string).getD (.halved ("\"" ++ written cs rest)), rest)
    | '[' :: rest =>
      match skipBlanks rest with
      | ']' :: rest => some (.array [], rest)
      | rest => (readItems fuel rest).map fun (items, rest) => (.array items, rest)
    | '{' :: cs =>
      match skipBlanks cs with
      | '}' :: rest => some (.object [], rest)
      | first =>
        (readMembers fuel first).map fun (members, rest) =>
          ((objectOf? members).getD (.halved ("\x7b" ++ written cs rest)), rest)
    | 't' :: rest => keyword? ['r', 'u', 'e'] (.bool true) rest
    | 'f' :: rest => keyword? ['a', 'l', 's', 'e'] (.bool false) rest
    | 'n' :: rest => keyword? ['u', 'l', 'l'] .null rest
    | rest => readNumber? rest

def readItems : Nat → List Char → Option (List Json × List Char)
  | 0, _ => none
  | fuel + 1, cs =>
    match readValue fuel cs with
    | none => none
    | some (item, rest) =>
      match skipBlanks rest with
      | ']' :: rest => some ([item], rest)
      | ',' :: rest => (readItems fuel rest).map fun (items, rest) => (item :: items, rest)
      | _ => none

/-- At least one member and the closing brace. A name that no text stands for is left out. -/
def readMembers : Nat → List Char → Option (List (Option String × Json) × List Char)
  | 0, _ => none
  | fuel + 1, cs =>
    match skipBlanks cs with
    | '"' :: rest =>
      match readText? rest with
      | none => none
      | some (name?, rest) =>
        match skipBlanks rest with
        | ':' :: rest =>
          match readValue fuel rest with
          | none => none
          | some (value, rest) =>
            match skipBlanks rest with
            | '}' :: rest => some ([(name?, value)], rest)
            | ',' :: rest =>
              (readMembers fuel rest).map fun (members, rest) => ((name?, value) :: members, rest)
            | _ => none
        | _ => none
    | _ => none

end

def parse? (text : String) : Option Json :=
  let cs := text.toList
  match readValue (cs.length + 1) cs with
  | some (value, rest) => if (skipBlanks rest).isEmpty then some value else none
  | none => none

end SpringLint.Json
