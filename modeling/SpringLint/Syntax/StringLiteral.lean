import SpringLint.Text.Basic
import SpringLint.Text.Split

/-! The values of string literals. -/

namespace SpringLint.StringLiteral

open Text

def simpleEscape (c : Char) : Char :=
  match c with
  | 'n' => '\n'
  | 't' => '\t'
  | 'r' => '\r'
  | 'b' => '\x08'
  | 'f' => '\x0c'
  | 's' => ' '
  | _ => c

def octalDigits (count : Nat) (cs : List Char) : List Char :=
  (cs.take count).takeWhile fun c => (digit? 8 c).isSome

def numbered? (n : Nat) : Option Char :=
  if n.isValidChar then some (Char.ofNat n) else none

/-- The character of an escape, given what follows the backslash, and how much of that it takes. An
octal escape has up to three digits, but two at most when the first is above three. A Unicode escape
has four digits after one or more letters `u`. -/
def escape? : List Char → Option (Char × Nat)
  | [] => none
  | 'u' :: cs =>
    let marks := (cs.takeWhile (· == 'u')).length
    let hex := (cs.drop marks).take 4
    if hex.length == 4 then
      ((word? 16 hex).bind numbered?).map fun c => (c, marks + 5)
    else none
  | c :: cs =>
    if (digit? 8 c).isSome then
      let digits := c :: octalDigits (if c ≤ '3' then 2 else 1) cs
      ((digits? 8 0 digits).bind numbered?).map fun value => (value, digits.length)
    else some (simpleEscape c, 1)

/-- The characters that the inside of a literal stands for, of which the first `skip` belong to the
escape before. -/
def decode (skip : Nat) : List Char → Option (List Char)
  | [] => some []
  | c :: cs =>
    match skip with
    | skip + 1 => decode skip cs
    | 0 =>
      if c == '\\' then
        match escape? cs with
        | some (value, length) => (decode length cs).map (value :: ·)
        | none => none
      else (decode 0 cs).map (c :: ·)

/-- The characters of a literal between double quotes. A text block has none. -/
def value? (literal : String) : Option (List Char) := do
  let body ← beforeTail? "\"" (← afterHead? "\"" literal)
  if startsWith "\"\"" body then none else decode 0 body.toList

end SpringLint.StringLiteral
