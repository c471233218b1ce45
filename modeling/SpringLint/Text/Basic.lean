/-! Blank characters with the trims and cuts that go by them, and unsigned numbers. -/

namespace SpringLint.Text

/-- The characters with the Unicode property `White_Space`. -/
def isBlank (c : Char) : Bool :=
  let n := c.toNat
  (9 ≤ n && n ≤ 13) || n == 0x20 || n == 0x85 || n == 0xA0 || n == 0x1680
    || (0x2000 ≤ n && n ≤ 0x200A) || n == 0x2028 || n == 0x2029 || n == 0x202F
    || n == 0x205F || n == 0x3000

/-- The bytes that separate tokens: space, tab, line feed, form feed, carriage return. -/
def isBlankByte (b : UInt8) : Bool :=
  b == 0x20 || b == 0x09 || b == 0x0A || b == 0x0C || b == 0x0D

def dropTail (p : Char → Bool) (cs : List Char) : List Char :=
  (cs.reverse.dropWhile p).reverse

def trimBoth (p : Char → Bool) (cs : List Char) : List Char :=
  dropTail p (cs.dropWhile p)

def trimEnd (s : String) : String :=
  String.ofList (dropTail isBlank s.toList)

def trim (s : String) : String :=
  String.ofList (trimBoth isBlank s.toList)

def compact (s : String) : String :=
  String.ofList (s.toList.filter fun c => !isBlank c)

/-- The maximal runs of characters that do not satisfy `p`, the empty ones left out. -/
def runs (p : Char → Bool) : List Char → List (List Char)
  | [] => []
  | c :: cs =>
    if p c then runs p cs
    else
      match cs with
      | [] => [[c]]
      | d :: _ =>
        if p d then [c] :: runs p cs
        else
          match runs p cs with
          | [] => [[c]]
          | run :: rest => (c :: run) :: rest

def words (s : String) : List String :=
  (runs isBlank s.toList).map String.ofList

def digit? (base : Nat) (c : Char) : Option Nat :=
  let n := c.toNat
  let value :=
    if 48 ≤ n && n ≤ 57 then some (n - 48)
    else if 97 ≤ n && n ≤ 102 then some (n - 87)
    else if 65 ≤ n && n ≤ 70 then some (n - 55)
    else none
  value.filter (· < base)

def digits? (base : Nat) : Nat → List Char → Option Nat
  | acc, [] => some acc
  | acc, c :: cs =>
    match digit? base c with
    | some d => digits? base (acc * base + d) cs
    | none => none

/-- A number below 2^32, written with at least one digit and at most one leading plus sign. -/
def word? (base : Nat) (cs : List Char) : Option Nat :=
  let ds := match cs with
    | '+' :: rest => rest
    | _ => cs
  if ds.isEmpty then none else (digits? base 0 ds).filter (· < 4294967296)

end SpringLint.Text
