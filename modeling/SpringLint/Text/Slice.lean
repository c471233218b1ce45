import SpringLint.Text.Basic

/-! Ranges of a text by byte offset, and its lines. -/

namespace SpringLint

structure Span where
  start : Nat
  stop : Nat
  deriving DecidableEq, Repr, Inhabited

namespace Span

def contains (outer inner : Span) : Bool :=
  outer.start ≤ inner.start && inner.stop ≤ outer.stop

end Span

namespace Text

/-- The bytes `start` to `stop` of a text. There is no such text when the offsets are out of order,
past the end, or cut a character. -/
def slice? (s : String) (start stop : Nat) : Option String :=
  if start ≤ stop ∧ stop ≤ s.utf8ByteSize then
    String.fromUTF8? (s.toByteArray.extract start stop)
  else none

def slice (s : String) (span : Span) : String :=
  (slice? s span.start span.stop).getD ""

/-- The first offset from `pos` that is `limit` or holds no blank byte. -/
def skipBlankBytes (s : String) (pos limit : Nat) : Nat :=
  if h : pos < limit then
    if hs : pos < s.toByteArray.size then
      if isBlankByte (s.toByteArray[pos]) then skipBlankBytes s (pos + 1) limit else pos
    else pos
  else pos
termination_by limit - pos

def lineStartsFrom (pos : Nat) : List Char → List Nat
  | [] => []
  | c :: cs =>
    let next := pos + c.utf8Size
    if c == '\n' then next :: lineStartsFrom next cs else lineStartsFrom next cs

def lineStarts (s : String) : List Nat :=
  0 :: lineStartsFrom 0 s.toList

/-- Halves the range from `lo` up to `hi` of a list until it has come down to the place behind the
items that satisfy `p`, where those come first. There are at most `fuel` halvings. -/
def bisect (p : Nat → Bool) (items : List Nat) : Nat → Nat → Nat → Nat
  | 0, lo, _ => lo
  | fuel + 1, lo, hi =>
    if lo < hi then
      let middle := (lo + hi) / 2
      if p (items.getD middle 0) then bisect p items fuel (middle + 1) hi
      else bisect p items fuel lo middle
    else lo

/-- The number of lines that start at or before `offset`, which is the number, counted from one, of
the line that holds it. -/
def lineOf (starts : List Nat) (offset : Nat) : Nat :=
  bisect (· ≤ offset) starts starts.length 0 starts.length

def lineStart (starts : List Nat) (offset : Nat) : Nat :=
  starts.getD (lineOf starts offset - 1) 0

/-- The lines of a text, without the line feed that ends each or the carriage return before it. -/
def lines (s : String) : List String :=
  let close (cs : List Char) : String :=
    String.ofList (match cs with
      | '\r' :: rest => rest.reverse
      | _ => cs.reverse)
  let rec go (line : List Char) : List Char → List String
    | [] => if line.isEmpty then [] else [String.ofList line.reverse]
    | c :: cs => if c == '\n' then close line :: go [] cs else go (c :: line) cs
  go [] s.toList

end Text

end SpringLint
