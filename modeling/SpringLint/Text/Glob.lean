/-! Patterns of paths, matched byte by byte. -/

namespace SpringLint

inductive Glob where
  /-- One of the listed bytes, both ends of a range included; any other one when negated. -/
  | byte (negated : Bool) (ranges : List (UInt8 × UInt8))
  | anything
  | sequence (parts : List Glob)
  | either (branches : List Glob)
  deriving Repr

namespace Glob

/-- The bytes that are left after each way in which a piece can match a start of the input. -/
def rests : Glob → List UInt8 → List (List UInt8)
  | .byte _ _, [] => []
  | .byte negated ranges, b :: bs =>
    if (ranges.any fun (first, last) => first ≤ b && b ≤ last) != negated then [bs] else []
  | .anything, input => input :: tails input
  | .sequence parts, input => restsAll parts input
  | .either branches, input => restsAny branches input
where
  tails : List UInt8 → List (List UInt8)
    | [] => []
    | _ :: bs => bs :: tails bs
  restsAll : List Glob → List UInt8 → List (List UInt8)
    | [], input => [input]
    | part :: parts, input => (rests part input).flatMap (restsAll parts)
  restsAny : List Glob → List UInt8 → List (List UInt8)
    | [], _ => []
    | branch :: branches, input => rests branch input ++ restsAny branches input

def accepts (glob : Glob) (path : String) : Bool :=
  (glob.rests path.toByteArray.toList).any List.isEmpty

inductive Token where
  | literal (c : Char)
  | anyByte
  | star
  | anyFolders
  /-- `/**` at the end, which takes at least one byte after the separator. -/
  | anyBelow
  | between
  | class (negated : Bool) (ranges : List (Char × Char))
  | branches (alternatives : List (List Token))
  deriving Repr

def oneOf (bytes : List UInt8) : List (UInt8 × UInt8) :=
  bytes.map fun b => (b, b)

def literalBytes (c : Char) : List UInt8 :=
  c.toString.toByteArray.toList

/-- The bytes of a character range: the last byte of its first character up to the first byte of
its last, and the other bytes of both. There are none when those are out of order. -/
def rangeBytes? (first last : Char) : Option (List (UInt8 × UInt8)) :=
  if first == last then some (oneOf (literalBytes first))
  else
    let low := literalBytes first
    let high := literalBytes last
    match low.getLast?, high.head? with
    | some a, some b =>
      if a ≤ b then some (oneOf low.dropLast ++ [(a, b)] ++ oneOf high.tail) else none
    | _, _ => none

def classBytes? : List (Char × Char) → Option (List (UInt8 × UInt8))
  | [] => some []
  | (first, last) :: ranges =>
    match rangeBytes? first last, classBytes? ranges with
    | some bytes, some rest => some (bytes ++ rest)
    | _, _ => none

def separator : Glob := .byte false (oneOf (literalBytes '/'))

mutual

def ofToken? : Token → Option (List Glob)
  | .literal c => some ((literalBytes c).map fun b => .byte false [(b, b)])
  | .anyByte => some [.byte true []]
  | .star => some [.anything]
  | .anyFolders => some [.either [.sequence [], separator, .sequence [.anything, separator]]]
  | .anyBelow => some [separator, .byte true [], .anything]
  | .between => some [.either [separator, .sequence [separator, .anything, separator]]]
  | .class negated ranges =>
    (classBytes? ranges).map fun bytes => [.byte negated bytes]
  | .branches alternatives =>
    (ofBranches? alternatives).map fun parts => if parts.isEmpty then [] else [.either parts]

def ofTokens? : List Token → Option (List Glob)
  | [] => some []
  | token :: tokens =>
    match ofToken? token, ofTokens? tokens with
    | some head, some rest => some (head ++ rest)
    | _, _ => none

def ofBranches? : List (List Token) → Option (List Glob)
  | [] => some []
  | alternative :: alternatives =>
    match ofTokens? alternative, ofBranches? alternatives with
    | some parts, some rest => some (if parts.isEmpty then rest else .sequence parts :: rest)
    | _, _ => none

end

/-- The members of a character class, from after its opening bracket and negation, and what
follows its closing bracket. `range` says that a hyphen waits for the end of its range. -/
def readClass : (isFirst range : Bool) → List (Char × Char) → List Char →
    Option (List (Char × Char) × List Char)
  | _, _, _, [] => none
  | isFirst, range, seen, c :: cs =>
    let extend (last : Char) : Option (List (Char × Char) × List Char) :=
      match seen with
      | (first, _) :: others =>
        if last < first then none else readClass false false ((first, last) :: others) cs
      | [] => none
    if c == ']' && !isFirst then
      some (((if range then [('-', '-')] else []) ++ seen).reverse, cs)
    else if c == '-' && !isFirst then
      if range then extend '-' else readClass false true seen cs
    else if range && c != ']' then extend c
    else readClass false false ((c, c) :: seen) cs

/-- The state of reading a pattern: the tokens of the branch being read and of the branches and
alternatives around it, each list newest first, and the character read last. -/
structure Reader where
  tokens : List Token := []
  /-- For each open alternative, its finished branches and the tokens before it. -/
  outer : List (List (List Token) × List Token) := []
  previous : Option Char := none

namespace Reader

def push (r : Reader) (token : Token) : Reader :=
  { r with tokens := token :: r.tokens }

/-- Reads two stars; the rest of the pattern starts after them. Answers what remains. -/
def doubleStar (r : Reader) (rest : List Char) : Reader × List Char :=
  let plain := ((r.push .star).push .star, rest)
  if r.tokens.isEmpty then
    match rest with
    | [] => (r.push .anyFolders, [])
    | '/' :: more => (r.push .anyFolders, more)
    | _ => plain
  else
    let opensBranch := !r.outer.isEmpty && (r.previous == some ',' || r.previous == some '{')
    if r.previous != some '/' && !opensBranch then plain
    else
      let finish (token : Token) (more : List Char) : Reader × List Char :=
        let tokens := match r.tokens with
          | .anyFolders :: _ => r.tokens
          | .anyBelow :: _ => r.tokens
          | _ :: others => token :: others
          | [] => [token]
        ({ r with tokens }, more)
      match rest with
      | [] => finish .anyBelow []
      | '/' :: more => finish .between more
      | c :: _ =>
        if (c == ',' || c == '}') && !r.outer.isEmpty then finish .anyBelow rest
        else plain

end Reader

/-- Reads a pattern; `fuel` is at least its length. An unclosed class or alternative, an unopened
one, a range out of order and a last backslash make no pattern. -/
def readTokens : Nat → Reader → List Char → Option (List Token)
  | _, r, [] => if r.outer.isEmpty then some r.tokens.reverse else none
  | 0, _, _ :: _ => none
  | fuel + 1, r, c :: cs =>
    let next (r : Reader) (rest : List Char) (previous : Char) : Option (List Token) :=
      readTokens fuel { r with previous := some previous } rest
    match c with
    | '?' => next (r.push .anyByte) cs c
    | '*' =>
      match cs with
      | '*' :: rest =>
        let (r', rest') := r.doubleStar rest
        let previous := if rest'.length < rest.length then '/' else '*'
        next r' rest' previous
      | _ => next (r.push .star) cs c
    | '[' =>
      let (negated, body) := match cs with
        | '!' :: rest => (true, rest)
        | '^' :: rest => (true, rest)
        | _ => (false, cs)
      match readClass true false [] body with
      | some (ranges, rest) => next (r.push (.class negated ranges)) rest ']'
      | none => none
    | '{' => next { r with tokens := [], outer := ([], r.tokens) :: r.outer } cs c
    | '}' =>
      match r.outer with
      | [] => none
      | (finished, before) :: outer =>
        let alternatives := (r.tokens.reverse :: finished).reverse
        next { r with tokens := .branches alternatives :: before, outer } cs c
    | ',' =>
      match r.outer with
      | [] => next (r.push (.literal ',')) cs c
      | (finished, before) :: outer =>
        next { r with tokens := [], outer := (r.tokens.reverse :: finished, before) :: outer } cs c
    | '\\' =>
      match cs with
      | [] => none
      | escaped :: rest => next (r.push (.literal escaped)) rest escaped
    | _ => next (r.push (.literal c)) cs c

def parse? (pattern : String) : Option Glob := do
  let tokens ← readTokens pattern.length {} pattern.toList
  match tokens with
  | [.anyFolders] => some .anything
  | _ => (ofTokens? tokens).map .sequence

end Glob

end SpringLint
