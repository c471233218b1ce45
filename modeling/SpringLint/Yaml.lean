import SpringLint.Text.Basic
import SpringLint.Text.Split

/-! Reading YAML documents made of mappings, sequences and plain or quoted scalars. -/

namespace SpringLint

/-- A YAML node. A plain scalar is one written without quotes. -/
inductive Yaml where
  | scalar (isPlain : Bool) (text : String)
  | sequence (items : List Yaml)
  | mapping (entries : List (Yaml × Yaml))
  deriving Repr, Inhabited

namespace Yaml

def missing : Yaml := .scalar true ""

structure Cursor where
  rest : List Char
  column : Nat
  deriving Repr

namespace Cursor

def advance (c : Cursor) (n : Nat) : Cursor :=
  { rest := c.rest.drop n, column := c.column + n }

def moveTo (c : Cursor) (rest : List Char) : Cursor :=
  let passed := c.rest.take (c.rest.length - rest.length)
  let line := passed.reverse.takeWhile (· != '\n')
  if line.length < passed.length then { rest, column := line.length }
  else { rest, column := c.column + passed.length }

end Cursor

def isEnd (cs : List Char) : Bool :=
  match cs with
  | [] => true
  | c :: _ => c == '\n'

def isGap (cs : List Char) : Bool :=
  match cs with
  | [] => true
  | c :: _ => c == ' ' || c == '\t' || c == '\n'

/-- Skips blanks, line ends and comments. In a block collection no tab may indent a line; `tabs`
says whether tabs are skipped up to the next line end. -/
def skipGap (inFlow : Bool) : Nat → (tabs : Bool) → Cursor → Cursor
  | 0, _, c => c
  | fuel + 1, tabs, c =>
    match c.rest with
    | '\n' :: cs => skipGap inFlow fuel inFlow ⟨cs, 0⟩
    | ' ' :: cs => skipGap inFlow fuel tabs ⟨cs, c.column + 1⟩
    | '\t' :: cs => if tabs then skipGap inFlow fuel tabs ⟨cs, c.column + 1⟩ else c
    | '#' :: cs => skipGap inFlow fuel tabs ⟨cs.dropWhile (· != '\n'), c.column⟩
    | _ => c

def blockGap (tabs : Bool) (c : Cursor) : Cursor :=
  skipGap false (c.rest.length + 1) tabs c

def flowGap (c : Cursor) : Cursor :=
  skipGap true (c.rest.length + 1) true c

def inlineGap (c : Cursor) : Cursor :=
  c.advance (c.rest.takeWhile fun ch => ch == ' ' || ch == '\t').length

def spaces (c : Cursor) : Cursor :=
  c.advance (c.rest.takeWhile (· == ' ')).length

def lineDone (c : Cursor) : Bool :=
  isEnd c.rest || c.rest.head? == some '#'

def isMarker (c : Cursor) : Bool :=
  c.column == 0 && (['-', '-', '-'].isPrefixOf c.rest || ['.', '.', '.'].isPrefixOf c.rest)
    && isGap (c.rest.drop 3)

/-- Joins the lines of a scalar: one line end becomes a space, several become one fewer. -/
def foldBreaks (breaks : Nat) : List Char :=
  if breaks ≤ 1 then [' '] else List.replicate (breaks - 1) '\n'

def readBreaks : Nat → List Char → Nat × List Char
  | breaks, '\n' :: cs => readBreaks (breaks + 1) cs
  | breaks, ' ' :: cs => readBreaks breaks cs
  | breaks, '\t' :: cs => readBreaks breaks cs
  | breaks, cs => (breaks, cs)

/-- Number of line ends at the start, and the place after them and the blanks around them. A tab may
not stand in a column before `least`. -/
def leadIn (least breaks column : Nat) : List Char → Option (Nat × Cursor)
  | '\n' :: cs => leadIn least (breaks + 1) 0 cs
  | ' ' :: cs => leadIn least breaks (column + 1) cs
  | '\t' :: cs => if column < least then none else leadIn least breaks (column + 1) cs
  | cs => some (breaks, ⟨cs, column⟩)

def breakAhead (cs : List Char) : Bool :=
  isEnd (cs.dropWhile fun c => c == ' ' || c == '\t') && !cs.isEmpty

def readSingle : Nat → List Char → Option (List Char × List Char)
  | 0, _ => none
  | _, [] => none
  | fuel + 1, '\'' :: '\'' :: cs =>
    (readSingle fuel cs).map fun (text, rest) => ('\'' :: text, rest)
  | _, '\'' :: cs => some ([], cs)
  | fuel + 1, c :: cs =>
    if isGap [c] && breakAhead (c :: cs) then
      let (breaks, rest) := readBreaks 0 (c :: cs)
      (readSingle fuel rest).map fun (text, rest) => (foldBreaks breaks ++ text, rest)
    else (readSingle fuel cs).map fun (text, rest) => (c :: text, rest)

def simpleEscape? (c : Char) : Option Char :=
  match c with
  | '0' => some '\x00'
  | 'a' => some '\x07'
  | 'b' => some '\x08'
  | 't' => some '\t'
  | '\t' => some '\t'
  | 'n' => some '\n'
  | 'v' => some '\x0b'
  | 'f' => some '\x0c'
  | 'r' => some '\r'
  | 'e' => some '\x1b'
  | ' ' => some ' '
  | '"' => some '"'
  | '/' => some '/'
  | '\\' => some '\\'
  | 'N' => some '\u0085'
  | '_' => some '\u00a0'
  | 'L' => some '\u2028'
  | 'P' => some '\u2029'
  | _ => none

def hexLength? (c : Char) : Option Nat :=
  match c with
  | 'x' => some 2
  | 'u' => some 4
  | 'U' => some 8
  | _ => none

def readDouble : Nat → List Char → Option (List Char × List Char)
  | 0, _ => none
  | _, [] => none
  | _, '"' :: cs => some ([], cs)
  | fuel + 1, '\\' :: c :: cs =>
    match simpleEscape? c with
    | some char => (readDouble fuel cs).map fun (text, rest) => (char :: text, rest)
    | none =>
      match hexLength? c with
      | some n =>
        let digits := cs.take n
        if digits.length < n then none
        else
          match Text.digits? 16 0 digits with
          | some code =>
            if code.isValidChar then
              (readDouble fuel (cs.drop n)).map fun (text, rest) => (Char.ofNat code :: text, rest)
            else none
          | none => none
      | none =>
        if isEnd (c :: cs) then
          let (breaks, rest) := readBreaks 0 (c :: cs)
          (readDouble fuel rest).map fun (text, rest) =>
            (List.replicate (breaks - 1) '\n' ++ text, rest)
        else none
  | fuel + 1, c :: cs =>
    if isGap [c] && breakAhead (c :: cs) then
      let (breaks, rest) := readBreaks 0 (c :: cs)
      (readDouble fuel rest).map fun (text, rest) => (foldBreaks breaks ++ text, rest)
    else if c == '\\' then none
    else (readDouble fuel cs).map fun (text, rest) => (c :: text, rest)

def isFlowMark (c : Char) : Bool :=
  c == ',' || c == '[' || c == ']' || c == '{' || c == '}'

def startsPlain (inFlow : Bool) (cs : List Char) : Bool :=
  match cs with
  | [] => false
  | c :: rest =>
    if c == '-' then !isGap rest
    else if c == '?' || c == ':' then !inFlow && !isGap rest
    else !isGap [c] && !isFlowMark c && !"#&*!|>'\"%@\x60".toList.contains c

def endsPlain (cs : List Char) : Bool :=
  match cs with
  | ':' :: rest => isGap rest
  | _ => false

/-- Whether a colon stands here that neither belongs to a plain scalar nor ends it. -/
def colonClash (inFlow : Bool) (cs : List Char) : Bool :=
  match cs with
  | ':' :: d :: _ => inFlow && (isFlowMark d || d == '?')
  | _ => false

def stopsPlain (inFlow : Bool) (cs : List Char) : Bool :=
  isEnd cs || (inFlow && (cs.head?.map isFlowMark).getD false) || endsPlain cs
    || colonClash inFlow cs

def readPlainLine (inFlow : Bool) : List Char → List Char × List Char
  | [] => ([], [])
  | c :: cs =>
    let beyond := cs.dropWhile fun ch => ch == ' ' || ch == '\t'
    let stops := stopsPlain inFlow (c :: cs) ||
      ((c == ' ' || c == '\t') && (beyond.head? == some '#' || stopsPlain inFlow beyond))
    if stops then ([], c :: cs)
    else
      let (text, rest) := readPlainLine inFlow cs
      (c :: text, rest)

/-- A plain scalar from its first line on. Later lines belong to it while they are indented to
`least` at the least; in a flow collection only tabs are held to that. Also tells whether it spans
lines. -/
def readPlain (inFlow : Bool) (least : Nat) : Nat → Cursor → Option (List Char × Bool × Cursor)
  | 0, c => some ([], false, c)
  | fuel + 1, c =>
    let (text, rest) := readPlainLine inFlow c.rest
    let here := c.moveTo rest
    let ahead := inlineGap here
    if colonClash inFlow ahead.rest then none
    else if ahead.rest.head? == some '\n' then
      match leadIn least 0 0 ahead.rest with
      | none => none
      | some (breaks, next) =>
        let ends :=
          next.rest.isEmpty || (!inFlow && next.column < least) || next.rest.head? == some '#'
            || isMarker next || (inFlow && (next.rest.head?.map isFlowMark).getD false)
            || endsPlain next.rest
        if ends then some (text, false, here)
        else if colonClash inFlow next.rest then none
        else
          (readPlain inFlow least fuel next).map fun (others, _, stop) =>
            (text ++ foldBreaks breaks ++ others, true, stop)
    else some (text, false, here)

/-- A quoted or plain scalar; also tells whether it stands on one line. -/
def readScalar (inFlow : Bool) (least : Nat) (c : Cursor) : Option (Yaml × Bool × Cursor) :=
  let fuel := c.rest.length + 1
  let quoted (read : Nat → List Char → Option (List Char × List Char)) (cs : List Char) :
      Option (Yaml × Bool × Cursor) :=
    (read fuel cs).map fun (text, rest) =>
      let stop := c.moveTo rest
      let passed := c.rest.take (c.rest.length - rest.length)
      (.scalar false (String.ofList text), !passed.contains '\n', stop)
  match c.rest with
  | '\'' :: cs => quoted readSingle cs
  | '"' :: cs => quoted readDouble cs
  | cs =>
    if startsPlain inFlow cs then
      (readPlain inFlow least fuel c).map fun (text, spans, stop) =>
        (.scalar true (String.ofList text), !spans, stop)
    else none

/-- Whether a colon that ends a key stands here. After a quoted key in a flow collection anything
may follow it. -/
def isColon (inFlow : Bool) (key : Yaml) (c : Cursor) : Bool :=
  match c.rest, key with
  | ':' :: cs, .scalar true _ => isGap cs
  | ':' :: cs, _ => inFlow || isGap cs
  | _, _ => false

def isDash (c : Cursor) : Bool :=
  match c.rest with
  | '-' :: cs => isGap cs
  | _ => false

mutual

/-- A node inside a flow collection; `least` is where the block around it starts. -/
def readFlow (least : Nat) : Nat → Cursor → Option (Yaml × Cursor)
  | 0, _ => none
  | fuel + 1, c =>
    if isMarker c then none
    else
      match c.rest with
      | '[' :: _ => readFlowItems least fuel [] (flowGap (c.advance 1))
      | '{' :: _ => readFlowEntries least fuel [] (flowGap (c.advance 1))
      | _ => (readScalar true least c).map fun (node, _, stop) => (node, stop)

/-- The value after a key in a flow collection. It may be left out. -/
def readFlowValue (least : Nat) : Nat → Cursor → Yaml × Cursor
  | 0, c => (missing, c)
  | fuel + 1, c =>
    match readFlow least fuel c with
    | some (value, stop) => (value, flowGap stop)
    | none => (missing, c)

/-- The items of a flow sequence up to its closing bracket; `items` are newest first. -/
def readFlowItems (least : Nat) : Nat → List Yaml → Cursor → Option (Yaml × Cursor)
  | 0, _, _ => none
  | fuel + 1, items, c =>
    match c.rest with
    | ']' :: _ => some (.sequence items.reverse, c.advance 1)
    | _ =>
      match readFlow least fuel c with
      | none => none
      | some (item, stop) =>
        let stop := flowGap stop
        let (item, after) :=
          if isColon true item stop then
            let (value, after) := readFlowValue least fuel (flowGap (stop.advance 1))
            (Yaml.mapping [(item, value)], after)
          else (item, stop)
        match after.rest with
        | ',' :: _ => readFlowItems least fuel (item :: items) (flowGap (after.advance 1))
        | ']' :: _ => some (.sequence (item :: items).reverse, after.advance 1)
        | _ => none

/-- The entries of a flow mapping up to its closing brace; `entries` are newest first. -/
def readFlowEntries (least : Nat) : Nat → List (Yaml × Yaml) → Cursor → Option (Yaml × Cursor)
  | 0, _, _ => none
  | fuel + 1, entries, c =>
    match c.rest with
    | '}' :: _ => some (.mapping entries.reverse, c.advance 1)
    | _ =>
      match readFlow least fuel c with
      | none => none
      | some (key, stop) =>
        let stop := flowGap stop
        let (value, after) :=
          if isColon true key stop then readFlowValue least fuel (flowGap (stop.advance 1))
          else (missing, stop)
        match after.rest with
        | ',' :: _ =>
          readFlowEntries least fuel ((key, value) :: entries) (flowGap (after.advance 1))
        | '}' :: _ => some (.mapping ((key, value) :: entries).reverse, after.advance 1)
        | _ => none

end

def readInline (fuel least : Nat) (c : Cursor) : Option (Yaml × Cursor) :=
  let node := match c.rest with
    | '[' :: _ => readFlow least fuel c
    | '{' :: _ => readFlow least fuel c
    | _ => (readScalar false least c).map fun (node, _, stop) => (node, stop)
  match node with
  | none => none
  | some (value, stop) =>
    let after := inlineGap stop
    if lineDone after then some (value, blockGap true after) else none

def readKey (c : Cursor) : Option (Yaml × Cursor) :=
  match readScalar false (c.rest.length + c.column + 1) c with
  | some (key, true, stop) =>
    let colon := inlineGap stop
    if isColon false key colon then some (key, colon) else none
  | _ => none

mutual

/-- A block node at a token whose column is at least `least`. -/
def readBlock : Nat → Nat → Cursor → Option (Yaml × Cursor)
  | 0, _, _ => none
  | fuel + 1, least, c =>
    if isDash c then readItems fuel c.column [] c
    else
      match readKey c with
      | some _ => readEntries fuel c.column [] c
      | none => readInline (c.rest.length + 1) least c

def readItems : Nat → Nat → List Yaml → Cursor → Option (Yaml × Cursor)
  | 0, _, _, _ => none
  | fuel + 1, column, items, c =>
    if c.column == column && isDash c && !c.rest.isEmpty then
      let here := spaces (c.advance 1)
      if lineDone here then
        let next := blockGap false here
        if column < next.column && !next.rest.isEmpty && !isMarker next then
          match readBlock fuel (column + 1) next with
          | some (item, stop) => readItems fuel column (item :: items) stop
          | none => none
        else readItems fuel column (missing :: items) next
      else
        match readBlock fuel (column + 1) here with
        | some (item, stop) => readItems fuel column (item :: items) stop
        | none => none
    else if c.rest.isEmpty || isMarker c || c.column < column ||
        !isDash c && c.column == column then
      some (.sequence items.reverse, c)
    else none

def readEntries : Nat → Nat → List (Yaml × Yaml) → Cursor → Option (Yaml × Cursor)
  | 0, _, _, _ => none
  | fuel + 1, column, entries, c =>
    if c.rest.isEmpty || isMarker c || c.column < column then
      some (.mapping entries.reverse, c)
    else if c.column != column then none
    else
      match readKey c with
      | none => none
      | some (key, colon) =>
        let here := inlineGap (colon.advance 1)
        if lineDone here then
          let next := blockGap true here
          let inside := column < next.column || (column == next.column && isDash next)
          if inside && !next.rest.isEmpty && !isMarker next then
            match readBlock fuel (column + 1) next with
            | some (value, stop) => readEntries fuel column ((key, value) :: entries) stop
            | none => none
          else readEntries fuel column ((key, missing) :: entries) next
        else
          match readInline (here.rest.length + 1) (column + 1) here with
          | some (value, stop) => readEntries fuel column ((key, value) :: entries) stop
          | none => none

end

/-- Line ends written with a carriage return or as a next-line character become line feeds. -/
def unifyLines : List Char → List Char
  | [] => []
  | '\r' :: '\n' :: cs => '\n' :: unifyLines cs
  | c :: cs => (if c == '\r' || c == '\u0085' then '\n' else c) :: unifyLines cs

/-- Whether a document may hold a character. Controls other than blanks and line ends are refused.
-/
def isAllowed (c : Char) : Bool :=
  let n := c.toNat
  n == 0x09 || n == 0x0A || n == 0x0D || (0x20 ≤ n && n ≤ 0x7E) || n == 0x85
    || (0xA0 ≤ n && n ≤ 0xFFFD) || 0x10000 ≤ n

/-- The content of a document, given where it starts, and what follows it. A block collection does
not start on the line of the marker that opens the document. -/
def readDocument (fuel : Nat) (start : Cursor) : Option (Yaml × Cursor) :=
  let onLine := inlineGap (start.advance 3)
  let isOpened := isMarker start && start.rest.head? == some '-'
  if isOpened && !lineDone onLine then readInline fuel 0 onLine
  else
    let body := if isOpened then blockGap true onLine else start
    if body.rest.isEmpty || isMarker body then some (missing, body) else readBlock fuel 0 body

def parse? (text : String) : Option Yaml := do
  guard (text.toList.all isAllowed)
  let (node, stop) ←
    readDocument (text.length + 1) (blockGap false ⟨unifyLines text.toList, 0⟩)
  let rest :=
    if isMarker stop && stop.rest.head? == some '.' then (blockGap true (stop.advance 3)).rest
    else stop.rest
  guard rest.isEmpty
  return node

end Yaml

end SpringLint
