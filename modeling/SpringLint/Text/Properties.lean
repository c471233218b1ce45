import SpringLint.Text.Basic
import SpringLint.Text.Slice
import SpringLint.Text.Split

/-! Documents of keys and values, one pair a logical line, with escapes and continued lines. -/

namespace SpringLint.Properties

open Text

/-- A line goes on when it ends in an odd number of backslashes. -/
def continues (line : List Char) : Bool :=
  (line.reverse.takeWhile (· == '\\')).length % 2 == 1

/-- A line that holds no pair: blank, or a comment. -/
def isSkipped (line : List Char) : Bool :=
  match line with
  | [] => true
  | c :: _ => c == '#' || c == '!'

/-- The logical lines of a document, given its natural lines and the logical line begun by earlier
ones. A continued line loses its last backslash and takes the next line without its indentation. -/
def logicalLines : Option (List Char) → List (List Char) → List (List Char)
  | none, [] => []
  | some open_, [] => [open_]
  | none, line :: rest =>
    let line := line.dropWhile isBlank
    if isSkipped line then logicalLines none rest
    else if continues line then logicalLines (some line.dropLast) rest
    else line :: logicalLines none rest
  | some open_, line :: rest =>
    let joined := open_ ++ line.dropWhile isBlank
    if continues joined then logicalLines (some joined.dropLast) rest
    else joined :: logicalLines none rest

/-- The key of a logical line, still escaped, and what follows it. A key ends before the first
equals sign, colon or blank that no backslash protects. -/
def splitKey : List Char → List Char × List Char
  | [] => ([], [])
  | '\\' :: [] => (['\\'], [])
  | '\\' :: c :: cs =>
    let (key, rest) := splitKey cs
    ('\\' :: c :: key, rest)
  | c :: cs =>
    if c == '=' || c == ':' || isBlank c then ([], c :: cs)
    else
      let (key, rest) := splitKey cs
      (c :: key, rest)

/-- The value after a key: blanks, at most one equals sign or colon, and blanks come first. -/
def valuePart (rest : List Char) : List Char :=
  match rest.dropWhile isBlank with
  | '=' :: more => more.dropWhile isBlank
  | ':' :: more => more.dropWhile isBlank
  | more => more

/-- The characters that up to four hexadecimal digits stand for: the one they number, or
themselves when they number none. -/
def decodeHex (ds : List Char) : List Char :=
  match word? 16 ds with
  | some n => if n.isValidChar then [Char.ofNat n] else ds
  | none => ds

def unescape : List Char → List Char
  | [] => []
  | '\\' :: [] => []
  | '\\' :: 't' :: cs => '\t' :: unescape cs
  | '\\' :: 'n' :: cs => '\n' :: unescape cs
  | '\\' :: 'r' :: cs => '\r' :: unescape cs
  | '\\' :: 'f' :: cs => '\x0c' :: unescape cs
  | '\\' :: 'u' :: a :: b :: c :: d :: cs => decodeHex [a, b, c, d] ++ unescape cs
  | '\\' :: 'u' :: cs => decodeHex cs
  | '\\' :: c :: cs => c :: unescape cs
  | c :: cs => c :: unescape cs

def pair (line : List Char) : String × String :=
  let (key, rest) := splitKey line
  (String.ofList (unescape key), String.ofList (unescape (valuePart rest)))

def read (text : String) : List (String × String) :=
  (logicalLines none ((lines text).map String.toList)).map pair

end SpringLint.Properties
