/-! Prefixes, suffixes, separators and substrings of texts. -/

namespace SpringLint.Text

def startsWith (head s : String) : Bool :=
  head.toList.isPrefixOf s.toList

def endsWith (tail s : String) : Bool :=
  tail.toList.isSuffixOf s.toList

def listAfter? [BEq α] : List α → List α → Option (List α)
  | [], s => some s
  | _ :: _, [] => none
  | a :: head, b :: s => if a == b then listAfter? head s else none

def afterHead? (head s : String) : Option String :=
  (listAfter? head.toList s.toList).map String.ofList

def beforeTail? (tail s : String) : Option String :=
  (listAfter? tail.toList.reverse s.toList.reverse).map fun cs => String.ofList cs.reverse

def cutList? [BEq α] (sep : α) : List α → Option (List α × List α)
  | [] => none
  | a :: s =>
    if a == sep then some ([], s)
    else (cutList? sep s).map fun (head, tail) => (a :: head, tail)

def cut? (sep : Char) (s : String) : Option (String × String) :=
  (cutList? sep s.toList).map fun (head, tail) => (String.ofList head, String.ofList tail)

def cutLast? (sep : Char) (s : String) : Option (String × String) :=
  (cutList? sep s.toList.reverse).map fun (tail, head) =>
    (String.ofList head.reverse, String.ofList tail.reverse)

def lastPart (sep : Char) (s : String) : String :=
  match cutLast? sep s with
  | some (_, tail) => tail
  | none => s

def splitList [BEq α] (sep : α) : List α → List (List α)
  | [] => [[]]
  | a :: s =>
    if a == sep then [] :: splitList sep s
    else
      match splitList sep s with
      | [] => [[a]]
      | piece :: rest => (a :: piece) :: rest

def split (sep : Char) (s : String) : List String :=
  (splitList sep s.toList).map String.ofList

def indexOfList? [BEq α] (needle : List α) : List α → Option Nat
  | [] => if needle.isEmpty then some 0 else none
  | a :: s =>
    if needle.isPrefixOf (a :: s) then some 0
    else (indexOfList? needle s).map (· + 1)

def hasChar (c : Char) (s : String) : Bool :=
  s.toList.contains c

/-- Replaces the non-overlapping occurrences of `head`, from the left, `skip` elements of the last
one still to be passed over. -/
def replaceList [BEq α] (head new : List α) : Nat → List α → List α
  | _, [] => []
  | skip + 1, _ :: s => replaceList head new skip s
  | 0, a :: s =>
    if !head.isEmpty && head.isPrefixOf (a :: s) then
      new ++ replaceList head new (head.length - 1) s
    else a :: replaceList head new 0 s

def replaceAll (old new s : String) : String :=
  String.ofList (replaceList old.toList new.toList 0 s.toList)

/-- Drops every leading repetition of `head`; `fuel` bounds the repetitions. -/
def dropHeads (head : String) : Nat → String → String
  | 0, s => s
  | fuel + 1, s =>
    match afterHead? head s with
    | some rest => dropHeads head fuel rest
    | none => s

def joinWith (sep : String) (parts : List String) : String :=
  String.intercalate sep parts

end SpringLint.Text
