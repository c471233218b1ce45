/-! Differences between two texts, line by line, and their unified form. -/

namespace SpringLint.Diff

/-- The lines of a text, each with what ends it: a line feed, a carriage return, or both. -/
def splitLines (text : String) : List String :=
  let close (line : List Char) : String := String.ofList line.reverse
  let rec go (line : List Char) : List Char → List String
    | [] => if line.isEmpty then [] else [close line]
    | '\r' :: '\n' :: cs => close ('\n' :: '\r' :: line) :: go [] cs
    | c :: cs => if c == '\r' || c == '\n' then close (c :: line) :: go [] cs else go (c :: line) cs
  go [] text.toList

inductive Tag where
  | equal
  | delete
  | insert
  deriving DecidableEq, Repr

/-- A run of lines that both texts share, that only the old one has, or that only the new one has.
It starts at line `old` of the old text and `new` of the new one. -/
structure Run where
  tag : Tag
  old : Nat
  new : Nat
  length : Nat
  deriving DecidableEq, Repr

namespace Run

def newLength (r : Run) : Nat := if r.tag = .delete then 0 else r.length

end Run

def commonHead (a b : Array String) (i iStop j jStop : Nat) : Nat :=
  if h : i < iStop ∧ j < jStop then
    if a[i]? == b[j]? then commonHead a b (i + 1) iStop (j + 1) jStop + 1 else 0
  else 0
termination_by iStop - i

def commonTail (a b : Array String) (i iStop j jStop : Nat) : Nat :=
  if h : i < iStop ∧ j < jStop then
    if a[iStop - 1]? == b[jStop - 1]? then commonTail a b i (iStop - 1) j (jStop - 1) + 1 else 0
  else 0
termination_by iStop - i

/-- How far along the old range each diagonal has been searched; a diagonal not yet reached is at
zero. -/
abbrev Front := List (Int × Nat)

def Front.at (front : Front) (k : Int) : Nat :=
  (front.lookup k).getD 0

structure Window where
  a : Array String
  b : Array String
  oldStart : Nat
  oldStop : Nat
  newStart : Nat
  newStop : Nat

namespace Window

def n (w : Window) : Nat := w.oldStop - w.oldStart
def m (w : Window) : Nat := w.newStop - w.newStart
def delta (w : Window) : Int := (w.n : Int) - w.m

/-- Where diagonal `k` of round `d` starts: one step off the farther of its neighbours. -/
def entry (front : Front) (d k : Int) : Nat :=
  if k == -d || (k != d && front.at (k - 1) < front.at (k + 1)) then front.at (k + 1)
  else front.at (k - 1) + 1

/-- Searches the diagonals of a round from the start of the ranges. Answers the new front, or the
split point where it meets the search from the end. -/
def forward (w : Window) (d : Int) (backFront : Front) :
    List Int → Front → Sum (Nat × Nat) Front
  | [], front => .inr front
  | k :: ks, front =>
    let x := entry front d k
    let y : Int := x - k
    let reached :=
      if x < w.n && 0 ≤ y && y < w.m then
        x + commonHead w.a w.b (w.oldStart + x) w.oldStop (w.newStart + y.toNat) w.newStop
      else x
    let front := (k, reached) :: front
    let meets := w.delta % 2 != 0 && (k - w.delta).natAbs ≤ d - 1
      && w.n ≤ reached + backFront.at (-(k - w.delta))
    if meets then .inl (w.oldStart + x, (w.newStart + y).toNat)
    else forward w d backFront ks front

def backward (w : Window) (d : Int) (foreFront : Front) :
    List Int → Front → Sum (Nat × Nat) Front
  | [], front => .inr front
  | k :: ks, front =>
    let x := entry front d k
    let y : Int := x - k
    let advance :=
      if x < w.n && 0 ≤ y && y < w.m then
        commonTail w.a w.b w.oldStart (w.oldStart + w.n - x) w.newStart
          (w.newStart + w.m - y.toNat)
      else 0
    let front := (k, x + advance) :: front
    let meets := w.delta % 2 == 0 && (k - w.delta).natAbs ≤ d
      && w.n ≤ x + advance + foreFront.at (-(k - w.delta))
    if meets then
      .inl (w.oldStart + w.n - (x + advance), ((w.newStart + w.m : Int) - (y + advance)).toNat)
    else backward w d foreFront ks front

def diagonals (d : Nat) : List Int :=
  (List.range (d + 1)).map fun (i : Nat) => (d : Int) - 2 * i

/-- A point on a shortest edit script, from which the ranges can be compared in two halves. -/
def middle? (w : Window) : (rounds d : Nat) → Front → Front → Option (Nat × Nat)
  | 0, _, _, _ => none
  | rounds + 1, d, fore, back =>
    match w.forward d back (diagonals d) fore with
    | .inl point => some point
    | .inr fore =>
      match w.backward d fore (diagonals d) back with
      | .inl point => some point
      | .inr back => middle? w rounds (d + 1) fore back

end Window

/-- The runs of two ranges, found by splitting at a middle point; `fuel` bounds the splits. -/
def compareRanges (a b : Array String) : Nat → (oldStart oldStop newStart newStop : Nat) → List Run
  | 0, oldStart, oldStop, newStart, newStop =>
    [⟨.delete, oldStart, newStart, oldStop - oldStart⟩,
      ⟨.insert, oldStart, newStart, newStop - newStart⟩]
  | fuel + 1, oldStart, oldStop, newStart, newStop =>
    let head := commonHead a b oldStart oldStop newStart newStop
    let oldFrom := oldStart + head
    let newFrom := newStart + head
    let tail := commonTail a b oldFrom oldStop newFrom newStop
    let oldTo := oldStop - tail
    let newTo := newStop - tail
    let shared (old new length : Nat) : List Run :=
      if length == 0 then [] else [⟨.equal, old, new, length⟩]
    let changed : List Run :=
      if oldFrom == oldTo && newFrom == newTo then []
      else if newFrom == newTo then [⟨.delete, oldFrom, newFrom, oldTo - oldFrom⟩]
      else if oldFrom == oldTo then [⟨.insert, oldFrom, newFrom, newTo - newFrom⟩]
      else
        let w : Window := ⟨a, b, oldFrom, oldTo, newFrom, newTo⟩
        let rounds := (w.n + w.m + 1) / 2 + 1
        match w.middle? rounds 0 [(1, 0)] [(1, 0)] with
        | some (x, y) =>
          compareRanges a b fuel oldFrom x newFrom y ++ compareRanges a b fuel x oldTo y newTo
        | none =>
          [⟨.delete, oldFrom, newFrom, oldTo - oldFrom⟩,
            ⟨.insert, oldFrom, newFrom, newTo - newFrom⟩]
    shared oldStart newStart head ++ changed ++ shared oldTo newTo tail

/-! Edits next to unchanged lines are moved up and then down as far as the lines allow, so that
neighbouring edits join. -/

/-- A list of runs with one in focus; the runs before it are nearest first. -/
structure Focus where
  before : List Run
  run : Run
  after : List Run

/-- An insertion moves up past lines equal to its own last ones. -/
def shiftUp (a b : Array String) : Nat → Focus → Focus
  | 0, f => f
  | fuel + 1, f =>
    match f.before with
    | [] => f
    | previous :: earlier =>
      let this := f.run
      match this.tag, previous.tag with
      | .equal, _ => f
      | _, .equal =>
        let moved :=
          commonTail a b previous.old (previous.old + previous.length) this.new
            (this.new + this.newLength)
        if moved > 0 then
          let after := match f.after with
            | next :: later =>
              if next.tag = .equal then
                { next with old := next.old - moved, new := next.new - moved,
                            length := next.length + moved } :: later
              else
                ⟨.equal, previous.old + previous.length - moved,
                  this.new + this.newLength - moved, moved⟩ :: next :: later
            | [] =>
              [⟨.equal, previous.old + previous.length - moved,
                this.new + this.newLength - moved, moved⟩]
          let run := { this with old := this.old - moved, new := this.new - moved }
          let rest := previous.length - moved
          let before := if rest == 0 then earlier else { previous with length := rest } :: earlier
          shiftUp a b fuel ⟨before, run, after⟩
        else if previous.length == 0 then shiftUp a b fuel ⟨earlier, this, f.after⟩
        else f
      | .insert, .insert =>
        shiftUp a b fuel
          ⟨earlier, { previous with length := previous.length + this.length }, f.after⟩
      | .delete, .delete =>
        shiftUp a b fuel
          ⟨earlier, { previous with length := previous.length + this.length }, f.after⟩
      | _, _ => shiftUp a b fuel ⟨earlier, this, previous :: f.after⟩

/-- An insertion moves down past lines equal to its own first ones. -/
def shiftDown (a b : Array String) : Nat → Focus → Focus
  | 0, f => f
  | fuel + 1, f =>
    match f.after with
    | [] => f
    | next :: later =>
      let this := f.run
      match this.tag, next.tag with
      | .equal, _ => f
      | _, .equal =>
        let moved := commonHead a b next.old (next.old + next.length) this.new
          (this.new + this.newLength)
        if moved > 0 then
          let before := match f.before with
            | previous :: earlier =>
              if previous.tag = .equal then
                { previous with length := previous.length + moved } :: earlier
              else ⟨.equal, next.old, this.new, moved⟩ :: previous :: earlier
            | [] => [⟨.equal, next.old, this.new, moved⟩]
          let run := { this with old := this.old + moved, new := this.new + moved }
          let rest := next.length - moved
          let after :=
            if rest == 0 then later
            else
              { next with old := next.old + moved, new := next.new + moved, length := rest } :: later
          shiftDown a b fuel ⟨before, run, after⟩
        else if next.length == 0 then shiftDown a b fuel ⟨f.before, this, later⟩
        else f
      | .insert, .insert =>
        shiftDown a b fuel ⟨f.before, { this with length := this.length + next.length }, later⟩
      | .delete, .delete =>
        shiftDown a b fuel ⟨f.before, { this with length := this.length + next.length }, later⟩
      | _, _ => shiftDown a b fuel ⟨next :: f.before, this, later⟩

/-- Shifts every run with the given tag, from the first to the last; `before` holds the runs already
passed, nearest first. -/
def compactTag (a b : Array String) (tag : Tag) : Nat → List Run → List Run → List Run
  | 0, before, after => before.reverse ++ after
  | _, before, [] => before.reverse
  | fuel + 1, before, run :: after =>
    if run.tag = tag then
      let bound := a.size + b.size + before.length + after.length + 2
      let f := shiftDown a b bound (shiftUp a b bound ⟨before, run, after⟩)
      compactTag a b tag fuel (f.run :: f.before) f.after
    else compactTag a b tag fuel (run :: before) after

/-- Deletions are shifted first, then insertions. -/
def compact (a b : Array String) (runs : List Run) : List Run :=
  let bound := 2 * (a.size + b.size + runs.length) + 2
  compactTag a b .insert bound [] (compactTag a b .delete bound [] runs)

/-- A range of unchanged lines, or one of deleted and inserted lines: `oldCount` lines from `old`
and `newCount` lines from `new`. -/
structure Change where
  isEqual : Bool
  old : Nat
  oldCount : Nat
  new : Nat
  newCount : Nat
  deriving DecidableEq, Repr

structure Pending where
  equal : Option Run := none
  delete : Option Run := none
  insert : Option Run := none

namespace Pending

def flushEqual (p : Pending) : List Change :=
  match p.equal with
  | some r => [⟨true, r.old, r.length, r.new, r.length⟩]
  | none => []

def flushEdits (p : Pending) : List Change :=
  match p.delete, p.insert with
  | some d, some i => [⟨false, d.old, d.length, i.new, i.length⟩]
  | some d, none => [⟨false, d.old, d.length, d.new, 0⟩]
  | none, some i => [⟨false, i.old, 0, i.new, i.length⟩]
  | none, none => []

def extend (before : Option Run) (run : Run) : Option Run :=
  match before with
  | some r => some { r with length := r.length + run.length }
  | none => some run

end Pending

def changesOf : Pending → List Run → List Change
  | p, [] => p.flushEqual ++ p.flushEdits
  | p, run :: runs =>
    match run.tag with
    | .equal =>
      p.flushEdits ++
        changesOf { p with equal := Pending.extend p.equal run, delete := none, insert := none } runs
    | .delete =>
      p.flushEqual ++ changesOf { p with equal := none, delete := Pending.extend p.delete run } runs
    | .insert =>
      p.flushEqual ++ changesOf { p with equal := none, insert := Pending.extend p.insert run } runs

def changes (before after : String) : List Change :=
  let a := (splitLines before).toArray
  let b := (splitLines after).toArray
  changesOf {} (compact a b (compareRanges a b (a.size + b.size + 1) 0 a.size 0 b.size))

def counts (before after : String) : Nat × Nat :=
  (changes before after).foldl (fun (inserted, deleted) c =>
    if c.isEqual then (inserted, deleted) else (inserted + c.newCount, deleted + c.oldCount)) (0, 0)

def radius : Nat := 3

def trimFirst : List Change → List Change
  | c :: cs =>
    if c.isEqual then
      let cut := c.oldCount - radius
      ⟨true, c.old + cut, c.oldCount - cut, c.new + cut, c.newCount - cut⟩ :: cs
    else c :: cs
  | [] => []

def trimLast (cs : List Change) : List Change :=
  match cs.getLast? with
  | some c =>
    if c.isEqual then
      let kept := min c.oldCount radius
      cs.dropLast ++ [⟨true, c.old, kept, c.new, kept⟩]
    else cs
  | none => cs

/-- Groups of changes with their context. A group ends where more unchanged lines follow than two
contexts hold; `group` is the open one, newest first. -/
def groups : List Change → List Change → List (List Change)
  | group, [] =>
    match group with
    | [] => []
    | [c] => if c.isEqual then [] else [[c]]
    | _ => [group.reverse]
  | group, c :: cs =>
    if c.isEqual && radius * 2 < c.oldCount then
      let cut := c.oldCount - radius
      (⟨true, c.old, radius, c.new, radius⟩ :: group).reverse
        :: groups [⟨true, c.old + cut, radius, c.new + cut, radius⟩] cs
    else groups (c :: group) cs

/-- A range of lines in a hunk's head: its first line, counted from one, and its length, which is
left out when it is one. An empty range starts at the line before it. -/
def rangeText (start stop : Nat) : String :=
  let length := stop - start
  if length == 1 then toString (start + 1)
  else if length == 0 then toString start ++ "," ++ toString length
  else toString (start + 1) ++ "," ++ toString length

/-- A marked line. One that no line end closes is followed by a note. -/
def lineText (mark line : String) : String :=
  let closed := match line.toList.getLast? with
    | some c => c == '\n' || c == '\r'
    | none => false
  mark ++ line ++ (if closed then "" else "\n\\ No newline at end of file\n")

def changeText (a b : Array String) (c : Change) : String :=
  let part (mark : String) (lines : Array String) (start count : Nat) : String :=
    String.join ((lines.extract start (start + count)).toList.map (lineText mark))
  if c.isEqual then part " " a c.old c.oldCount
  else part "-" a c.old c.oldCount ++ part "+" b c.new c.newCount

def hunkText (a b : Array String) (group : List Change) : String :=
  match group.head?, group.getLast? with
  | some first, some last =>
    "@@ -" ++ rangeText first.old (last.old + last.oldCount)
      ++ " +" ++ rangeText first.new (last.new + last.newCount) ++ " @@\n"
      ++ String.join (group.map (changeText a b))
  | _, _ => ""

def unified (oldName newName before after : String) : String :=
  let a := (splitLines before).toArray
  let b := (splitLines after).toArray
  let hunks := groups [] (trimLast (trimFirst (changes before after)))
  if hunks.isEmpty then ""
  else
    "--- " ++ oldName ++ "\n+++ " ++ newName ++ "\n" ++ String.join (hunks.map (hunkText a b))

end SpringLint.Diff
