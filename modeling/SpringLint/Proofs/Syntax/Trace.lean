import SpringLint.Proofs.Text.Blanks
import SpringLint.Proofs.Text.Splice
import SpringLint.Syntax.Printer

/-! What printing does to a source: the ranges that it passes over, and what it writes there. -/

namespace SpringLint

inductive Part where
  | keyword (word : String) (offset : Nat)
  | text (content : String) (offset : Nat)
  | removed (span : Span)
  | kept (span : Span) (cuts : List Cut)
  deriving DecidableEq, Repr

namespace Part

def span : Part → Span
  | .keyword _ offset | .text _ offset => ⟨offset, offset⟩
  | .removed span | .kept span _ => span

def isRemoved : Part → Bool
  | .removed _ => true
  | _ => false

def piece (source : String) : Part → Piece
  | .keyword word _ => .keyword word
  | .text content offset => .text content offset
  | .removed span => .removed span
  | .kept span cuts => .kept span (Glyph.text (Text.spliced source span.start span.stop cuts))

/-- Where a child can stand: on characters, and its own cuts inside it. -/
def Fits (source : String) (part : Part) : Prop :=
  Text.Boundary source part.span.start ∧ Text.Boundary source part.span.stop ∧
    ∀ span cuts, part = .kept span cuts → InRow span.start span.stop (cuts.map Cut.toSpan)

end Part

/-- The cuts of a node so far. The current cut may still grow; so may the cut before the text that
was kept ahead of a removed child, as long as nothing has followed that text. -/
structure Trace where
  cuts : List Cut := []
  gap : Option Cut := none
  current : Cut
  emitted : Bool := false
  deriving DecidableEq, Repr

namespace Trace

/-- The cuts up to the current one. -/
def earlier (q : Trace) : List Cut :=
  q.cuts ++ q.gap.toList.flatMap Cut.settled

def settled (q : Trace) : List Cut :=
  q.earlier ++ q.current.settled

/-- Adds a child; there is no result when the cuts so far reach into it. -/
def add (source : String) (stop : Nat) (q : Trace) (more : Bool) : Part → Option Trace
  | .keyword word _ =>
    let before := if q.emitted && q.gap.isNone then " " else ""
    let after := if !q.emitted && more then " " else ""
    some {
      cuts := q.earlier
      current := { q.current with text := q.current.text ++ before ++ word ++ after }
      emitted := true }
  | .text content offset =>
    let place := max offset q.current.stop
    some { cuts := q.settled, current := { start := place, stop := place, text := content },
           emitted := true }
  | .removed span =>
    let next := Text.skipBlankBytes source span.stop stop
    if q.emitted && q.gap.isNone then
      if q.current.stop ≤ span.start then
        some { q with gap := some q.current, current := { start := span.start, stop := next } }
      else none
    else some { q with current := { q.current with stop := next } }
  | .kept span cuts =>
    if q.current.stop ≤ span.start then
      some { cuts := q.settled ++ cuts, current := { start := span.stop, stop := span.stop },
             emitted := true }
    else none

def addAll (source : String) (stop : Nat) : Trace → List Part → Option Trace
  | q, [] => some q
  | q, part :: rest => do
    let more := rest.any fun later => !later.isRemoved
    (← q.add source stop more part).addAll source stop rest

/-- All cuts. A gap that nothing followed is cut at the parent's end. -/
def finish (stop : Nat) (q : Trace) : Option (List Cut) :=
  if q.current.stop ≤ stop then
    match q.gap with
    | some gap =>
      if stop ≤ q.current.stop then some (q.cuts ++ Cut.settled { gap with stop := q.current.stop })
      else some q.settled
    | none => some q.settled
  else none

def run (source : String) (span : Span) (parts : List Part) : Option (List Cut) := do
  (← ({ current := { start := span.start, stop := span.start } } : Trace).addAll source span.stop
    parts).finish span.stop

/-- What holds of the cuts so far when the last child ended at `last`. -/
structure Sound (source : String) (start last : Nat) (q : Trace) : Prop where
  row : InRow start q.current.start (q.earlier.map Cut.toSpan)
  proper : q.current.start ≤ q.current.stop
  boundary : Text.Boundary source q.current.stop
  idle : q.emitted = false → q.gap = none
  early : q.emitted = false ∨ q.gap ≠ none → q.current.start ≤ last
  ahead : ∀ gap, q.gap = some gap →
    InRow start gap.start (q.cuts.map Cut.toSpan) ∧ gap.start ≤ gap.stop ∧
      gap.stop ≤ q.current.start

/-- The text so far is the source with the cuts so far. -/
structure Writes (source : String) (start : Nat) (q : Trace) (p : Progress) : Prop where
  cursor : p.cursor = q.current.stop
  emitted : p.emitted = q.emitted
  out : p.out =
    Glyph.text (Text.spliced source start q.current.start q.earlier) ++ q.current.text
  beforeGap : p.beforeGap =
    q.gap.map fun gap => Glyph.text (Text.spliced source start gap.start q.cuts) ++ gap.text

variable {source : String} {start last stop : Nat} {q : Trace} {p : Progress}

theorem text_settled (sound : Sound source start last q) {next : Nat} (later : q.current.stop ≤ next) :
    Glyph.text (Text.spliced source start next q.settled) =
      Glyph.text (Text.spliced source start q.current.start q.earlier) ++ q.current.text ++
        Glyph.text (Text.copied source q.current.stop next) := by
  have here := Text.inRow_settled q.current sound.proper
  have behind : InRow q.current.start next (q.current.settled.map Cut.toSpan) :=
    here.widen (Nat.le_refl _) later
  have rest : Text.spliced source q.current.start next (q.current.settled ++ []) = _ :=
    Text.spliced_append here later
  rw [List.append_nil, Text.spliced_settled] at rest
  unfold settled
  rw [Text.spliced_append sound.row behind, rest]
  simp only [Glyph.text_append, Cut.text_glyphs, String.append_assoc]
  rfl

theorem inRow_settled (sound : Sound source start last q) :
    InRow start q.current.stop (q.settled.map Cut.toSpan) := by
  unfold settled
  rw [List.map_append]
  exact InRow.append_iff.mpr ⟨_, sound.row, Text.inRow_settled q.current sound.proper⟩

theorem earlier_of_gap_none (none : q.gap = none) : q.earlier = q.cuts := by
  unfold earlier
  rw [none]
  exact List.append_nil _

theorem earlier_hold (none : q.gap = none) (current : Cut) :
    Trace.earlier { q with gap := some q.current, current := current } = q.settled := by
  unfold settled
  rw [earlier_of_gap_none none]
  simp only [earlier, Option.toList_some, List.flatMap_singleton]

def Agree (source : String) (start last : Nat) (q : Option Trace) (p : Option Progress) : Prop :=
  match q with
  | none => p = none
  | some q => ∃ written, p = some written ∧ Sound source start last q ∧ Writes source start q written

theorem slice?_eq_none {first second : Nat} (reversed : ¬first ≤ second) :
    Text.slice? source first second = none :=
  if_neg fun bounds => reversed bounds.1

theorem sound_written {cuts : List Cut} {current : Cut} (last : Nat)
    (row : InRow start current.start (cuts.map Cut.toSpan)) (proper : current.start ≤ current.stop)
    (boundary : Text.Boundary source current.stop) :
    Sound source start last { cuts := cuts, current := current, emitted := true } where
  row := by
    rw [earlier_of_gap_none rfl]
    exact row
  proper := proper
  boundary := boundary
  idle silent := by cases silent
  early waiting := by
    rcases waiting with silent | held
    · cases silent
    · exact absurd rfl held
  ahead gap present := by cases present

theorem writes_written {cuts : List Cut} {current : Cut} {out : String}
    (same : out =
      Glyph.text (Text.spliced source start current.start cuts) ++ current.text) :
    Writes source start { cuts := cuts, current := current, emitted := true }
      { out := out, cursor := current.stop, emitted := true } where
  cursor := rfl
  emitted := rfl
  out := by
    rw [earlier_of_gap_none rfl]
    exact same
  beforeGap := rfl

theorem sound_hold (sound : Sound source start last q) {current : Cut} {next : Nat}
    (shown : q.emitted = true) (none : q.gap = none)
    (later : q.current.stop ≤ current.start) (proper : current.start ≤ current.stop)
    (boundary : Text.Boundary source current.stop) (early : current.start ≤ next) :
    Sound source start next { q with gap := some q.current, current := current } where
  row := by
    rw [earlier_hold none]
    exact (inRow_settled sound).widen (Nat.le_refl _) later
  proper := proper
  boundary := boundary
  idle silent := by
    rw [shown] at silent
    cases silent
  early _ := early
  ahead gap present := by
    obtain rfl := Option.some.inj present
    refine ⟨?_, sound.proper, later⟩
    rw [← earlier_of_gap_none none]
    exact sound.row

theorem Writes.isNone_beforeGap (writes : Writes source start q p) :
    p.beforeGap.isNone = q.gap.isNone := by
  rw [writes.beforeGap, Option.isNone_map]

section Step

variable (sound : Sound source start last q) (writes : Writes source start q p) (more : Bool)

include sound writes

theorem add_keyword (word : String) (offset : Nat) :
    Agree source start offset (q.add source stop more (.keyword word offset))
      (p.add source stop more (.keyword word)) := by
  have closed : (if q.emitted then none else p.beforeGap) = none := by
    cases shown : q.emitted with
    | false => rw [writes.beforeGap, sound.idle shown, Option.map_none, ite_self]
    | true => rw [if_pos rfl]
  refine ⟨{ out := p.out ++ (if q.emitted && q.gap.isNone then " " else "") ++ word ++
              (if !q.emitted && more then " " else ""),
            cursor := q.current.stop, emitted := true }, ?_, ?_, ?_⟩
  · simp only [Progress.add, closed, writes.isNone_beforeGap, writes.emitted, writes.cursor]
  · exact sound_written offset sound.row sound.proper sound.boundary
  · apply writes_written
    rw [writes.out]
    simp only [String.append_assoc]

theorem add_text (content : String) {offset : Nat} (place : Text.Boundary source offset) :
    Agree source start offset (q.add source stop more (.text content offset))
      (p.add source stop more (.text content offset)) := by
  have later : q.current.stop ≤ max offset q.current.stop := Nat.le_max_right ..
  have boundary : Text.Boundary source (max offset q.current.stop) := by
    rcases Nat.le_total offset q.current.stop with lower | upper
    · rw [Nat.max_eq_right lower]
      exact sound.boundary
    · rw [Nat.max_eq_left upper]
      exact place
  have cut := Text.text_copied sound.boundary boundary later
  have row := (inRow_settled sound).widen (Nat.le_refl _) later
  refine ⟨{ out := p.out ++
              Glyph.text (Text.copied source q.current.stop (max offset q.current.stop)) ++ content,
            cursor := max offset q.current.stop, emitted := true }, ?_, ?_, writes_written ?_⟩
  · rw [Progress.add, writes.cursor, cut, Nat.max_comm q.current.stop]
    rfl
  · exact sound_written offset row (Nat.le_refl _) boundary
  · rw [text_settled sound later, writes.out]

theorem add_kept {span : Span} {cuts : List Cut} (first : Text.Boundary source span.start)
    (second : Text.Boundary source span.stop)
    (row : InRow span.start span.stop (cuts.map Cut.toSpan)) :
    Agree source start span.stop (q.add source stop more (.kept span cuts))
      (p.add source stop more ((Part.kept span cuts).piece source)) := by
  rw [add, Part.piece, Progress.add, writes.cursor]
  by_cases later : q.current.stop ≤ span.start
  · rw [if_pos later, Text.text_copied sound.boundary first later]
    have settledRow := (inRow_settled sound).widen (Nat.le_refl _) later
    refine ⟨_, rfl, ?_, writes_written ?_⟩
    · apply sound_written span.stop ?_ (Nat.le_refl _) second
      rw [List.map_append]
      exact InRow.append_iff.mpr ⟨_, settledRow, row⟩
    · rw [Text.spliced_append settledRow row, Glyph.text_append, text_settled sound later,
        writes.out, String.append_empty]
  · rw [if_neg later, slice?_eq_none later]
    rfl

theorem add_removed {span : Span} (behind : last ≤ span.start) (proper : span.start ≤ span.stop)
    (within : span.stop ≤ stop) (first : Text.Boundary source span.start)
    (second : Text.Boundary source span.stop) :
    Agree source start span.stop (q.add source stop more (.removed span))
      (p.add source stop more (.removed span)) := by
  have boundary := Text.boundary_skipBlankBytes second within
  have past := Text.le_skipBlankBytes second within
  rw [add, Progress.add, writes.cursor, writes.emitted, writes.isNone_beforeGap]
  by_cases keeps : (q.emitted && q.gap.isNone) = true
  · -- the text ahead of the child is kept
    simp only [keeps, if_true]
    obtain ⟨shown, closed⟩ := Bool.and_eq_true_iff.mp keeps
    have none := Option.isNone_iff_eq_none.mp closed
    by_cases later : q.current.stop ≤ span.start
    · rw [if_pos later, Text.text_copied sound.boundary first later]
      refine ⟨_, rfl, sound_hold sound shown none later (Nat.le_trans proper past) boundary
        proper, rfl, rfl, ?_, ?_⟩
      · rw [earlier_hold none, text_settled sound later, writes.out, String.append_empty]
      · rw [writes.out, earlier_of_gap_none none]
        rfl
    · rw [if_neg later, slice?_eq_none later]
      rfl
  · simp only [keeps, Bool.false_eq_true, if_false]
    have waiting : q.emitted = false ∨ q.gap ≠ none := by
      cases shown : q.emitted with
      | false => exact .inl rfl
      | true =>
        refine .inr fun none => keeps ?_
        rw [shown, none]
        rfl
    have started := sound.early waiting
    refine ⟨_, rfl, ⟨sound.row, ?_, boundary, sound.idle, ?_, sound.ahead⟩, ?_⟩
    · exact Nat.le_trans started (Nat.le_trans behind (Nat.le_trans proper past))
    · intro _
      exact Nat.le_trans started (Nat.le_trans behind proper)
    · exact ⟨rfl, rfl, writes.out, writes.beforeGap⟩

end Step

theorem add_agrees (sound : Sound source start last q) (writes : Writes source start q p)
    (more : Bool) {part : Part} (behind : last ≤ part.span.start)
    (proper : part.span.start ≤ part.span.stop) (within : part.span.stop ≤ stop)
    (fits : part.Fits source) :
    Agree source start part.span.stop (q.add source stop more part)
      (p.add source stop more (part.piece source)) := by
  obtain ⟨first, second, inside⟩ := fits
  cases part with
  | keyword word offset => exact add_keyword sound writes more word offset
  | text content offset => exact add_text sound writes more content first
  | removed span => exact add_removed sound writes more behind proper within first second
  | kept span cuts => exact add_kept sound writes more first second (inside span cuts rfl)

theorem isRemoved_piece (part : Part) : (part.piece source).isRemoved = part.isRemoved := by
  cases part <;> rfl

theorem addAll_agrees {parts : List Part} (row : InRow last stop (parts.map Part.span))
    (fits : ∀ part ∈ parts, part.Fits source) (sound : Sound source start last q)
    (writes : Writes source start q p) :
    ∃ final, Agree source start final (q.addAll source stop parts)
      (p.addAll source stop (parts.map (Part.piece source))) := by
  induction parts generalizing last q p with
  | nil => exact ⟨last, p, rfl, sound, writes⟩
  | cons part rest ih =>
    obtain ⟨behind, proper, later⟩ := row
    have more : ((rest.map (Part.piece source)).any fun later => !later.isRemoved) =
        rest.any fun later => !later.isRemoved := by
      rw [List.any_map]
      simp only [Function.comp_def, isRemoved_piece]
    have step := add_agrees sound writes (rest.any fun later => !later.isRemoved) behind proper
      later.le (fits part List.mem_cons_self)
    rw [List.map_cons, addAll, Progress.addAll, more]
    cases added : q.add source stop (rest.any fun later => !later.isRemoved) part with
    | none =>
      rw [added] at step
      exact ⟨last, by rw [show p.add source stop _ (part.piece source) = none from step]; rfl⟩
    | some next =>
      rw [added] at step
      obtain ⟨written, done, nextSound, nextWrites⟩ := step
      obtain ⟨final, agrees⟩ := ih later (fun other member => fits other (List.mem_cons_of_mem _ member))
        nextSound nextWrites
      exact ⟨final, by rw [done]; exact agrees⟩

theorem finish_agrees (sound : Sound source start last q) (writes : Writes source start q p)
    (limit : Text.Boundary source stop) :
    (∀ cuts, q.finish stop = some cuts → InRow start stop (cuts.map Cut.toSpan)) ∧
      p.finish source stop =
        (q.finish stop).map fun cuts => Glyph.text (Text.spliced source start stop cuts) := by
  unfold finish Progress.finish
  rw [writes.cursor]
  by_cases later : q.current.stop ≤ stop
  · have whole := text_settled sound later
    have row := (inRow_settled sound).widen (Nat.le_refl _) later
    rw [if_pos later, Text.text_copied sound.boundary limit later, Option.bind_eq_bind,
      Option.bind_some, writes.beforeGap, writes.out]
    cases waiting : q.gap with
    | none =>
      refine ⟨?_, by rw [Option.map_some, whole]; rfl⟩
      intro cuts found
      rwa [← Option.some.inj found]
    | some gap =>
      simp only [Option.map_some]
      by_cases full : stop ≤ q.current.stop
      · have closed : q.current.stop = stop := Nat.le_antisymm later full
        obtain ⟨before, proper, ahead⟩ := sound.ahead gap waiting
        have proper' : gap.start ≤ stop :=
          Nat.le_trans (Nat.le_trans proper ahead) (closed ▸ sound.proper)
        have behind : InRow gap.start stop
            ((Cut.settled { gap with stop := stop }).map Cut.toSpan) :=
          Text.inRow_settled { gap with stop := stop } proper'
        have cut := Text.spliced_settled (s := source) { gap with stop := stop }
        rw [if_pos full, if_pos full, closed]
        refine ⟨?_, ?_⟩
        · intro cuts found
          rw [← Option.some.inj found, List.map_append]
          exact InRow.append_iff.mpr ⟨_, before, behind⟩
        · rw [Option.map_some, Text.spliced_append before behind, Glyph.text_append, cut,
            Cut.text_glyphs, Text.copied_self]
          exact congrArg some (String.append_empty ..)
      · rw [if_neg full, if_neg full]
        refine ⟨?_, by rw [Option.map_some, whole]⟩
        intro cuts found
        rwa [← Option.some.inj found]
  · rw [if_neg later, slice?_eq_none later]
    refine ⟨?_, rfl⟩
    intro cuts found
    cases found

/-- A node is the source with its cuts. -/
theorem run_agrees {span : Span} {parts : List Part}
    (row : InRow span.start span.stop (parts.map Part.span))
    (fits : ∀ part ∈ parts, part.Fits source) (first : Text.Boundary source span.start)
    (second : Text.Boundary source span.stop) :
    (∀ cuts, run source span parts = some cuts → InRow span.start span.stop (cuts.map Cut.toSpan)) ∧
      Tree.assemble source span (parts.map (Part.piece source)) =
        (run source span parts).map fun cuts =>
          Glyph.text (Text.spliced source span.start span.stop cuts) := by
  have sound : Sound source span.start span.start
      { current := { start := span.start, stop := span.start } } :=
    ⟨Nat.le_refl _, Nat.le_refl _, first, fun _ => rfl, fun _ => Nat.le_refl _,
      fun _ present => by cases present⟩
  have empty : Text.spliced source span.start span.start [] = [] := Text.copied_self ..
  have writes : Writes source span.start { current := { start := span.start, stop := span.start } }
      { cursor := span.start } := by
    refine ⟨rfl, rfl, ?_, rfl⟩
    rw [earlier_of_gap_none rfl, empty]
    rfl
  obtain ⟨final, agrees⟩ := addAll_agrees row fits sound writes
  unfold run Tree.assemble
  cases traced : ({ current := { start := span.start, stop := span.start } } : Trace).addAll source
      span.stop parts with
  | none =>
    rw [traced] at agrees
    rw [show Progress.addAll _ _ _ _ = none from agrees]
    refine ⟨?_, rfl⟩
    intro cuts found
    cases found
  | some q =>
    rw [traced] at agrees
    obtain ⟨p, written, sound, writes⟩ := agrees
    rw [written]
    exact finish_agrees sound writes second

end Trace

end SpringLint
