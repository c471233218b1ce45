import Mathlib.Data.List.Induction
import SpringLint.Proofs.Syntax.Hosts
import SpringLint.Proofs.Syntax.Removal

/-! Where printing cannot cut the source. The blanks behind a removed child go with it up to the end of
its parent, and not just up to the next child. When a later child starts with such blanks, the text ahead
of that child would have to run backwards. -/

namespace SpringLint

theorem exists_split_cons {α : Type} {P : List α → α → Prop} {first : α} {rest : List α} :
    (∃ before item after, first :: rest = before ++ item :: after ∧ P before item) ↔
      P [] first ∨ ∃ before item after, rest = before ++ item :: after ∧ P (first :: before) item := by
  constructor
  · rintro ⟨before, item, after, split, holds⟩
    cases before with
    | nil =>
      obtain ⟨rfl, -⟩ := List.cons.inj split
      exact .inl holds
    | cons head before =>
      obtain ⟨rfl, later⟩ := List.cons.inj split
      exact .inr ⟨before, item, after, later, holds⟩
  · rintro (holds | ⟨before, item, after, rfl, holds⟩)
    · exact ⟨[], first, rest, rfl, holds⟩
    · exact ⟨first :: before, item, after, rfl, holds⟩

namespace Part

def isAdded : Part → Bool
  | .keyword _ _ | .text _ _ => true
  | .removed _ | .kept _ _ => false

/-- The removed child whose blanks are still ahead of what comes next, and whether something has been
added behind it. -/
def follow (waiting : Option (Span × Bool)) : Part → Option (Span × Bool)
  | .keyword _ _ | .text _ _ => waiting.map fun removal => (removal.1, true)
  | .removed span => some (span, false)
  | .kept _ _ => none

def waiting (done : List Part) : Option (Span × Bool) :=
  done.foldl follow none

@[simp]
theorem waiting_concat (done : List Part) (part : Part) :
    waiting (done ++ [part]) = follow (waiting done) part := by
  unfold waiting
  rw [List.foldl_append]
  rfl

theorem waiting_removed_append (front : List Part) (span : Span) {added : List Part}
    (additions : ∀ part ∈ added, part.isAdded = true) :
    waiting (front ++ .removed span :: added) = some (span, !added.isEmpty) := by
  induction added using List.reverseRecOn with
  | nil => simp [follow]
  | append_singleton added part ih =>
    have early := ih fun other member => additions other (List.mem_append_left _ member)
    have here := additions part (List.mem_append_right _ List.mem_cons_self)
    have grouped : front ++ .removed span :: (added ++ [part]) =
        front ++ .removed span :: added ++ [part] := by simp
    rw [grouped, waiting_concat, early]
    cases part with
    | keyword word offset => simp [follow]
    | text content offset => simp [follow]
    | removed other => cases here
    | kept other cuts => cases here

theorem waiting_eq_some_iff {done : List Part} {span : Span} {touched : Bool} :
    waiting done = some (span, touched) ↔
      ∃ front added, done = front ++ .removed span :: added ∧
        (∀ part ∈ added, part.isAdded = true) ∧ touched = !added.isEmpty := by
  constructor
  · intro waits
    induction done using List.reverseRecOn generalizing span touched with
    | nil => cases waits
    | append_singleton done part ih =>
      have extend (added : Part) (fresh : added.isAdded = true)
          (waits : (waiting done).map (fun removal => (removal.1, true)) = some (span, touched)) :
          ∃ front later, done ++ [added] = front ++ .removed span :: later ∧
            (∀ part ∈ later, part.isAdded = true) ∧ touched = !later.isEmpty := by
        obtain ⟨⟨other, before⟩, found, same⟩ := Option.map_eq_some_iff.mp waits
        obtain ⟨rfl, rfl⟩ := Prod.mk.inj same
        obtain ⟨front, later, rfl, additions, -⟩ := ih found
        refine ⟨front, later ++ [added], by simp, ?_, by simp⟩
        intro item member
        rcases List.mem_append.mp member with early | last
        · exact additions item early
        · rw [List.mem_singleton.mp last]
          exact fresh
      rw [waiting_concat] at waits
      cases part with
      | keyword word offset => exact extend _ rfl waits
      | text content offset => exact extend _ rfl waits
      | removed other =>
        obtain ⟨rfl, rfl⟩ := Prod.mk.inj (Option.some.inj waits)
        exact ⟨done, [], rfl, by simp, rfl⟩
      | kept other cuts => cases waits
  · rintro ⟨front, added, rfl, additions, rfl⟩
    exact waiting_removed_append front span additions

/-- The blanks behind a removed child reach into the child after it. A removed child right behind
another does not ask for the text between them. -/
def Blocks (source : String) (stop : Nat) (done : List Part) (part : Part) : Prop :=
  ∃ span touched, waiting done = some (span, touched) ∧ part.isAdded = false ∧
    (part.isRemoved = true → touched = true) ∧
      part.span.start < Text.skipBlankBytes source span.stop stop

end Part

namespace Trace

/-- How far into the source a node has been dealt with when its last child ended at `last`. -/
def Reaches (source : String) (last stop : Nat) (done : List Part) (q : Trace) : Prop :=
  match Part.waiting done with
  | none => q.current.stop ≤ last
  | some (span, touched) =>
    let past := Text.skipBlankBytes source span.stop stop
    past ≤ stop ∧ past ≤ q.current.stop ∧ q.current.stop ≤ max past last ∧
      (q.emitted && q.gap.isNone) = touched

variable {source : String} {start last stop : Nat} {q : Trace} {done : List Part}

section Step

variable (reaches : Reaches source last stop done q)

include reaches

theorem Reaches.le (within : last ≤ stop) : q.current.stop ≤ stop := by
  unfold Reaches at reaches
  split at reaches
  · exact Nat.le_trans reaches within
  · obtain ⟨inside, -, upper, -⟩ := reaches
    exact Nat.le_trans upper (Nat.max_le.mpr ⟨inside, within⟩)

theorem Reaches.blocks_iff {part : Part} (plain : part.isAdded = false)
    (asks : part.isRemoved = true → (q.emitted && q.gap.isNone) = true)
    (behind : last ≤ part.span.start) :
    Part.Blocks source stop done part ↔ ¬q.current.stop ≤ part.span.start := by
  unfold Reaches at reaches
  unfold Part.Blocks
  cases waits : Part.waiting done with
  | none =>
    rw [waits] at reaches
    have fits : q.current.stop ≤ part.span.start := Nat.le_trans reaches behind
    simp [fits]
  | some removal =>
    obtain ⟨span, touched⟩ := removal
    rw [waits] at reaches
    obtain ⟨-, lower, upper, same⟩ := reaches
    have exactly : part.span.start < Text.skipBlankBytes source span.stop stop ↔
        ¬q.current.stop ≤ part.span.start := by omega
    rw [same] at asks
    rw [← exactly]
    constructor
    · rintro ⟨other, _, found, -, -, short⟩
      obtain ⟨rfl, -⟩ := Prod.mk.inj (Option.some.inj found)
      exact short
    · intro short
      exact ⟨span, touched, rfl, plain, asks, short⟩

theorem Reaches.not_blocks_of_silent {span : Span} (silent : ¬(q.emitted && q.gap.isNone) = true) :
    ¬Part.Blocks source stop done (.removed span) := by
  rintro ⟨other, touched, waits, -, asks, -⟩
  unfold Reaches at reaches
  rw [waits] at reaches
  obtain ⟨-, -, -, same⟩ := reaches
  rw [same, asks rfl] at silent
  exact silent rfl

end Step

inductive Outcome (source : String) (stop : Nat) (done : List Part) (part : Part) :
    Option Trace → Prop where
  | blocked (blocks : Part.Blocks source stop done part) : Outcome source stop done part none
  | added (free : ¬Part.Blocks source stop done part) (next : Trace)
    (reaches : Reaches source part.span.stop stop (done ++ [part]) next) :
    Outcome source stop done part (some next)

section Outcome

variable (reaches : Reaches source last stop done q) (more : Bool)

include reaches

theorem outcome_keyword (word : String) {offset : Nat} (behind : last ≤ offset) :
    Outcome source stop done (.keyword word offset)
      (q.add source stop more (.keyword word offset)) := by
  have free : ¬Part.Blocks source stop done (.keyword word offset) := by
    rintro ⟨_, _, -, plain, -⟩
    cases plain
  refine .added free _ ?_
  unfold Reaches at reaches ⊢
  rw [Part.waiting_concat]
  cases waits : Part.waiting done with
  | none =>
    rw [waits] at reaches
    exact Nat.le_trans reaches behind
  | some removal =>
    rw [waits] at reaches
    obtain ⟨inside, lower, upper, -⟩ := reaches
    refine ⟨inside, lower, Nat.le_trans upper ?_, rfl⟩
    exact Nat.max_le.mpr ⟨Nat.le_max_left .., Nat.le_trans behind (Nat.le_max_right ..)⟩

theorem outcome_text (content : String) {offset : Nat} (behind : last ≤ offset) :
    Outcome source stop done (.text content offset)
      (q.add source stop more (.text content offset)) := by
  have free : ¬Part.Blocks source stop done (.text content offset) := by
    rintro ⟨_, _, -, plain, -⟩
    cases plain
  refine .added free _ ?_
  unfold Reaches at reaches ⊢
  rw [Part.waiting_concat]
  cases waits : Part.waiting done with
  | none =>
    rw [waits] at reaches
    exact Nat.max_le.mpr ⟨Nat.le_refl _, Nat.le_trans reaches behind⟩
  | some removal =>
    rw [waits] at reaches
    obtain ⟨inside, lower, upper, -⟩ := reaches
    refine ⟨inside, Nat.le_trans lower (Nat.le_max_right ..), ?_, rfl⟩
    refine Nat.max_le.mpr ⟨Nat.le_max_right .., Nat.le_trans upper ?_⟩
    exact Nat.max_le.mpr ⟨Nat.le_max_left .., Nat.le_trans behind (Nat.le_max_right ..)⟩

theorem outcome_removed {span : Span} (behind : last ≤ span.start) (within : span.stop ≤ stop)
    (boundary : Text.Boundary source span.stop) :
    Outcome source stop done (.removed span) (q.add source stop more (.removed span)) := by
  have inside := Text.skipBlankBytes_le boundary within
  -- whatever came before, the blanks behind this child are now the ones ahead
  have ahead {next : Trace} (place : next.current.stop = Text.skipBlankBytes source span.stop stop)
      (silent : (next.emitted && next.gap.isNone) = false) :
      Reaches source span.stop stop (done ++ [.removed span]) next := by
    unfold Reaches
    rw [Part.waiting_concat]
    exact ⟨inside, Nat.le_of_eq place.symm, Nat.le_trans (Nat.le_of_eq place) (Nat.le_max_left ..), silent⟩
  rw [add]
  by_cases asks : (q.emitted && q.gap.isNone) = true
  · have blocks : Part.Blocks source stop done (.removed span) ↔ ¬q.current.stop ≤ span.start :=
      reaches.blocks_iff rfl (fun _ => asks) behind
    by_cases fits : q.current.stop ≤ span.start
    · simp only [asks, fits, if_true]
      exact .added (fun blocked => blocks.mp blocked fits) _ (ahead rfl (by simp))
    · simp only [asks, fits, if_true, if_false]
      exact .blocked (blocks.mpr fits)
  · have silent : (q.emitted && q.gap.isNone) = false := Bool.eq_false_iff.mpr asks
    simp only [silent, Bool.false_eq_true, if_false]
    exact .added (reaches.not_blocks_of_silent asks) _ (ahead rfl silent)

theorem outcome_kept {span : Span} {cuts : List Cut} (behind : last ≤ span.start) :
    Outcome source stop done (.kept span cuts) (q.add source stop more (.kept span cuts)) := by
  have blocks : Part.Blocks source stop done (.kept span cuts) ↔ ¬q.current.stop ≤ span.start :=
    reaches.blocks_iff rfl (fun gone => by cases gone) behind
  rw [add]
  by_cases fits : q.current.stop ≤ span.start
  · rw [if_pos fits]
    refine .added (fun blocked => blocks.mp blocked fits) _ ?_
    unfold Reaches
    rw [Part.waiting_concat]
    exact Nat.le_refl span.stop
  · rw [if_neg fits]
    exact .blocked (blocks.mpr fits)

theorem outcome_add {part : Part} (behind : last ≤ part.span.start) (within : part.span.stop ≤ stop)
    (boundary : Text.Boundary source part.span.stop) :
    Outcome source stop done part (q.add source stop more part) := by
  cases part with
  | keyword word offset => exact outcome_keyword reaches more word behind
  | text content offset => exact outcome_text reaches more content behind
  | removed span => exact outcome_removed reaches more behind within boundary
  | kept span cuts => exact outcome_kept reaches more behind

end Outcome

theorem addAll_eq_none_iff (reaches : Reaches source last stop done q) {parts : List Part}
    (row : InRow last stop (parts.map Part.span))
    (boundaries : ∀ part ∈ parts, Text.Boundary source part.span.stop) :
    ((q.addAll source stop parts).bind (finish stop) = none) ↔
      ∃ before part after, parts = before ++ part :: after ∧
        Part.Blocks source stop (done ++ before) part := by
  induction parts generalizing last q done with
  | nil =>
    have within := reaches.le row
    have ends : (q.finish stop).isSome = true := by
      unfold finish
      rw [if_pos within]
      split
      · split <;> rfl
      · rfl
    obtain ⟨cuts, made⟩ := Option.isSome_iff_exists.mp ends
    simp [addAll, made]
  | cons part rest ih =>
    obtain ⟨behind, -, later⟩ := row
    obtain ⟨boundary, others⟩ := List.forall_mem_cons.mp boundaries
    have step := outcome_add reaches (rest.any fun later => !later.isRemoved) behind later.le boundary
    rw [exists_split_cons (P := fun before part => Part.Blocks source stop (done ++ before) part),
      List.append_nil, addAll]
    generalize q.add source stop (rest.any fun later => !later.isRemoved) part = result at step
    cases step with
    | blocked blocks => exact iff_of_true rfl (.inl blocks)
    | added free next reaches =>
      rw [or_iff_right free]
      have onward := ih reaches later others
      simp only [List.append_assoc, List.singleton_append] at onward
      exact onward

/-- A node has no cuts when the blanks behind a removed child reach into a later one. -/
theorem run_eq_none_iff {span : Span} {parts : List Part}
    (row : InRow span.start span.stop (parts.map Part.span))
    (boundaries : ∀ part ∈ parts, Text.Boundary source part.span.stop) :
    run source span parts = none ↔ ∃ before part after, parts = before ++ part :: after ∧
      Part.Blocks source span.stop before part := by
  have reaches : Reaches source span.start span.stop []
      { current := { start := span.start, stop := span.start } } := Nat.le_refl span.start
  exact addAll_eq_none_iff reaches row boundaries

end Trace

namespace Tree

variable {t : Tree}

/-- The blanks behind a removed child of a node reach past the start of a child further on, which is
either kept or removed behind something that was added. -/
def Overruns (t : Tree) (id : Nat) : Prop :=
  ∃ front b added c back, (t.node id).children = front ++ b :: (added ++ c :: back) ∧
    ((t.node b).isInserted = false ∧ (t.node b).removed = true) ∧
    (∀ d ∈ added, (t.node d).isInserted = true) ∧
    ((t.node c).isInserted = false ∧ ((t.node c).removed = true → added ≠ [])) ∧
    (t.span c).start < Text.skipBlankBytes t.source (t.span b).stop (t.span id).stop

section Overruns

variable {id c : Nat}

/-- The part of a child without what is inside it. -/
def barePart (t : Tree) (id c : Nat) : Part :=
  (partOf (t.node id) (t.node c) []).bare

theorem barePart_of_inserted (inserted : (t.node c).isInserted = true) :
    (t.barePart id c).isAdded = true ∧ (t.barePart id c).span.start = (t.span c).start ∧
      (t.barePart id c).span.stop = (t.span c).start := by
  unfold barePart partOf
  unfold Node.isInserted at inserted
  cases origin : (t.node c).origin with
  | inserted insertion => cases insertion <;> exact ⟨rfl, rfl, rfl⟩
  | parsed =>
    rw [origin] at inserted
    cases inserted

theorem barePart_of_parsed (parsed : (t.node c).isInserted = false) :
    t.barePart id c = if (t.node c).removed then .removed (t.span c) else .kept (t.span c) [] := by
  unfold barePart partOf
  unfold Node.isInserted at parsed
  cases origin : (t.node c).origin with
  | inserted insertion =>
    rw [origin] at parsed
    cases parsed
  | parsed =>
    dsimp only
    split <;> rfl

theorem isAdded_barePart : (t.barePart id c).isAdded = (t.node c).isInserted := by
  cases origin : (t.node c).isInserted with
  | true => exact (barePart_of_inserted origin).1
  | false =>
    rw [barePart_of_parsed origin]
    split <;> rfl

theorem isRemoved_barePart (parsed : (t.node c).isInserted = false) :
    (t.barePart id c).isRemoved = (t.node c).removed := by
  rw [barePart_of_parsed parsed]
  cases (t.node c).removed <;> rfl

theorem span_barePart (parsed : (t.node c).isInserted = false) :
    (t.barePart id c).span = t.span c := by
  rw [barePart_of_parsed parsed]
  split <;> rfl

theorem barePart_eq_removed_iff {span : Span} :
    t.barePart id c = .removed span ↔
      ((t.node c).isInserted = false ∧ (t.node c).removed = true) ∧ span = t.span c := by
  cases origin : (t.node c).isInserted with
  | true =>
    refine iff_of_false ?_ (by simp)
    intro same
    have added : (t.barePart id c).isAdded = true := (barePart_of_inserted origin).1
    rw [same] at added
    cases added
  | false =>
    rw [barePart_of_parsed origin]
    cases (t.node c).removed with
    | true => simp [eq_comm]
    | false => simp

theorem overruns_iff_blocks :
    t.Overruns id ↔ ∃ before part after, t.bareParts id = before ++ part :: after ∧
      Part.Blocks t.source (t.span id).stop before part := by
  have mapped : t.bareParts id = (t.node id).children.map (t.barePart id) := rfl
  constructor
  · rintro ⟨front, b, added, c, back, split, removed, additions, ⟨parsed, asks⟩, short⟩
    refine ⟨front.map (t.barePart id) ++ .removed (t.span b) :: added.map (t.barePart id),
      t.barePart id c, back.map (t.barePart id), ?_, t.span b, !(added.map (t.barePart id)).isEmpty,
      ?_, ?_, ?_, ?_⟩
    · have gone : t.barePart id b = .removed (t.span b) :=
        barePart_eq_removed_iff.mpr ⟨removed, rfl⟩
      rw [mapped, split, ← gone]
      simp
    · apply Part.waiting_removed_append
      intro part member
      obtain ⟨d, among, rfl⟩ := List.mem_map.mp member
      rw [isAdded_barePart]
      exact additions d among
    · rw [isAdded_barePart, parsed]
    · rw [isRemoved_barePart parsed]
      simpa using asks
    · rw [span_barePart parsed]
      exact short
  · rintro ⟨before, part, after, split, span, touched, waits, plain, asks, short⟩
    obtain ⟨front, added, rfl, additions, rfl⟩ := Part.waiting_eq_some_iff.mp waits
    rw [mapped] at split
    obtain ⟨ahead, behind, halves, early, late⟩ := List.map_eq_append_iff.mp split
    obtain ⟨c, back, rfl, rfl, rfl⟩ := List.map_eq_cons_iff.mp late
    obtain ⟨first, second, rfl, rfl, others⟩ := List.map_eq_append_iff.mp early
    obtain ⟨b, between, rfl, gone, rfl⟩ := List.map_eq_cons_iff.mp others
    obtain ⟨removed, rfl⟩ := barePart_eq_removed_iff.mp gone
    rw [isAdded_barePart] at plain
    rw [isRemoved_barePart plain] at asks
    rw [span_barePart plain] at short
    refine ⟨first, b, between, c, back, by rw [halves]; simp, removed, ?_, ⟨plain, ?_⟩, short⟩
    · intro d member
      have added : (t.barePart id d).isAdded = true := additions _ (List.mem_map_of_mem member)
      rwa [isAdded_barePart] at added
    · simpa using asks

theorem seams?_eq_none_iff (spaced : t.Spaced) (characters : t.OnCharacters) :
    t.seams? id = none ↔ t.Overruns id := by
  have row : InRow (t.span id).start (t.span id).stop ((t.bareParts id).map Part.span) := by
    have whole : InRow (t.span id).start (t.span id).stop
        (((t.node id).children.map fun c => partOf (t.node id) (t.node c) []).map Part.span) :=
      inRow_parts (spaced id)
    have same : (t.bareParts id).map Part.span =
        ((t.node id).children.map fun c => partOf (t.node id) (t.node c) []).map Part.span := by
      unfold bareParts
      rw [List.map_map, List.map_map]
      apply List.map_congr_left
      intro c _
      show (partOf (t.node id) (t.node c) []).bare.span = (partOf (t.node id) (t.node c) []).span
      cases partOf (t.node id) (t.node c) [] <;> rfl
    rw [same]
    exact whole
  have boundaries : ∀ part ∈ t.bareParts id, Text.Boundary t.source part.span.stop := by
    intro part member
    obtain ⟨c, _, rfl⟩ := List.mem_map.mp member
    show Text.Boundary t.source (t.barePart id c).span.stop
    cases origin : (t.node c).isInserted with
    | true =>
      rw [(barePart_of_inserted origin).2.2]
      exact (characters c).1
    | false =>
      rw [span_barePart origin]
      exact (characters c).2
  rw [overruns_iff_blocks]
  exact Trace.run_eq_none_iff row boundaries

theorem Overruns.dirty (marked : t.Marked) (overruns : t.Overruns id) : (t.node id).dirty = true := by
  obtain ⟨front, b, added, c, back, split, ⟨-, removed⟩, -⟩ := overruns
  have member : b ∈ (t.node id).children := by
    rw [split]
    exact List.mem_append_right _ List.mem_cons_self
  exact marked.child id b member (.inl removed)

end Overruns

theorem print_eq_none_iff (attached : t.Attached) (marked : t.Marked) (spaced : t.Spaced)
    (characters : t.OnCharacters) (parsed : (t.node root).isInserted = false) :
    t.print = none ↔ ∃ id, t.Shows root id ∧ t.Overruns id := by
  rw [print_eq spaced characters parsed, Option.map_eq_none_iff, cuts?_eq_none_iff attached marked]
  simp only [seams?_eq_none_iff spaced characters]
  constructor
  · rintro ⟨id, shows, -, overruns⟩
    exact ⟨id, shows, overruns⟩
  · rintro ⟨id, shows, overruns⟩
    exact ⟨id, shows, overruns.dirty marked, overruns⟩

end Tree

namespace Source

/-- Printing succeeds unless, at some printed node, the blanks behind a removed child reach past the
start of a later child whose text or whose text ahead is copied. -/
theorem print_fails_iff (text : String) (parse : Parse) (nested : parse.tree.Nested)
    (leaves : parse.tree.LeafComments) (characters : parse.tree.OnCharacters text)
    (batches : List (List Edit)) :
    let t := (ofParse text parse).tree.applyAll batches
    t.print = none ↔ ∃ id, t.Shows Tree.root id ∧ t.Overruns id := by
  intro t
  have attached := attached_ofParse text parse
  have untouched := untouched_ofParse text parse
  obtain ⟨hung, marked, rowed, -⟩ := Tree.applyAll_preserves attached untouched.marked batches
  have keeps := Tree.applyAll_keeps attached untouched.marked batches
  have parsed : (t.node Tree.root).isInserted = false := by
    have before : ((ofParse text parse).tree.node Tree.root).isInserted = false := by
      unfold Node.isInserted
      rw [(untouched Tree.root).2.2.2]
    exact (keeps.isInserted attached.nonempty).trans before
  exact Tree.print_eq_none_iff hung marked (rowed (spaced_ofParse text parse nested leaves))
    (keeps.characters (onCharacters_ofParse text parse nested leaves characters)) parsed

def textBlock : String := "class A \x7b String s = \"\"\"\n  b\"\"\"; \x7d\n"

def textBlockParse : Parse where
  tree := .node "program" true ⟨0, 35⟩ none [
    .node "class_declaration" true ⟨0, 34⟩ none [
      .token "class" 0,
      .leaf (some "name") "identifier" 6 7,
      .node "class_body" true ⟨8, 34⟩ (some "body") [
        .token "\x7b" 8,
        .node "field_declaration" true ⟨10, 32⟩ none [
          .leaf (some "type") "type_identifier" 10 16,
          .node "variable_declarator" true ⟨17, 31⟩ (some "declarator") [
            .leaf (some "name") "identifier" 17 18,
            .token "=" 19,
            .node "string_literal" true ⟨21, 31⟩ (some "value") [
              .token "\"\"\"" 21,
              .leaf none "multiline_string_fragment" 24 28,
              .token "\"\"\"" 28]],
          .token ";" 31],
        .token "\x7d" 33]]]
  hasErrors := false

/-- The opening delimiter of a text block is removed. The content of the block starts with blanks. -/
theorem print_fails_iff_text_block :
    let t := (ofParse textBlock textBlockParse).tree.applyAll [[.remove 12]]
    (textBlockParse.tree.Nested ∧ textBlockParse.tree.LeafComments ∧
        textBlockParse.tree.OnCharacters textBlock) ∧
      t.print = none ∧ (t.print = none ↔ ∃ id, t.Shows Tree.root id ∧ t.Overruns id) := by
  intro t
  have nested : textBlockParse.tree.Nested := by decide
  have leaves : textBlockParse.tree.LeafComments := by decide
  have characters : textBlockParse.tree.OnCharacters textBlock := by decide +kernel
  have fails : t.print = none := by decide +kernel
  exact ⟨⟨nested, leaves, characters⟩, fails,
    print_fails_iff textBlock textBlockParse nested leaves characters [[.remove 12]]⟩

end Source

end SpringLint
