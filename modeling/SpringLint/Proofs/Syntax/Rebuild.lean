import SpringLint.Proofs.Syntax.Hosts
import SpringLint.Proofs.Syntax.Removal

/-! Printing whatever is marked. A printer that puts every node together from its children gives the
text of the one that copies what no edit has touched. -/

namespace SpringLint

namespace Part

def isVerbatim : Part → Bool
  | .text _ _ | .kept _ _ => true
  | .keyword _ _ | .removed _ => false

def cuts : Part → List Cut
  | .text content offset => Cut.settled { start := offset, stop := offset, text := content }
  | .kept _ inner => inner
  | .keyword _ _ | .removed _ => []

end Part

namespace Trace

variable (source : String) {stop : Nat}

theorem addAll_verbatim {q : Trace} {parts : List Part} (closed : q.gap = none)
    (row : InRow q.current.stop stop (parts.map Part.span))
    (verbatim : ∀ part ∈ parts, part.isVerbatim = true) :
    ∃ last, q.addAll source stop parts = some last ∧ last.gap = none ∧ last.current.stop ≤ stop ∧
      last.settled = q.settled ++ parts.flatMap Part.cuts := by
  induction parts generalizing q with
  | nil => exact ⟨q, rfl, closed, row, by simp⟩
  | cons part rest ih =>
    obtain ⟨behind, proper, later⟩ := row
    obtain ⟨shown, others⟩ := List.forall_mem_cons.mp verbatim
    cases part with
    | text content offset =>
      have place : max offset q.current.stop = offset := Nat.max_eq_left behind
      obtain ⟨last, added, open', within, cuts⟩ := @ih
        { cuts := q.settled, current := { start := offset, stop := offset, text := content },
          emitted := true } rfl later others
      refine ⟨last, ?_, open', within, ?_⟩
      · rw [addAll, add, place]
        exact added
      · rw [cuts, settled, earlier_of_gap_none rfl, List.flatMap_cons, Part.cuts, List.append_assoc]
    | kept span inner =>
      obtain ⟨last, added, open', within, cuts⟩ := @ih
        { cuts := q.settled ++ inner, current := { start := span.stop, stop := span.stop },
          emitted := true } rfl later others
      have nothing : Cut.settled { start := span.stop, stop := span.stop } = [] := if_pos ⟨rfl, rfl⟩
      have ahead : q.current.stop ≤ span.start := behind
      refine ⟨last, ?_, open', within, ?_⟩
      · rw [addAll, add, if_pos ahead]
        exact added
      · rw [cuts, settled, earlier_of_gap_none rfl, nothing, List.flatMap_cons, Part.cuts,
          List.append_nil, List.append_assoc]
    | keyword word offset => cases shown
    | removed span => cases shown

theorem run_verbatim {span : Span} {parts : List Part}
    (row : InRow span.start span.stop (parts.map Part.span))
    (verbatim : ∀ part ∈ parts, part.isVerbatim = true) :
    run source span parts = some (parts.flatMap Part.cuts) := by
  obtain ⟨last, added, closed, within, cuts⟩ := addAll_verbatim source
    (q := { current := { start := span.start, stop := span.start } }) rfl row verbatim
  have nothing : Trace.settled { current := { start := span.start, stop := span.start } } = [] := by
    simp [settled, earlier, Cut.settled]
  simp [run, added, finish, closed, within, cuts, nothing]

end Trace

theorem mapM_congr_left {α β : Type} {f g : α → Option β} {items : List α}
    (each : ∀ item ∈ items, f item = g item) : items.mapM f = items.mapM g := by
  induction items with
  | nil => rfl
  | cons item rest ih =>
    obtain ⟨here, later⟩ := List.forall_mem_cons.mp each
    rw [List.mapM_cons, List.mapM_cons, here, ih later]

namespace Tree

/-- The text of a node, put together from its children whether or not it is marked. -/
def rebuild (t : Tree) (id : Nat) : Option String := do
  let pieces ← (t.node id).children.attach.mapM fun c =>
    pieceOf (t.node id) (t.node c.1) fun _ => t.rebuild c.1
  assemble t.source (t.span id) pieces
termination_by t.size - id
decreasing_by exact child_decreases c.2

/-- The text of the tree, with every node put together from its children. -/
def printRebuilt (t : Tree) : Option String := do
  let before ← Text.slice? t.source 0 (t.span root).start
  let body ← t.rebuild root
  let after ← Text.slice? t.source (t.span root).stop t.source.utf8ByteSize
  some (before ++ body ++ after)

def additions (t : Tree) (id : Nat) : List Cut :=
  (t.node id).children.attach.flatMap fun c =>
    (partOf (t.node id) (t.node c.1) (t.additions c.1)).cuts
termination_by t.size - id
decreasing_by exact child_decreases c.2

variable {t u : Tree} {id : Nat}

theorem rebuild_eq (t : Tree) (id : Nat) :
    t.rebuild id = ((t.node id).children.mapM fun c =>
      pieceOf (t.node id) (t.node c) fun _ => t.rebuild c).bind (assemble t.source (t.span id)) := by
  rw [rebuild, List.mapM_subtype (g := fun c => pieceOf (t.node id) (t.node c) fun _ => t.rebuild c)
    (fun _ _ => rfl), List.unattach_attach]
  rfl

theorem additions_eq (t : Tree) (id : Nat) :
    t.additions id = (t.node id).children.flatMap fun c =>
      (partOf (t.node id) (t.node c) (t.additions c)).cuts := by
  rw [additions, List.flatMap_subtype (g := fun c =>
    (partOf (t.node id) (t.node c) (t.additions c)).cuts) (fun _ _ => rfl), List.unattach_attach]

theorem pieceOf_congr {parent child : Node} {first second : Unit → Option String}
    (same : child.isInserted = false → first () = second ()) :
    pieceOf parent child first = pieceOf parent child second := by
  unfold pieceOf
  cases origin : child.origin with
  | inserted insertion => cases insertion <;> rfl
  | parsed => simp only [same (by simp [Node.isInserted, origin])]

/-- Neither the node nor one of its children has been touched. -/
structure Unedited (t : Tree) (id : Nat) : Prop where
  unwrapped : (t.node id).parenthesized = false
  children : ∀ c ∈ (t.node id).children, (t.node c).removed = false ∧ (t.node c).isInserted = false

/-- Every child of the node is kept or is an added text. -/
def Verbatim (t : Tree) (id : Nat) : Prop :=
  ∀ c ∈ (t.node id).children, (t.node c).removed = false ∧
    ∀ word, (t.node c).origin ≠ .inserted (.keyword word)

theorem isVerbatim_partOf {parent child : Node} {cuts : List Cut} (stays : child.removed = false)
    (text : ∀ word, child.origin ≠ .inserted (.keyword word)) :
    (partOf parent child cuts).isVerbatim = true := by
  unfold partOf
  cases origin : child.origin with
  | inserted insertion =>
    cases insertion with
    | keyword word => exact absurd origin (text word)
    | text content => rfl
  | parsed => simp [stays, Part.isVerbatim]

theorem Unedited.verbatim (unedited : t.Unedited id) : t.Verbatim id := by
  intro c member
  obtain ⟨stays, parsed⟩ := unedited.children c member
  refine ⟨stays, fun word origin => ?_⟩
  simp [Node.isInserted, origin] at parsed

theorem mem_ancestors_of_child (attached : t.Attached) {c : Nat} (member : c ∈ (t.node id).children) :
    id ∈ c :: t.ancestors c := by
  rw [ancestors_of_parent (attached.parent_of_mem member)]
  simp

theorem rebuild_verbatim (spaced : t.Spaced) (characters : t.OnCharacters) (attached : t.Attached)
    (verbatim : ∀ x, id ∈ x :: t.ancestors x → t.Verbatim x) :
    InRow (t.span id).start (t.span id).stop ((t.additions id).map Cut.toSpan) ∧
      t.rebuild id = some (Glyph.text
        (Text.spliced t.source (t.span id).start (t.span id).stop (t.additions id))) := by
  induction id using down_induction (t := t) with
  | step id ih =>
    have below (c : Nat) (member : c ∈ (t.node id).children) := ih c member fun x under =>
      verbatim x (mem_ancestors_trans under (mem_ancestors_of_child attached member))
    let parts := (t.node id).children.map fun c => partOf (t.node id) (t.node c) (t.additions c)
    have pieces : ((t.node id).children.mapM fun c =>
        pieceOf (t.node id) (t.node c) fun _ => t.rebuild c) =
          some (parts.map (Part.piece t.source)) := by
      rw [List.map_map]
      exact mapM_eq_some fun c member =>
        pieceOf_eq (fun _ _ => (below c member).1) (fun _ _ => (below c member).2)
    have fits : ∀ part ∈ parts, part.Fits t.source := by
      intro part member
      obtain ⟨c, child, rfl⟩ := List.mem_map.mp member
      exact fits_partOf (characters c).1 (characters c).2 fun _ _ => (below c child).1
    have shown : ∀ part ∈ parts, part.isVerbatim = true := by
      intro part member
      obtain ⟨c, child, rfl⟩ := List.mem_map.mp member
      obtain ⟨stays, text⟩ := verbatim id List.mem_cons_self c child
      exact isVerbatim_partOf stays text
    have row : InRow (t.span id).start (t.span id).stop (parts.map Part.span) :=
      inRow_parts (spaced id)
    have all : parts.flatMap Part.cuts = t.additions id := by rw [additions_eq, List.flatMap_map]
    have run := Trace.run_verbatim t.source row shown
    obtain ⟨rows, text⟩ := Trace.run_agrees row fits (characters id).1 (characters id).2
    rw [run, all] at rows text
    refine ⟨rows _ rfl, ?_⟩
    rw [rebuild_eq, pieces]
    exact text

theorem additions_of_unedited (attached : t.Attached)
    (unedited : ∀ x, id ∈ x :: t.ancestors x → t.Unedited x) : t.additions id = [] := by
  induction id using down_induction (t := t) with
  | step id ih =>
    rw [additions_eq, List.flatMap_eq_nil_iff]
    intro c member
    have inner := ih c member fun x under =>
      unedited x (mem_ancestors_trans under (mem_ancestors_of_child attached member))
    obtain ⟨unwrapped, children⟩ := unedited id List.mem_cons_self
    obtain ⟨stays, parsed⟩ := children c member
    cases origin : (t.node c).origin with
    | parsed => simp [partOf, origin, stays, inner, wrapCuts, isWrapped, unwrapped, Part.cuts]
    | inserted insertion => simp [Node.isInserted, origin] at parsed

theorem Marked.unedited (marked : t.Marked) (clean : (t.node id).dirty = false) : t.Unedited id := by
  constructor
  · cases wrapped : (t.node id).parenthesized with
    | false => rfl
    | true => simp [marked.parenthesized id wrapped] at clean
  · intro c member
    have touched := mt (marked.child id c member) (by simp [clean])
    simpa [not_or] using touched

theorem Marked.unedited_below (marked : t.Marked) (clean : (t.node id).dirty = false) {x : Nat}
    (below : id ∈ x :: t.ancestors x) : t.Unedited x := by
  apply marked.unedited
  cases dirt : (t.node x).dirty with
  | false => rfl
  | true =>
    rcases List.mem_cons.mp below with rfl | above
    · simp [dirt] at clean
    · simp [marked.ancestors dirt above] at clean

section Print

variable (attached : t.Attached) (marked : t.Marked) (spaced : t.Spaced) (characters : t.OnCharacters)
include attached marked spaced characters

theorem rebuild_of_clean (clean : (t.node id).dirty = false) :
    t.rebuild id = Text.slice? t.source (t.span id).start (t.span id).stop := by
  have unedited (x : Nat) (below : id ∈ x :: t.ancestors x) := marked.unedited_below clean below
  have whole := (rebuild_verbatim spaced characters attached fun x below => (unedited x below).verbatim).2
  rw [additions_of_unedited attached unedited] at whole
  exact whole.trans (Text.text_copied (characters id).1 (characters id).2 (spaced id).le).symm

/-- Copying what is not marked makes no difference. -/
theorem render_eq_rebuild (parsed : (t.node id).isInserted = false) : t.render id = t.rebuild id := by
  induction id using down_induction (t := t) with
  | step id ih =>
    cases dirt : (t.node id).dirty with
    | false =>
      rw [render_of_clean dirt parsed, rebuild_of_clean attached marked spaced characters dirt]
    | true =>
      have pieces : ∀ c ∈ (t.node id).children,
          pieceOf (t.node id) (t.node c) (fun _ => t.render c) =
            pieceOf (t.node id) (t.node c) fun _ => t.rebuild c := by
        intro c member
        apply pieceOf_congr
        intro own
        exact ih c member own
      rw [render_of_dirty dirt, rebuild_eq, mapM_congr_left pieces]

theorem print_eq_rebuilt (parsed : (t.node root).isInserted = false) : t.print = t.printRebuilt := by
  unfold print printRebuilt
  simp only [render_eq_rebuild attached marked spaced characters parsed]

end Print

end Tree

namespace Source

variable (text : String) (parse : Parse)

/-- Whatever batches of edits a parsed tree is given: it prints as it would if every node were put
together from its children, for in a node that is copied no edit has been made, however deep. -/
theorem print_eq_printRebuilt (nested : parse.tree.Nested) (leaves : parse.tree.LeafComments)
    (characters : parse.tree.OnCharacters text) (batches : List (List Edit)) :
    let t := (ofParse text parse).tree.applyAll batches
    t.print = t.printRebuilt ∧
      ∀ id, (t.node id).dirty = false → ∀ x, id ∈ x :: t.ancestors x → t.Unedited x := by
  intro t
  have hung := attached_ofParse text parse
  have untouched := untouched_ofParse text parse
  obtain ⟨attached, marked, spaced, -⟩ := Tree.applyAll_preserves hung untouched.marked batches
  have keeps := Tree.applyAll_keeps hung untouched.marked batches
  have parsed : (t.node Tree.root).isInserted = false :=
    (keeps.isInserted hung.nonempty).trans (untouched.isInserted Tree.root)
  refine ⟨?_, fun id clean x below => marked.unedited_below clean below⟩
  exact Tree.print_eq_rebuilt attached marked (spaced (spaced_ofParse text parse nested leaves))
    (keeps.characters (onCharacters_ofParse text parse nested leaves characters)) parsed

/-- A class loses its body in one batch and gains a modifier in another. -/
theorem print_eq_printRebuilt_documented :
    let text := "/** \x7b@link A\x7d */ class B \x7b\x7d"
    let tree : ParseTree := .node "program" true ⟨0, 27⟩ none
      [.node "block_comment" true ⟨0, 16⟩ none [],
        .node "class_declaration" true ⟨17, 27⟩ none
          [.node "class" false ⟨17, 22⟩ none [],
            .node "identifier" true ⟨23, 24⟩ (some "name") [],
            .node "class_body" true ⟨25, 27⟩ (some "body")
              [.node "\x7b" false ⟨25, 26⟩ none [], .node "\x7d" false ⟨26, 27⟩ none []]]]
    let t := (ofParse text ⟨tree, false⟩).tree.applyAll
      [[.remove 5], [.prepend 2 (.keyword "final")]]
    (tree.Nested ∧ tree.LeafComments ∧ tree.OnCharacters text) ∧
      t.print = some "/** \x7b@link A\x7d */ final class B" ∧
      (t.print = t.printRebuilt ∧
        ∀ id, (t.node id).dirty = false → ∀ x, id ∈ x :: t.ancestors x → t.Unedited x) := by
  intro text tree t
  have nested : tree.Nested := by decide
  have leaves : tree.LeafComments := by decide
  have characters : tree.OnCharacters text := by decide +kernel
  have printed : t.print = some "/** \x7b@link A\x7d */ final class B" := by decide +kernel
  exact ⟨⟨nested, leaves, characters⟩, printed,
    print_eq_printRebuilt text ⟨tree, false⟩ nested leaves characters _⟩

end Source

end SpringLint
