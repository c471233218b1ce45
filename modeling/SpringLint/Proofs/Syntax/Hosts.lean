import SpringLint.Proofs.Syntax.Batch
import SpringLint.Proofs.Syntax.Nesting

/-! Batches of removals and insertions: what they change, and where. -/

namespace SpringLint.Tree

variable {t u v : Tree}

def host? (t : Tree) : Edit → Option Nat
  | .append p _ | .prepend p _ => some p
  | .insertAfter anchor _ => t.parent anchor
  | _ => none

/-- How an edit adds a child: to which node, between which of its children, at which offset. -/
inductive Adds (t : Tree) : Edit → Nat → List Nat → List Nat → Nat → Insertion → Prop where
  | append (p : Nat) (insertion : Insertion) :
    Adds t (.append p insertion) p (t.node p).children [] (t.span p).stop insertion
  | prepend (p : Nat) (insertion : Insertion) :
    Adds t (.prepend p insertion) p [] (t.node p).children (t.span p).start insertion
  | insertAfter (anchor p : Nat) (before after : List Nat) (insertion : Insertion)
    (above : (t.node anchor).parent = some p)
    (split : (t.node p).children = before ++ anchor :: after) :
    Adds t (.insertAfter anchor insertion) p (before ++ [anchor]) after (t.span anchor).stop insertion

/-- The tree after edits that remove some nodes and add others. Of an old node only its children and
marks change otherwise. -/
structure Follows (t u : Tree) (gone : List Nat) : Prop where
  source : u.source = t.source
  size : t.size ≤ u.size
  node : ∀ id, id < t.size → u.node id =
    { t.node id with
      removed := (t.node id).removed || gone.contains id
      dirty := (u.node id).dirty
      children := (u.node id).children }
  fresh : ∀ id, t.size ≤ id → id < u.size →
    (u.node id).isInserted = true ∧ (u.node id).parenthesized = false
  characters : t.OnCharacters → u.OnCharacters

namespace Follows

variable {gone more : List Nat}

theorem refl (t : Tree) : t.Follows t [] where
  source := rfl
  size := Nat.le_refl _
  node id _ := by simp
  fresh id least bound := by omega
  characters ends := ends

theorem trans (first : t.Follows v gone) (second : v.Follows u more) :
    t.Follows u (gone ++ more) where
  source := second.source.trans first.source
  size := Nat.le_trans first.size second.size
  node id inside := by
    have later := second.node id (Nat.lt_of_lt_of_le inside first.size)
    rw [first.node id inside] at later
    rw [later, List.contains_append, Bool.or_assoc]
  fresh id least bound := by
    by_cases early : id < v.size
    · have before := first.fresh id least early
      unfold Node.isInserted at before ⊢
      rw [second.node id early]
      exact before
    · exact second.fresh id (by omega) bound
  characters ends := second.characters (first.characters ends)

theorem span (follows : t.Follows u gone) {id : Nat} (inside : id < t.size) :
    u.span id = t.span id := by
  unfold Tree.span
  rw [follows.node id inside]

theorem parent (follows : t.Follows u gone) {id : Nat} (inside : id < t.size) :
    (u.node id).parent = (t.node id).parent := by
  rw [follows.node id inside]

theorem host? (follows : t.Follows u gone) {edit : Edit} (targets : t.Targets edit) :
    u.host? edit = t.host? edit := by
  cases edit with
  | insertAfter anchor insertion => exact follows.parent targets.1
  | _ => rfl

theorem marks (follows : t.Follows v gone) (same : v.SameButMarks u) : t.Follows u gone where
  source := same.source.trans follows.source
  size := by rw [same.size]; exact follows.size
  node id inside := by
    have before := same.node id
    rw [follows.node id inside] at before
    rw [before]
  fresh id least bound := by
    rw [same.size] at bound
    unfold Node.isInserted
    rw [same.node id]
    exact follows.fresh id least bound
  characters ends id := by
    unfold Tree.span
    rw [same.source, same.node id]
    exact follows.characters ends id

end Follows

namespace Adds

variable {edit : Edit} {p offset : Nat} {before after : List Nat} {insertion : Insertion}

theorem split (adds : t.Adds edit p before after offset insertion) :
    (t.node p).children = before ++ after := by
  cases adds with
  | append => exact (List.append_nil _).symm
  | prepend => rfl
  | insertAfter anchor q front back _ _ split => rw [split, List.append_assoc]; rfl

theorem host (adds : t.Adds edit p before after offset insertion) : t.host? edit = some p := by
  cases adds with
  | append => rfl
  | prepend => rfl
  | insertAfter anchor q front back _ above _ => exact above

theorem placed (adds : t.Adds edit p before after offset insertion) :
    t.Placed p before after offset := by
  cases adds with
  | append => exact .inr (.inl ⟨rfl, rfl⟩)
  | prepend => exact .inl ⟨rfl, rfl⟩
  | insertAfter anchor q front back _ _ _ => exact .inr (.inr ⟨front, anchor, rfl, rfl⟩)

theorem inside (adds : t.Adds edit p before after offset insertion) (targets : t.Targets edit) :
    p < t.size := by
  cases adds with
  | append => exact targets.1
  | prepend => exact targets.1
  | insertAfter anchor q front back _ above _ => exact Nat.lt_trans (parent_lt above) targets.1

theorem le_target (adds : t.Adds edit p before after offset insertion) : p ≤ edit.target := by
  cases adds with
  | append => exact Nat.le_refl p
  | prepend => exact Nat.le_refl p
  | insertAfter anchor q front back _ above _ => exact Nat.le_of_lt (parent_lt above)

theorem perform_eq (adds : t.Adds edit p before after offset insertion) (attached : t.Attached) :
    t.perform edit = .ok (t.insertNode p before.length offset insertion) := by
  cases adds with
  | append => rfl
  | prepend => rfl
  | insertAfter anchor q front back _ above split =>
    have once := attached.nodup_children p
    rw [split] at once
    have absent : anchor ∉ front := by
      intro member
      exact (List.nodup_append.mp once).2.2 anchor member anchor List.mem_cons_self rfl
    have found : (t.node p).children.idxOf? anchor = some front.length := by
      rw [split, List.idxOf?_eq_some_iff]
      refine ⟨by simp, by simp, ?_⟩
      intro j lower same
      apply absent
      rw [← same, List.getElem_append_left lower]
      exact List.getElem_mem lower
    simp only [perform, Tree.parent, above, found, List.length_append, List.length_singleton]

end Adds

theorem exists_adds (attached : t.Attached) {edit : Edit} {p : Nat} (targets : t.Targets edit)
    (host : t.host? edit = some p) :
    ∃ before after offset insertion, t.Adds edit p before after offset insertion := by
  cases edit with
  | append q insertion =>
    obtain rfl := Option.some.inj host
    exact ⟨_, _, _, _, .append q insertion⟩
  | prepend q insertion =>
    obtain rfl := Option.some.inj host
    exact ⟨_, _, _, _, .prepend q insertion⟩
  | insertAfter anchor insertion =>
    have above : (t.node anchor).parent = some p := host
    obtain ⟨front, back, split⟩ := List.append_of_mem (attached.mem_of_parent targets.1 above)
    exact ⟨_, _, _, _, .insertAfter anchor p front back insertion above split⟩
  | remove id => cases host
  | parenthesize id => cases host

def insertedNode (offset : Nat) (insertion : Insertion) : Node :=
  { kind := .other "inserted", span := ⟨offset, offset⟩, origin := .inserted insertion }

section Insert

variable {p : Nat} (offset : Nat) {before after : List Nat} (marked : t.Marked) (inside : p < t.size)
  (split : (t.node p).children = before ++ after) (insertion : Insertion)

include marked inside split

theorem sameButMarks_insertNode :
    (t.addChild p before.length (insertedNode offset insertion)).SameButMarks
      (t.insertNode p before.length offset insertion) := by
  have missing : (t.addChild p before.length (insertedNode offset insertion)).MarkedExcept p :=
    marked.addChild inside split ⟨rfl, rfl⟩
  have size := size_addChild t p before.length (insertedNode offset insertion) inside
  exact (markDirty_spec _ p (by omega) missing.up).1

theorem follows_insertNode (placed : t.Placed p before after offset) :
    t.Follows (t.insertNode p before.length offset insertion) [] := by
  have size := size_addChild t p before.length (insertedNode offset insertion) inside
  refine Follows.marks ⟨source_addChild .., by omega, ?_, ?_, ?_⟩
    (sameButMarks_insertNode offset marked inside split insertion)
  · intro id there
    rw [node_addChild_old _ inside split (Nat.ne_of_lt there)]
    simp
  · intro id least bound
    have last : id = t.size := by omega
    rw [last, node_addChild_size _ inside split]
    exact ⟨rfl, rfl⟩
  · intro ends
    have boundary : Text.Boundary t.source offset := by
      rcases placed with ⟨-, rfl⟩ | ⟨-, rfl⟩ | ⟨_, anchor, -, rfl⟩
      · exact (ends p).1
      · exact (ends p).2
      · exact (ends anchor).2
    exact ends.addChild _ inside split ⟨boundary, boundary⟩

theorem children_insertNode {id : Nat} (there : id < t.size) :
    ((t.insertNode p before.length offset insertion).node id).children =
      if id = p then before ++ t.size :: after else (t.node id).children := by
  rw [(sameButMarks_insertNode offset marked inside split insertion).node id,
    node_addChild_old _ inside split (Nat.ne_of_lt there)]

theorem inserted_insertNode :
    t.size < (t.insertNode p before.length offset insertion).size ∧
      ((t.insertNode p before.length offset insertion).node t.size).origin = .inserted insertion ∧
        ((t.insertNode p before.length offset insertion).node t.size).span = ⟨offset, offset⟩ := by
  have same := sameButMarks_insertNode offset marked inside split insertion
  have size := size_addChild t p before.length (insertedNode offset insertion) inside
  refine ⟨by rw [same.size]; omega, ?_⟩
  rw [same.node t.size, node_addChild_size _ inside split]
  exact ⟨rfl, rfl⟩

end Insert

/-- What one edit does, other than to put parentheses around something. -/
structure Does (t : Tree) (edit : Edit) (u : Tree) : Prop where
  performed : t.perform edit = .ok u
  follows : t.Follows u edit.strikes
  still : ∀ id, id < t.size → t.host? edit ≠ some id → (u.node id).children = (t.node id).children

theorem does_remove (attached : t.Attached) (marked : t.Marked) {id : Nat}
    (targets : t.Targets (.remove id)) : ∃ u, t.Does (.remove id) u := by
  have inside : id < t.size := targets.1
  obtain ⟨p, below, above⟩ := attached.parent_inside id inside (targets.2 rfl)
  have size : (t.strike id).size = t.size := size_modify ..
  have missing := marked.strike attached inside above
  obtain ⟨same, -, -⟩ := markDirty_spec (t.strike id) p (by rw [size]; exact below) missing.up
  have struck : t.Follows (t.strike id) [id] := by
    refine ⟨rfl, Nat.le_of_eq size.symm, ?_, ?_, ?_⟩
    · intro other _
      rw [node_strike t inside]
      simp only [List.contains_cons, List.contains_nil, Bool.or_false]
    · intro other least bound
      rw [size] at bound
      omega
    · intro ends other
      unfold Tree.span
      rw [node_strike t inside]
      exact ends other
  refine ⟨(t.strike id).markDirty p, perform_remove above, struck.marks same, ?_⟩
  intro other _ _
  rw [same.node other, node_strike t inside]

theorem does_insert (attached : t.Attached) (marked : t.Marked) {edit : Edit} {p offset : Nat}
    {before after : List Nat} {insertion : Insertion}
    (adds : t.Adds edit p before after offset insertion) (targets : t.Targets edit) :
    ∃ u, t.Does edit u := by
  have inside := adds.inside targets
  have split := adds.split
  have strikes : edit.strikes = [] := by
    cases adds with
    | append => rfl
    | prepend => rfl
    | insertAfter => rfl
  refine ⟨_, adds.perform_eq attached, ?_, ?_⟩
  · rw [strikes]
    exact follows_insertNode offset marked inside split insertion adds.placed
  · intro id there away
    have other : id ≠ p := by
      intro equal
      rw [adds.host, equal] at away
      exact away rfl
    rw [children_insertNode offset marked inside split insertion there, if_neg other]

theorem exists_does (attached : t.Attached) (marked : t.Marked) {edit : Edit}
    (targets : t.Targets edit) (plain : ∀ id, edit ≠ .parenthesize id) : ∃ u, t.Does edit u := by
  cases edit with
  | remove id => exact does_remove attached marked targets
  | parenthesize id => exact absurd rfl (plain id)
  | append q insertion => exact does_insert attached marked (.append q insertion) targets
  | prepend q insertion => exact does_insert attached marked (.prepend q insertion) targets
  | insertAfter anchor insertion =>
    obtain ⟨p, -, above⟩ := attached.parent_inside anchor targets.1 (targets.2 rfl)
    obtain ⟨before, after, offset, other, adds⟩ := exists_adds attached targets above
    exact does_insert attached marked adds targets

/-- What a batch does. Each edit is about nodes that were there from the start, so it does what it
would do alone, unless an earlier one is about the same node. -/
structure Run (t : Tree) (edits : List Edit) (u : Tree) : Prop where
  performed : t.performAll edits = (u, .ok ())
  attached : u.Attached
  marked : u.Marked
  spaced : t.Spaced → u.Spaced
  follows : t.Follows u (edits.flatMap Edit.strikes)
  still : ∀ id, id < t.size → (∀ edit ∈ edits, t.host? edit ≠ some id) →
    (u.node id).children = (t.node id).children

theorem exists_run (attached : t.Attached) (marked : t.Marked) {edits : List Edit}
    (targets : ∀ edit ∈ edits, t.Targets edit)
    (plain : ∀ edit ∈ edits, ∀ id, edit ≠ .parenthesize id) : ∃ u, t.Run edits u := by
  induction edits generalizing t with
  | nil => exact ⟨t, rfl, attached, marked, id, .refl t, fun _ _ _ => rfl⟩
  | cons edit rest ih =>
    have first := targets edit List.mem_cons_self
    obtain ⟨v, step⟩ := exists_does attached marked first (plain edit List.mem_cons_self)
    obtain ⟨w, performed, change⟩ := perform_change attached first
    have same : w = v := Except.ok.inj (performed.symm.trans step.performed)
    rw [same] at change
    obtain ⟨hung, right, rowed, grown, -⟩ := change.preserves attached marked
    obtain ⟨u, run⟩ := ih hung right
      (fun other member => (targets other (List.mem_cons_of_mem _ member)).mono grown)
      (fun other member => plain other (List.mem_cons_of_mem _ member))
    refine ⟨u, ?_, run.attached, run.marked, fun row => run.spaced (rowed row), ?_, ?_⟩
    · rw [performAll, step.performed]
      exact run.performed
    · rw [List.flatMap_cons]
      exact step.follows.trans run.follows
    · intro id inside away
      rw [run.still id (Nat.lt_of_lt_of_le inside grown), step.still id inside (away edit List.mem_cons_self)]
      intro other member
      rw [step.follows.host? (targets other (List.mem_cons_of_mem _ member))]
      exact away other (List.mem_cons_of_mem _ member)

theorem performAll_append {first : List Edit} (done : t.performAll first = (v, .ok ()))
    (second : List Edit) : t.performAll (first ++ second) = v.performAll second := by
  induction first generalizing t with
  | nil =>
    obtain rfl := (Prod.mk.inj done).1
    rfl
  | cons edit rest ih =>
    rw [performAll] at done
    rw [List.cons_append, performAll]
    cases performed : t.perform edit with
    | error reason =>
      rw [performed] at done
      cases (Prod.mk.inj done).2
    | ok next =>
      rw [performed] at done
      exact ih done

theorem Adds.transport {gone : List Nat} {edit : Edit} {p offset : Nat} {before after : List Nat}
    {insertion : Insertion} (adds : t.Adds edit p before after offset insertion)
    (targets : t.Targets edit) (follows : t.Follows v gone)
    (same : (v.node p).children = (t.node p).children) :
    v.Adds edit p before after offset insertion := by
  have inside := adds.inside targets
  cases adds with
  | append =>
    rw [← same, ← follows.span inside]
    exact .append p insertion
  | prepend =>
    rw [← same, ← follows.span inside]
    exact .prepend p insertion
  | insertAfter anchor q front back _ above split =>
    have there : anchor < t.size := targets.1
    rw [← follows.span there]
    refine .insertAfter anchor p front after insertion ?_ ?_
    · rw [follows.parent there, above]
    · rw [same, split]

theorem Run.added (attached : t.Attached) (marked : t.Marked) {front back : List Edit} {edit : Edit}
    (run : t.Run (front ++ edit :: back) u)
    (targets : ∀ other ∈ front ++ edit :: back, t.Targets other)
    (plain : ∀ other ∈ front ++ edit :: back, ∀ id, other ≠ .parenthesize id) {p offset : Nat}
    {before after : List Nat} {insertion : Insertion}
    (adds : t.Adds edit p before after offset insertion)
    (ahead : ∀ other ∈ front, t.host? other ≠ some p)
    (behind : ∀ other ∈ back, t.host? other ≠ some p) :
    ∃ n, t.size ≤ n ∧ (u.node p).children = before ++ n :: after ∧
      (u.node n).origin = .inserted insertion ∧ (u.node n).span = ⟨offset, offset⟩ := by
  have early (other : Edit) (member : other ∈ front) : other ∈ front ++ edit :: back :=
    List.mem_append_left _ member
  have here : edit ∈ front ++ edit :: back := List.mem_append_right _ List.mem_cons_self
  have late (other : Edit) (member : other ∈ back) : other ∈ front ++ edit :: back :=
    List.mem_append_right _ (List.mem_cons_of_mem _ member)
  have inside := adds.inside (targets edit here)
  obtain ⟨v, first⟩ := exists_run attached marked (fun other member => targets other (early other member))
    (fun other member => plain other (early other member))
  have moved := adds.transport (targets edit here) first.follows (first.still p inside ahead)
  have grown := first.follows.size
  have below : p < v.size := Nat.lt_of_lt_of_le inside grown
  obtain ⟨w, performed, change⟩ := perform_change first.attached ((targets edit here).mono grown)
  have same : w = v.insertNode p before.length offset insertion :=
    Except.ok.inj (performed.symm.trans (moved.perform_eq first.attached))
  obtain ⟨hung, right, -, wider, -⟩ := change.preserves first.attached first.marked
  obtain ⟨x, last⟩ := exists_run hung right
    (fun other member => (targets other (late other member)).mono (Nat.le_trans grown wider))
    (fun other member => plain other (late other member))
  have whole : t.performAll (front ++ edit :: back) = (x, .ok ()) := by
    rw [performAll_append first.performed, performAll, performed]
    exact last.performed
  have equal : x = u := (Prod.mk.inj (whole.symm.trans run.performed)).1
  rw [equal] at last
  have kept : (u.node p).children = (w.node p).children := by
    apply last.still p (Nat.lt_of_lt_of_le below wider)
    intro other member
    have aim := targets other (late other member)
    have onward := first.follows.trans
      (follows_insertNode offset first.marked below moved.split insertion moved.placed)
    rw [← same] at onward
    rw [onward.host? aim]
    exact behind other member
  obtain ⟨fresh, origin, span⟩ :=
    inserted_insertNode offset first.marked below moved.split insertion
  rw [← same] at fresh origin span
  refine ⟨v.size, grown, ?_, ?_, ?_⟩
  · rw [kept, same, children_insertNode offset first.marked below moved.split insertion below,
      if_pos rfl]
  · rw [last.follows.node _ fresh]
    exact origin
  · rw [last.follows.node _ fresh]
    exact span

/-- Two edits do not meet: the second is about nothing that the first removes, and they add to
different nodes. -/
structure Apart (t : Tree) (a b : Edit) : Prop where
  spared : ∀ r ∈ a.strikes, r ∉ b.target :: t.ancestors b.target
  hosts : ∀ p, t.host? a = some p → t.host? b ≠ some p

theorem validateAll_of_apart (untouched : t.Untouched) {removed : List Nat} {edits : List Edit}
    (targets : ∀ edit ∈ edits, t.Targets edit)
    (plain : ∀ edit ∈ edits, ∀ id, edit ≠ .parenthesize id) (apart : edits.Pairwise t.Apart)
    (spared : ∀ edit ∈ edits, ∀ r ∈ removed, r ∉ edit.target :: t.ancestors edit.target) :
    t.validateAll removed edits = .ok () := by
  induction edits generalizing removed with
  | nil => rfl
  | cons edit rest ih =>
    obtain ⟨first, later⟩ := List.pairwise_cons.mp apart
    rw [validateAll_cons_eq_ok_iff]
    constructor
    · have aim := targets edit List.mem_cons_self
      refine validate_eq_ok_iff.mpr ⟨aim.1, ⟨?_, untouched.isInserted _⟩, aim.2, ?_⟩
      · intro a above
        refine ⟨(untouched a).1, fun gone => ?_⟩
        exact spared edit List.mem_cons_self a gone above
      · intro id same
        exact absurd same (plain edit List.mem_cons_self id)
    · apply ih (fun other member => targets other (List.mem_cons_of_mem _ member))
        (fun other member => plain other (List.mem_cons_of_mem _ member)) later
      intro other member r gone
      rcases List.mem_append.mp gone with early | here
      · exact spared other (List.mem_cons_of_mem _ member) r early
      · exact (first other member).spared r here

/-- Edits that do not meet are accepted. -/
theorem exists_apply (attached : t.Attached) (untouched : t.Untouched) {edits : List Edit}
    (targets : ∀ edit ∈ edits, t.Targets edit)
    (plain : ∀ edit ∈ edits, ∀ id, edit ≠ .parenthesize id) (apart : edits.Pairwise t.Apart) :
    ∃ u, t.apply edits = (u, .ok ()) ∧ t.Run edits u := by
  obtain ⟨u, run⟩ := exists_run attached untouched.marked targets plain
  have valid : t.validateAll [] edits = .ok () := by
    apply validateAll_of_apart untouched targets plain apart
    intro edit _ r impossible
    cases impossible
  refine ⟨u, ?_, run⟩
  unfold apply
  rw [valid]
  exact run.performed

/-- What edits leave alone: everything about an old node but its children and marks. -/
structure Keeps (t u : Tree) : Prop where
  source : u.source = t.source
  size : t.size ≤ u.size
  node : ∀ id, id < t.size → u.node id =
    { t.node id with
      children := (u.node id).children
      removed := (u.node id).removed
      dirty := (u.node id).dirty
      parenthesized := (u.node id).parenthesized }
  characters : t.OnCharacters → u.OnCharacters

namespace Keeps

theorem refl (t : Tree) : t.Keeps t :=
  ⟨rfl, Nat.le_refl _, fun _ _ => rfl, id⟩

theorem trans (first : t.Keeps v) (second : v.Keeps u) : t.Keeps u where
  source := second.source.trans first.source
  size := Nat.le_trans first.size second.size
  node id inside := by
    have later := second.node id (Nat.lt_of_lt_of_le inside first.size)
    rw [first.node id inside] at later
    exact later
  characters ends := second.characters (first.characters ends)

theorem of_marks (source : u.source = t.source) (size : u.size = t.size)
    (node : ∀ id, u.node id =
      { t.node id with
        removed := (u.node id).removed
        dirty := (u.node id).dirty
        parenthesized := (u.node id).parenthesized }) : t.Keeps u where
  source := source
  size := Nat.le_of_eq size.symm
  node id _ := by rw [node id]
  characters ends id := by
    unfold Tree.span
    rw [source, node id]
    exact ends id

theorem kind (keeps : t.Keeps u) {id : Nat} (inside : id < t.size) : u.kind id = t.kind id := by
  unfold Tree.kind
  rw [keeps.node id inside]

theorem span (keeps : t.Keeps u) {id : Nat} (inside : id < t.size) : u.span id = t.span id := by
  unfold Tree.span
  rw [keeps.node id inside]

theorem parent (keeps : t.Keeps u) {id : Nat} (inside : id < t.size) :
    (u.node id).parent = (t.node id).parent := by
  rw [keeps.node id inside]

theorem isInserted (keeps : t.Keeps u) {id : Nat} (inside : id < t.size) :
    (u.node id).isInserted = (t.node id).isInserted := by
  unfold Node.isInserted
  rw [keeps.node id inside]

end Keeps

theorem SameButMarks.keeps (same : t.SameButMarks u) : t.Keeps u :=
  .of_marks same.source same.size fun id => by rw [same.node id]

theorem Follows.keeps {gone : List Nat} (follows : t.Follows u gone) : t.Keeps u :=
  ⟨follows.source, follows.size, fun id inside => by rw [follows.node id inside], follows.characters⟩

theorem Change.keeps (change : t.Change u) (attached : t.Attached) (marked : t.Marked) :
    t.Keeps u := by
  cases change with
  | remove id p inside above =>
    have size : (t.strike id).size = t.size := size_modify ..
    have lower := parent_lt above
    have missing := marked.strike attached inside above
    have struck : t.Keeps (t.strike id) := .of_marks rfl size fun other => by rw [node_strike t inside]
    exact struck.trans (markDirty_spec _ p (by omega) missing.up).1.keeps
  | insert p before after offset insertion inside split placed =>
    exact (follows_insertNode offset marked inside split insertion placed).keeps
  | parenthesize id inside =>
    have size : (t.wrap id).size = t.size := size_modify ..
    have missing := marked.wrap inside
    have wrapped : t.Keeps (t.wrap id) := .of_marks rfl size fun other => by rw [node_wrap t inside]
    exact wrapped.trans (markDirty_spec _ id (by omega) missing.up).1.keeps

/-- What the check of an edit makes sure of. -/
structure Admits (t : Tree) (edit : Edit) : Prop where
  targets : t.Targets edit
  parsed : (t.node edit.target).isInserted = false
  lambda : ∀ id, edit = .parenthesize id → t.kind id = .lambdaExpression

theorem Admits.mono {edit : Edit} (admits : t.Admits edit) (keeps : t.Keeps u) : u.Admits edit where
  targets := admits.targets.mono keeps.size
  parsed := (keeps.isInserted admits.targets.1).trans admits.parsed
  lambda id same := by
    have inside := admits.targets.1
    rw [same] at inside
    exact (keeps.kind inside).trans (admits.lambda id same)

theorem admits_of_validateAll {removed : List Nat} {edits : List Edit}
    (valid : t.validateAll removed edits = .ok ()) : ∀ edit ∈ edits, t.Admits edit := by
  induction edits generalizing removed with
  | nil => simp
  | cons first rest ih =>
    obtain ⟨here, later⟩ := validateAll_cons_eq_ok_iff.mp valid
    obtain ⟨inside, ⟨-, parsed⟩, parental, lambda⟩ := validate_eq_ok_iff.mp here
    exact List.forall_mem_cons.mpr ⟨⟨⟨inside, parental⟩, parsed, lambda⟩, ih later⟩

section Induction

variable {P : Tree → List Edit → Prop}
  (step : ∀ {v w : Tree} {done : List Edit} {edit : Edit}, v.Attached → v.Marked → v.Admits edit →
    v.Change w → v.perform edit = .ok w → P v done → P w (done ++ [edit]))

include step

/-- What every edit preserves, a batch preserves. -/
theorem performAll_induction (attached : t.Attached) (marked : t.Marked) {done edits : List Edit}
    (admits : ∀ edit ∈ edits, t.Admits edit) (start : P t done) :
    P (t.performAll edits).1 (done ++ edits) := by
  induction edits generalizing t done with
  | nil => simpa [performAll] using start
  | cons edit rest ih =>
    obtain ⟨first, others⟩ := List.forall_mem_cons.mp admits
    obtain ⟨next, performed, change⟩ := perform_change attached first.targets
    obtain ⟨hung, right, -, -, -⟩ := change.preserves attached marked
    have keeps := change.keeps attached marked
    have later := ih hung right (fun other member => (others other member).mono keeps)
      (step attached marked first change performed start)
    rw [performAll, performed]
    simpa using later

theorem applyAll_induction (attached : t.Attached) (marked : t.Marked) (done : List Edit)
    (start : P t done) (batches : List (List Edit)) :
    P (t.applyAll batches) (done ++ (t.accepted batches).flatten) := by
  induction batches generalizing t done with
  | nil => simpa [applyAll, accepted] using start
  | cons batch rest ih =>
    have unfolded : t.applyAll (batch :: rest) = (t.apply batch).1.applyAll rest := rfl
    rcases apply_cases attached marked batch with
      ⟨reason, -, refused⟩ | ⟨u, valid, done, hung, right, -, -⟩
    · rw [unfolded, accepted, refused]
      exact ih attached marked done start
    · have carried : t.apply batch = t.performAll batch := by
        unfold apply
        rw [valid]
      have after := performAll_induction step attached marked (admits_of_validateAll valid) start
      rw [← carried, done] at after
      rw [unfolded, accepted, done]
      simpa using ih hung right _ after

end Induction

theorem applyAll_keeps (attached : t.Attached) (marked : t.Marked) (batches : List (List Edit)) :
    t.Keeps (t.applyAll batches) :=
  applyAll_induction (P := fun v _ => t.Keeps v)
    (fun attached marked _ change _ keeps => keeps.trans (change.keeps attached marked))
    attached marked [] (.refl t) batches

end SpringLint.Tree
