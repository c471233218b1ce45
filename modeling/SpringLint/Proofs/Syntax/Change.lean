import SpringLint.Proofs.Syntax.Shape

/-! What an edit does to a tree when it is carried out, that a checked edit always can be, and what
it preserves. -/

namespace SpringLint.Tree

variable {t u : Tree}

/-- Where an added child may stand: at the start of its parent and first, at the end and last, or
right behind a sibling. -/
def Placed (t : Tree) (parent : Nat) (before after : List Nat) (offset : Nat) : Prop :=
  (before = [] ∧ offset = (t.span parent).start) ∨
    (after = [] ∧ offset = (t.span parent).stop) ∨
      ∃ others anchor, before = others ++ [anchor] ∧ offset = (t.span anchor).stop

/-- What an edit that is carried out does. -/
inductive Change (t : Tree) : Tree → Prop where
  | remove (id p : Nat) (inside : id < t.size) (above : (t.node id).parent = some p) :
    Change t ((t.strike id).markDirty p)
  | insert (p : Nat) (before after : List Nat) (offset : Nat) (insertion : Insertion)
    (inside : p < t.size) (split : (t.node p).children = before ++ after)
    (placed : t.Placed p before after offset) :
    Change t (t.insertNode p before.length offset insertion)
  | parenthesize (id : Nat) (inside : id < t.size) :
    Change t ((t.wrap id).markDirty id)

theorem Placed.inRow {p offset : Nat} {before after : List Nat}
    (placed : t.Placed p before after offset)
    (row : InRow (t.span p).start (t.span p).stop ((before ++ after).map t.span)) :
    InRow (t.span p).start offset (before.map t.span) ∧
      InRow offset (t.span p).stop (after.map t.span) := by
  rw [List.map_append] at row
  rcases placed with ⟨rfl, rfl⟩ | ⟨rfl, rfl⟩ | ⟨others, anchor, rfl, rfl⟩
  · exact ⟨Nat.le_refl _, row⟩
  · rw [List.map_nil, List.append_nil] at row
    exact ⟨row, Nat.le_refl _⟩
  · rw [List.map_append, List.append_assoc] at row
    obtain ⟨middle, left, first, proper, right⟩ := InRow.append_iff.mp row
    refine ⟨?_, right⟩
    rw [List.map_append]
    exact InRow.append_iff.mpr ⟨middle, left, first, proper, Nat.le_refl _⟩

theorem SameButMarks.attached (same : t.SameButMarks u) (attached : t.Attached) : u.Attached :=
  attached.congr same.size fun id => by rw [same.node id]; exact ⟨rfl, rfl⟩

theorem SameButMarks.spaced (same : t.SameButMarks u) (spaced : t.Spaced) : u.Spaced := by
  have spans : u.span = t.span := by
    funext id
    unfold span
    rw [same.node id]
  intro id
  rw [spans, same.node id]
  exact spaced id

theorem span_modify {id : Nat} (inside : id < t.size) {f : Node → Node}
    {keeps : ∀ n, (f n).children = n.children ∧ (f n).parent = n.parent}
    (still : ∀ n, (f n).span = n.span) (other : Nat) :
    (t.modify id f keeps).span other = t.span other := by
  unfold span
  rw [node_modify t id f keeps inside]
  split
  · rename_i same
    rw [same, still]
  · rfl

theorem Spaced.modify (spaced : t.Spaced) {id : Nat} (inside : id < t.size) {f : Node → Node}
    {keeps : ∀ n, (f n).children = n.children ∧ (f n).parent = n.parent}
    (still : ∀ n, (f n).span = n.span) : (t.modify id f keeps).Spaced := by
  have spans : (t.modify id f keeps).span = t.span := funext (span_modify inside still)
  intro other
  rw [spans, node_modify t id f keeps inside]
  split
  · rename_i same
    rw [same, (keeps _).1]
    exact spaced id
  · exact spaced other

theorem Attached.modify (attached : t.Attached) {id : Nat} (inside : id < t.size)
    {f : Node → Node} {keeps : ∀ n, (f n).children = n.children ∧ (f n).parent = n.parent} :
    (t.modify id f keeps).Attached := by
  apply attached.congr (size_modify ..)
  intro other
  rw [node_modify t id f keeps inside]
  split
  · rename_i same
    rw [same]
    exact keeps _
  · exact ⟨rfl, rfl⟩

/-- The marks are right, but for what is missing at one node. -/
structure MarkedExcept (t : Tree) (spot : Nat) : Prop where
  child : ∀ id c, c ∈ (t.node id).children →
    (t.node c).removed = true ∨ (t.node c).isInserted = true →
      (t.node id).dirty = true ∨ id = spot
  parenthesized : ∀ id, (t.node id).parenthesized = true → (t.node id).dirty = true ∨ id = spot
  up : ∀ id p, (t.node id).parent = some p → (t.node id).dirty = true →
    (t.node p).dirty = true ∨ p = spot

theorem MarkedExcept.markDirty {spot : Nat} (marked : t.MarkedExcept spot) (inside : spot < t.size) :
    (t.markDirty spot).Marked ∧ ((t.markDirty spot).node spot).dirty = true := by
  obtain ⟨same, here, up⟩ := markDirty_spec t spot inside marked.up
  have finish (id : Nat) (found : (t.node id).dirty = true ∨ id = spot) :
      ((t.markDirty spot).node id).dirty = true := by
    rcases found with earlier | rfl
    · exact same.grows id earlier
    · exact here
  refine ⟨⟨?_, ?_, ?_⟩, here⟩
  · intro id c member touched
    rw [same.node id] at member
    rw [same.node c] at touched
    exact finish id (marked.child id c member touched)
  · intro id wrapped
    rw [same.node id] at wrapped
    exact finish id (marked.parenthesized id wrapped)
  · intro id p above dirt
    rw [same.node id] at above
    exact up id p above dirt

theorem Marked.strike (marked : t.Marked) (attached : t.Attached) {id p : Nat}
    (inside : id < t.size) (above : (t.node id).parent = some p) :
    (t.strike id).MarkedExcept p := by
  have nodes := node_strike t inside
  refine ⟨?_, ?_, ?_⟩
  · intro other c member touched
    rw [nodes] at member touched ⊢
    by_cases target : c = id
    · subst target
      rw [attached.parent_of_mem member] at above
      exact .inr (Option.some.inj above)
    · simp only [beq_eq_false_iff_ne.mpr target, Bool.or_false] at touched
      exact .inl (marked.child other c member touched)
  · intro other wrapped
    rw [nodes] at wrapped ⊢
    exact .inl (marked.parenthesized other wrapped)
  · intro other q parentOf dirt
    rw [nodes] at parentOf dirt ⊢
    exact .inl (marked.up other q parentOf dirt)

theorem Marked.wrap (marked : t.Marked) {id : Nat} (inside : id < t.size) :
    (t.wrap id).MarkedExcept id := by
  have nodes := node_wrap t inside
  refine ⟨?_, ?_, ?_⟩
  · intro other c member touched
    rw [nodes] at member touched ⊢
    exact .inl (marked.child other c member touched)
  · intro other wrapped
    rw [nodes] at wrapped ⊢
    by_cases target : other = id
    · exact .inr target
    · simp only [beq_eq_false_iff_ne.mpr target, Bool.or_false] at wrapped
      exact .inl (marked.parenthesized other wrapped)
  · intro other q parentOf dirt
    rw [nodes] at parentOf dirt ⊢
    exact .inl (marked.up other q parentOf dirt)

theorem Marked.addChild (marked : t.Marked) {p : Nat} {before after : List Nat} {added : Node}
    (inside : p < t.size) (split : (t.node p).children = before ++ after)
    (plain : added.parenthesized = false ∧ added.dirty = false) :
    (t.addChild p before.length added).MarkedExcept p := by
  have fresh := node_addChild_size added inside split
  have old {id : Nat} (there : id ≠ t.size) := node_addChild_old added inside split there
  refine ⟨?_, ?_, ?_⟩
  · intro id c member touched
    by_cases here : id = p
    · exact .inr here
    · by_cases last : id = t.size
      · rw [last, fresh] at member
        cases member
      · rw [old last] at member ⊢
        simp only [if_neg here] at member
        have below : c ≠ t.size := Nat.ne_of_lt (lt_of_mem_node_children member).2
        rw [old below] at touched
        exact .inl (marked.child id c member touched)
  · intro id wrapped
    by_cases last : id = t.size
    · rw [last, fresh] at wrapped
      exact absurd wrapped (by simp [plain.1])
    · rw [old last] at wrapped ⊢
      exact .inl (marked.parenthesized id wrapped)
  · intro id q above dirt
    by_cases last : id = t.size
    · rw [last, fresh] at dirt
      exact absurd dirt (by simp [plain.2])
    · rw [old last] at above dirt
      have lower : q < id := parent_lt above
      have there : q ≠ t.size := by
        intro equal
        rw [node_of_size_le (by omega)] at above
        cases above
      rw [old there]
      exact .inl (marked.up id q above dirt)

theorem Marked.dirty_root (marked : t.Marked) (attached : t.Attached) {id : Nat}
    (inside : id < t.size) (dirt : (t.node id).dirty = true) : (t.node root).dirty = true := by
  induction id using Nat.strongRecOn with
  | ind id ih =>
    by_cases top : id = root
    · rwa [top] at dirt
    · obtain ⟨p, below, above⟩ := attached.parent_inside id inside top
      exact ih p (parent_lt above) below (marked.up id p above dirt)

namespace Change

/-- Every change is made first and marked afterwards; before the mark is set, only that mark is
missing. -/
theorem draft (change : t.Change u) (attached : t.Attached) (marked : t.Marked) :
    ∃ (w : Tree) (spot : Nat), u = w.markDirty spot ∧ spot < w.size ∧ t.size ≤ w.size ∧ w.Attached ∧
      w.MarkedExcept spot ∧ (t.Spaced → w.Spaced) := by
  cases change with
  | remove id p inside above =>
    have size : (t.strike id).size = t.size := size_modify ..
    have lower := parent_lt above
    refine ⟨t.strike id, p, rfl, by omega, by omega, ?_, marked.strike attached inside above, ?_⟩
    · exact attached.modify inside
    · intro spaced
      exact spaced.modify inside fun _ => rfl
  | insert p before after offset insertion inside split placed =>
    have size := size_addChild t p before.length
      { kind := .other "inserted", span := ⟨offset, offset⟩, origin := .inserted insertion } inside
    refine ⟨t.addChild p before.length _, p, rfl, by omega, by omega, ?_, ?_, ?_⟩
    · exact attached.addChild _ inside split
    · exact marked.addChild inside split ⟨rfl, rfl⟩
    · intro spaced
      have row := spaced p
      rw [split] at row
      obtain ⟨ahead, behind⟩ := placed.inRow row
      exact spaced.addChild _ inside split ahead (Nat.le_refl _) behind
  | parenthesize id inside =>
    have size : (t.wrap id).size = t.size := size_modify ..
    refine ⟨t.wrap id, id, rfl, by omega, by omega, ?_, marked.wrap inside, ?_⟩
    · exact attached.modify inside
    · intro spaced
      exact spaced.modify inside fun _ => rfl

/-- What one edit preserves, and that it shows at the root. -/
theorem preserves (change : t.Change u) (attached : t.Attached) (marked : t.Marked) :
    u.Attached ∧ u.Marked ∧ (t.Spaced → u.Spaced) ∧ t.size ≤ u.size ∧ u.isModified = true := by
  obtain ⟨w, spot, rfl, inside, grown, hung, missing, rowed⟩ := change.draft attached marked
  obtain ⟨same, -, -⟩ := markDirty_spec w spot inside missing.up
  obtain ⟨right, here⟩ := missing.markDirty inside
  have whole := same.attached hung
  refine ⟨whole, right, fun spaced => same.spaced (rowed spaced), ?_, ?_⟩
  · rw [same.size]
    exact grown
  · exact right.dirty_root whole (by rw [same.size]; exact inside) here

end Change

end SpringLint.Tree

namespace SpringLint

namespace Edit

/-- Whether an edit puts its target's siblings or parent to use, which the root has not. -/
def needsParent : Edit → Bool
  | .remove _ | .insertAfter _ _ => true
  | _ => false

end Edit

namespace Tree

/-- What a checked edit is promised: a target in the tree, which has a parent if one is needed. -/
def Targets (t : Tree) (edit : Edit) : Prop :=
  edit.target < t.size ∧ (edit.needsParent = true → edit.target ≠ root)

variable {t : Tree}

theorem Targets.mono {u : Tree} {edit : Edit} (targets : t.Targets edit) (grown : t.size ≤ u.size) :
    u.Targets edit :=
  ⟨Nat.lt_of_lt_of_le targets.1 grown, targets.2⟩

theorem requires_eq_ok_iff {condition : Prop} [Decidable condition] {reason : EditError} :
    (if condition then pure () else throw reason : Except EditError Unit) = .ok () ↔
      condition := by
  by_cases holds : condition
  · rw [if_pos holds]
    exact ⟨fun _ => holds, fun _ => rfl⟩
  · rw [if_neg holds]
    constructor
    · intro impossible
      cases impossible
    · intro shown
      exact absurd shown holds

theorem refuses_eq_ok_iff {condition : Prop} [Decidable condition] {reason : EditError} :
    (if condition then throw reason else pure () : Except EditError Unit) = .ok () ↔
      ¬condition := by
  rw [← ite_not]
  exact requires_eq_ok_iff

theorem blocked_eq_false_iff {removed : List Nat} {id : Nat} :
    (((id :: t.ancestors id).any fun a => (t.node a).removed || removed.contains a) ||
        (t.node id).isInserted) = false ↔
      (∀ a ∈ id :: t.ancestors id, (t.node a).removed = false ∧ a ∉ removed) ∧
        (t.node id).isInserted = false := by
  rw [Bool.or_eq_false_iff, List.any_eq_false]
  simp only [Bool.not_eq_true, Bool.or_eq_false_iff, List.contains_eq_mem, decide_eq_false_iff_not]

theorem validate_eq_ok_iff {removed : List Nat} {edit : Edit} :
    t.validate removed edit = .ok () ↔
      edit.target < t.size ∧
      ((∀ a ∈ edit.target :: t.ancestors edit.target, (t.node a).removed = false ∧ a ∉ removed) ∧
        (t.node edit.target).isInserted = false) ∧
      (edit.needsParent = true → edit.target ≠ root) ∧
      ∀ id, edit = .parenthesize id → t.kind id = .lambdaExpression := by
  rw [← blocked_eq_false_iff]
  unfold validate
  by_cases inside : edit.target < t.size
  · cases blocked : ((edit.target :: t.ancestors edit.target).any fun a =>
        (t.node a).removed || removed.contains a) || (t.node edit.target).isInserted with
    | true =>
      simp only [inside, if_true, blocked]
      constructor
      · intro impossible
        cases impossible
      · rintro ⟨-, impossible, -⟩
        cases impossible
    | false =>
      simp only [inside, if_true, blocked, Bool.false_eq_true, if_false, true_and]
      cases edit with
      | remove id =>
        simp only [Edit.target, Edit.needsParent, forall_const, reduceCtorEq, false_implies,
          and_true]
        exact refuses_eq_ok_iff
      | insertAfter anchor insertion =>
        simp only [Edit.target, Edit.needsParent, forall_const, reduceCtorEq, false_implies,
          and_true]
        exact refuses_eq_ok_iff
      | append p insertion => simp [Edit.needsParent, pure, Except.pure]
      | prepend p insertion => simp [Edit.needsParent, pure, Except.pure]
      | parenthesize id =>
        simp only [Edit.target, Edit.needsParent, Bool.false_eq_true, false_implies,
          Edit.parenthesize.injEq, forall_eq', true_and]
        exact requires_eq_ok_iff
  · simp only [inside, if_false, false_and, iff_false]
    intro impossible
    cases impossible

theorem targets_of_validate {removed : List Nat} {edit : Edit}
    (valid : t.validate removed edit = .ok ()) : t.Targets edit := by
  obtain ⟨inside, -, parental, -⟩ := validate_eq_ok_iff.mp valid
  exact ⟨inside, parental⟩

theorem perform_remove {id p : Nat} (above : (t.node id).parent = some p) :
    t.perform (.remove id) = .ok ((t.strike id).markDirty p) := by
  have known : t.parent id = some p := above
  rw [perform, known]
  rfl

/-- A checked edit can be carried out, and is a change. -/
theorem perform_change (attached : t.Attached) {edit : Edit} (targets : t.Targets edit) :
    ∃ u, t.perform edit = .ok u ∧ t.Change u := by
  obtain ⟨inside, parental⟩ := targets
  cases edit with
  | remove id =>
    obtain ⟨p, -, above⟩ := attached.parent_inside id inside (parental rfl)
    exact ⟨(t.strike id).markDirty p, perform_remove above, .remove id p inside above⟩
  | append p insertion =>
    refine ⟨_, rfl, .insert p _ [] _ insertion inside (List.append_nil _).symm ?_⟩
    exact .inr (.inl ⟨rfl, rfl⟩)
  | prepend p insertion =>
    refine ⟨_, rfl, .insert p [] _ _ insertion inside (List.nil_append _).symm ?_⟩
    exact .inl ⟨rfl, rfl⟩
  | insertAfter anchor insertion =>
    obtain ⟨p, below, above⟩ := attached.parent_inside anchor inside (parental rfl)
    have member := attached.mem_of_parent inside above
    cases found : (t.node p).children.idxOf? anchor with
    | none => exact absurd member (List.idxOf?_eq_none_iff.mp found)
    | some i =>
      obtain ⟨bound, here, -⟩ := List.idxOf?_eq_some_iff.mp found
      have length : ((t.node p).children.take (i + 1)).length = i + 1 := by
        rw [List.length_take]
        omega
      have change : t.Change (t.insertNode p (i + 1) (t.span anchor).stop insertion) := by
        have placed : t.Placed p ((t.node p).children.take (i + 1))
            ((t.node p).children.drop (i + 1)) (t.span anchor).stop := by
          refine .inr (.inr ⟨(t.node p).children.take i, anchor, ?_, rfl⟩)
          rw [List.take_succ_eq_append_getElem bound, here]
        have inserted := Change.insert p _ _ _ insertion below (List.take_append_drop _ _).symm placed
        rwa [length] at inserted
      refine ⟨_, ?_, change⟩
      simp only [perform, parent, above, found]
  | parenthesize id =>
    exact ⟨_, rfl, .parenthesize id inside⟩

end Tree

end SpringLint
