import SpringLint.Proofs.Syntax.Update
import SpringLint.Proofs.Text.Offsets

/-! The shape of an edited tree, and what one edit does to it. Every node but the root hangs once
below its parent, children stand in a row inside their parent, and marks lead from every edit up to
the root. -/

namespace SpringLint

theorem insertIdx_append_length {α : Type} (before after : List α) (item : α) :
    (before ++ after).insertIdx before.length item = before ++ item :: after := by
  induction before with
  | nil => rfl
  | cons first rest ih => simp [ih]

theorem forall_bne {items : List Nat} {x : Nat} (absent : x ∉ items) : ∀ y ∈ items, (y != x) = true :=
  fun _ member => bne_iff_ne.mpr fun same => absent (same ▸ member)

theorem takeWhile_ne {before after : List Nat} {x : Nat} (absent : x ∉ before) :
    (before ++ x :: after).takeWhile (· != x) = before := by
  rw [List.takeWhile_append_of_pos (forall_bne absent), List.takeWhile_cons_of_neg (by simp),
    List.append_nil]

theorem dropWhile_ne {before after : List Nat} {x : Nat} (absent : x ∉ before) :
    (before ++ x :: after).dropWhile (· != x) = x :: after := by
  rw [List.dropWhile_append_of_pos (forall_bne absent), List.dropWhile_cons_of_neg (by simp)]

namespace Tree

/-- Every node hangs below its parent, once, and nowhere else; only the root has no parent. -/
structure Attached (t : Tree) : Prop where
  nonempty : 0 < t.size
  root_parent : (t.node root).parent = none
  parent_inside : ∀ id, id < t.size → id ≠ root → ∃ p, p < t.size ∧ (t.node id).parent = some p
  listed : ∀ id, id < t.size → ∀ p,
    (t.node p).children.count id = if (t.node id).parent = some p then 1 else 0

/-- The children of every node stand in a row inside it. -/
def Spaced (t : Tree) : Prop :=
  ∀ id, InRow (t.span id).start (t.span id).stop ((t.node id).children.map t.span)

/-- Every node starts and ends between characters of the source. -/
def OnCharacters (t : Tree) : Prop :=
  ∀ id, Text.Boundary t.source (t.span id).start ∧ Text.Boundary t.source (t.span id).stop

/-- Whatever an edit has touched is marked, and so is everything above a marked node. -/
structure Marked (t : Tree) : Prop where
  child : ∀ id c, c ∈ (t.node id).children →
    (t.node c).removed = true ∨ (t.node c).isInserted = true → (t.node id).dirty = true
  parenthesized : ∀ id, (t.node id).parenthesized = true → (t.node id).dirty = true
  up : ∀ id p, (t.node id).parent = some p → (t.node id).dirty = true → (t.node p).dirty = true

/-- A tree that no edit has touched. -/
def Untouched (t : Tree) : Prop :=
  ∀ id, (t.node id).removed = false ∧ (t.node id).dirty = false ∧
    (t.node id).parenthesized = false ∧ (t.node id).origin = .parsed

theorem Untouched.isInserted {t : Tree} (untouched : t.Untouched) (id : Nat) :
    (t.node id).isInserted = false := by
  simp [Node.isInserted, (untouched id).2.2.2]

theorem Untouched.marked {t : Tree} (untouched : t.Untouched) : t.Marked where
  child id c _ touched := by
    rcases touched with removed | inserted
    · rw [(untouched c).1] at removed
      cases removed
    · rw [untouched.isInserted c] at inserted
      cases inserted
  parenthesized id wrapped := by
    rw [(untouched id).2.2.1] at wrapped
    cases wrapped
  up id p _ dirt := by
    rw [(untouched id).2.1] at dirt
    cases dirt

namespace Attached

variable {t : Tree}

theorem parent_of_mem (attached : t.Attached) {id c : Nat} (member : c ∈ (t.node id).children) :
    (t.node c).parent = some id := by
  have inside := (lt_of_mem_node_children member).2
  have once := attached.listed c inside id
  have present := List.count_pos_iff.mpr member
  by_cases above : (t.node c).parent = some id
  · exact above
  · rw [if_neg above] at once
    omega

theorem mem_of_parent (attached : t.Attached) {id p : Nat} (inside : id < t.size)
    (above : (t.node id).parent = some p) : id ∈ (t.node p).children := by
  have once := attached.listed id inside p
  rw [if_pos above] at once
  apply List.count_pos_iff.mp
  omega

theorem nodup_children (attached : t.Attached) (id : Nat) : (t.node id).children.Nodup := by
  rw [List.nodup_iff_count]
  intro c
  by_cases member : c ∈ (t.node id).children
  · have inside := (lt_of_mem_node_children member).2
    rw [attached.listed c inside id]
    split <;> omega
  · rw [List.count_eq_zero_of_not_mem member]
    omega

theorem congr {u : Tree} (attached : t.Attached) (size : u.size = t.size)
    (same : ∀ id, (u.node id).children = (t.node id).children ∧
      (u.node id).parent = (t.node id).parent) : u.Attached where
  nonempty := by rw [size]; exact attached.nonempty
  root_parent := by rw [(same root).2]; exact attached.root_parent
  parent_inside id inside other := by
    rw [size] at inside ⊢
    rw [(same id).2]
    exact attached.parent_inside id inside other
  listed id inside p := by
    rw [size] at inside
    rw [(same p).1, (same id).2]
    exact attached.listed id inside p

end Attached

variable {t : Tree}

section AddChild

variable {p : Nat} {before after : List Nat} (added : Node) (inside : p < t.size)
  (split : (t.node p).children = before ++ after)

include inside split

theorem node_addChild_between (other : Nat) :
    (t.addChild p before.length added).node other =
      if other = t.size then { added with parent := some p, children := [] }
      else if other = p then { t.node p with children := before ++ t.size :: after }
      else t.node other := by
  rw [node_addChild t p _ _ inside, split, insertIdx_append_length]

theorem node_addChild_size :
    (t.addChild p before.length added).node t.size =
      { added with parent := some p, children := [] } := by
  rw [node_addChild_between added inside split, if_pos rfl]

theorem node_addChild_old {id : Nat} (old : id ≠ t.size) :
    (t.addChild p before.length added).node id =
      { t.node id with
        children := if id = p then before ++ t.size :: after else (t.node id).children } := by
  rw [node_addChild_between added inside split, if_neg old]
  by_cases same : id = p
  · subst same
    rw [if_pos rfl, if_pos rfl]
  · rw [if_neg same, if_neg same]

theorem span_addChild {id : Nat} (old : id ≠ t.size) :
    (t.addChild p before.length added).span id = t.span id := by
  unfold span
  rw [node_addChild_old added inside split old]

theorem count_addChild {id : Nat} (old : id ≠ t.size) (q : Nat) :
    ((t.addChild p before.length added).node q).children.count id =
      (t.node q).children.count id := by
  rw [node_addChild_between added inside split]
  split
  · rename_i fresh
    rw [fresh, node_of_size_le (Nat.le_refl _)]
    rfl
  · split
    · rename_i same
      rw [same, split, List.count_append, List.count_append, List.count_cons_of_ne (Ne.symm old)]
    · rfl

theorem count_size_addChild (q : Nat) :
    ((t.addChild p before.length added).node q).children.count t.size =
      if p = q then 1 else 0 := by
  have unseen (r : Nat) : t.size ∉ (t.node r).children := by
    intro member
    exact Nat.lt_irrefl _ (lt_of_mem_node_children member).2
  rw [node_addChild_between added inside split]
  split
  · rename_i fresh
    rw [if_neg (by omega)]
    rfl
  · split
    · rename_i same
      have fresh := unseen p
      rw [split, List.mem_append, not_or] at fresh
      rw [if_pos same.symm, List.count_append, List.count_cons_self,
        List.count_eq_zero_of_not_mem fresh.1, List.count_eq_zero_of_not_mem fresh.2]
    · rename_i other
      rw [if_neg (Ne.symm other), List.count_eq_zero_of_not_mem (unseen q)]

theorem Attached.addChild (attached : t.Attached) :
    (t.addChild p before.length added).Attached := by
  have size := size_addChild t p before.length added inside
  refine ⟨by omega, ?_, ?_, ?_⟩
  · have old : root ≠ t.size := Nat.ne_of_lt attached.nonempty
    rw [node_addChild_old added inside split old]
    exact attached.root_parent
  · intro id bound other
    by_cases fresh : id = t.size
    · exact ⟨p, by omega, by rw [fresh, node_addChild_size added inside split]⟩
    · obtain ⟨q, below, above⟩ := attached.parent_inside id (by omega) other
      exact ⟨q, by omega, by rw [node_addChild_old added inside split fresh, above]⟩
  · intro id bound q
    by_cases fresh : id = t.size
    · subst fresh
      rw [count_size_addChild added inside split, node_addChild_size added inside split]
      simp only [Option.some.injEq]
    · rw [count_addChild added inside split fresh, node_addChild_old added inside split fresh]
      exact attached.listed id (by omega) q

theorem Spaced.addChild (spaced : t.Spaced)
    (ahead : InRow (t.span p).start added.span.start (before.map t.span))
    (proper : added.span.start ≤ added.span.stop)
    (behind : InRow added.span.stop (t.span p).stop (after.map t.span)) :
    (t.addChild p before.length added).Spaced := by
  have spans {ids : List Nat} (old : ∀ id ∈ ids, id < t.size) :
      ids.map (t.addChild p before.length added).span = ids.map t.span := by
    apply List.map_congr_left
    intro id member
    exact span_addChild added inside split (Nat.ne_of_lt (old id member))
  have here : (t.addChild p before.length added).span t.size = added.span := by
    unfold span
    rw [node_addChild_size added inside split]
  have bound (id c : Nat) (member : c ∈ (t.node id).children) : c < t.size :=
    (lt_of_mem_node_children member).2
  intro id
  by_cases fresh : id = t.size
  · subst fresh
    rw [here, node_addChild_size added inside split]
    exact proper
  · rw [span_addChild added inside split fresh, node_addChild_old added inside split fresh]
    by_cases same : id = p
    · subst same
      simp only [if_true]
      rw [List.map_append, List.map_cons, here,
        spans (fun c member => bound id c (by rw [split]; exact List.mem_append_left _ member)),
        spans (fun c member => bound id c (by rw [split]; exact List.mem_append_right _ member))]
      exact InRow.append_iff.mpr ⟨_, ahead, Nat.le_refl _, proper, behind⟩
    · simp only [if_neg same]
      rw [spans (bound id)]
      exact spaced id

theorem OnCharacters.addChild (characters : t.OnCharacters)
    (ends : Text.Boundary t.source added.span.start ∧ Text.Boundary t.source added.span.stop) :
    (t.addChild p before.length added).OnCharacters := by
  intro id
  rw [source_addChild]
  by_cases fresh : id = t.size
  · unfold span
    rw [fresh, node_addChild_size added inside split]
    exact ends
  · rw [span_addChild added inside split fresh]
    exact characters id

theorem Untouched.addChild (untouched : t.Untouched)
    (plain : added.removed = false ∧ added.dirty = false ∧ added.parenthesized = false ∧
      added.origin = .parsed) : (t.addChild p before.length added).Untouched := by
  intro id
  by_cases fresh : id = t.size
  · rw [fresh, node_addChild_size added inside split]
    exact plain
  · rw [node_addChild_old added inside split fresh]
    exact untouched id

end AddChild

end Tree

end SpringLint
