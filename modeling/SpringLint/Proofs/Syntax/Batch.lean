import SpringLint.Proofs.Syntax.Javadoc
import SpringLint.Proofs.Syntax.Numbering
import SpringLint.Syntax.Source

/-! Batches of edits on a parsed tree. A batch that passes its check is carried out whole, one that
does not leaves the tree alone, and whatever batches come, the tree keeps its shape. -/

namespace SpringLint

namespace Edit

def strikes : Edit → List Nat
  | .remove id => [id]
  | _ => []

end Edit

namespace Tree

variable {t : Tree}

theorem validateAll_cons (removed : List Nat) (edit : Edit) (rest : List Edit) :
    t.validateAll removed (edit :: rest) =
      (t.validate removed edit >>= fun _ => t.validateAll (removed ++ edit.strikes) rest) := by
  cases edit with
  | remove id => rw [validateAll]; rfl
  | _ => simp [validateAll, Edit.strikes]

theorem validateAll_cons_eq_ok_iff {removed : List Nat} {edit : Edit} {rest : List Edit} :
    t.validateAll removed (edit :: rest) = .ok () ↔
      t.validate removed edit = .ok () ∧ t.validateAll (removed ++ edit.strikes) rest = .ok () := by
  rw [validateAll_cons]
  cases t.validate removed edit with
  | error reason => simp [bind, Except.bind]
  | ok => simp [bind, Except.bind]

theorem targets_of_validateAll {removed : List Nat} {edits : List Edit}
    (valid : t.validateAll removed edits = .ok ()) : ∀ edit ∈ edits, t.Targets edit := by
  induction edits generalizing removed with
  | nil =>
    intro edit member
    cases member
  | cons first rest ih =>
    obtain ⟨here, later⟩ := validateAll_cons_eq_ok_iff.mp valid
    intro edit member
    rcases List.mem_cons.mp member with rfl | among
    · exact targets_of_validate here
    · exact ih later edit among

/-- A whole batch of checked edits can be carried out. Each edit only adds nodes, so the targets of
the later ones stay what they were. -/
theorem performAll_targets (attached : t.Attached) (marked : t.Marked) {edits : List Edit}
    (targets : ∀ edit ∈ edits, t.Targets edit) :
    ∃ u, t.performAll edits = (u, .ok ()) ∧ u.Attached ∧ u.Marked ∧ (t.Spaced → u.Spaced) ∧
      (u.isModified = true ↔ t.isModified = true ∨ edits ≠ []) := by
  induction edits generalizing t with
  | nil => exact ⟨t, rfl, attached, marked, fun spaced => spaced, by simp⟩
  | cons edit rest ih =>
    obtain ⟨next, done, change⟩ := perform_change attached (targets edit List.mem_cons_self)
    obtain ⟨hung, right, rowed, grown, shown⟩ := change.preserves attached marked
    have later : ∀ other ∈ rest, next.Targets other := by
      intro other member
      exact (targets other (List.mem_cons_of_mem _ member)).mono grown
    obtain ⟨u, rests, whole, sound, spaced, modified⟩ := ih hung right later
    refine ⟨u, ?_, whole, sound, fun row => spaced (rowed row), ?_⟩
    · rw [performAll, done]
      exact rests
    · simp [modified, shown]

theorem validate_error {removed : List Nat} {edit : Edit} {reason : EditError}
    (refused : t.validate removed edit = .error reason) (id : Nat) :
    reason ≠ .noParent id ∧ reason ≠ .detached id := by
  have other {a : EditError} (named : ∀ id, a ≠ .noParent id ∧ a ≠ .detached id) {r : EditError}
      (same : (.error a : Except EditError Unit) = .error r) : r ≠ .noParent id ∧ r ≠ .detached id := by
    rw [← Except.error.inj same]
    exact named id
  unfold validate at refused
  by_cases inside : edit.target < t.size
  · cases blocked : ((edit.target :: t.ancestors edit.target).any fun a =>
        (t.node a).removed || removed.contains a) || (t.node edit.target).isInserted with
    | true =>
      simp only [inside, if_true, blocked] at refused
      exact other (by simp) refused
    | false =>
      simp only [inside, if_true, blocked, Bool.false_eq_true, if_false] at refused
      cases edit with
      | parenthesize target =>
        by_cases lambda : t.kind target = .lambdaExpression
        · simp only [Edit.target, lambda, if_true] at refused
          cases refused
        · simp only [Edit.target, lambda, if_false] at refused
          exact other (by simp) refused
      | remove target =>
        by_cases top : target = root
        · simp only [Edit.target, top, if_true] at refused
          exact other (by simp) refused
        · simp only [Edit.target, top, if_false] at refused
          cases refused
      | insertAfter anchor insertion =>
        by_cases top : anchor = root
        · simp only [Edit.target, top, if_true] at refused
          exact other (by simp) refused
        · simp only [Edit.target, top, if_false] at refused
          cases refused
      | append p insertion => cases refused
      | prepend p insertion => cases refused
  · simp only [inside, if_false] at refused
    exact other (by simp) refused

theorem validateAll_error {removed : List Nat} {edits : List Edit} {reason : EditError}
    (refused : t.validateAll removed edits = .error reason) (id : Nat) :
    reason ≠ .noParent id ∧ reason ≠ .detached id := by
  induction edits generalizing removed with
  | nil => cases refused
  | cons edit rest ih =>
    rw [validateAll_cons] at refused
    cases first : t.validate removed edit with
    | error other =>
      rw [first] at refused
      cases refused
      exact validate_error first id
    | ok =>
      rw [first] at refused
      exact ih refused

/-- A batch is refused and changes nothing, or it is carried out whole. -/
theorem apply_cases (attached : t.Attached) (marked : t.Marked) (edits : List Edit) :
    (∃ reason, t.validateAll [] edits = .error reason ∧ t.apply edits = (t, .error reason)) ∨
      ∃ u, t.validateAll [] edits = .ok () ∧ t.apply edits = (u, .ok ()) ∧ u.Attached ∧ u.Marked ∧
        (t.Spaced → u.Spaced) ∧ (u.isModified = true ↔ t.isModified = true ∨ edits ≠ []) := by
  unfold apply
  cases valid : t.validateAll [] edits with
  | error reason => exact .inl ⟨reason, rfl, rfl⟩
  | ok =>
    obtain ⟨u, done, facts⟩ := performAll_targets attached marked (targets_of_validateAll valid)
    exact .inr ⟨u, rfl, done, facts⟩

/-- The tree after batches of edits, some of which may be refused. -/
def applyAll (t : Tree) (batches : List (List Edit)) : Tree :=
  batches.foldl (fun t batch => (t.apply batch).1) t

/-- Those of the batches that are not refused. -/
def accepted (t : Tree) : List (List Edit) → List (List Edit)
  | [] => []
  | batch :: rest =>
    match t.apply batch with
    | (u, .ok ()) => batch :: u.accepted rest
    | (u, .error _) => u.accepted rest

/-- What batches preserve, and when they show. -/
theorem applyAll_preserves (attached : t.Attached) (marked : t.Marked)
    (batches : List (List Edit)) :
    (t.applyAll batches).Attached ∧ (t.applyAll batches).Marked ∧
      (t.Spaced → (t.applyAll batches).Spaced) ∧
        ((t.applyAll batches).isModified = true ↔
          t.isModified = true ∨ ∃ batch ∈ t.accepted batches, batch ≠ []) := by
  induction batches generalizing t with
  | nil => exact ⟨attached, marked, id, by simp [applyAll, accepted]⟩
  | cons batch rest ih =>
    have step : t.applyAll (batch :: rest) = (t.apply batch).1.applyAll rest := rfl
    rcases apply_cases attached marked batch with
      ⟨reason, -, refused⟩ | ⟨u, -, done, hung, right, rowed, shown⟩
    · rw [step, accepted, refused]
      exact ih attached marked
    · obtain ⟨whole, sound, spaced, modified⟩ := ih hung right
      rw [step, accepted, done]
      refine ⟨whole, sound, fun row => spaced (rowed row), ?_⟩
      simp only [modified, shown, List.mem_cons, or_and_right, exists_or, exists_eq_left, or_assoc]

theorem Marked.ancestors (marked : t.Marked) {id a : Nat} (dirt : (t.node id).dirty = true)
    (above : a ∈ t.ancestors id) : (t.node a).dirty = true := by
  induction id using Nat.strongRecOn with
  | ind id ih =>
    rw [Tree.ancestors] at above
    split at above
    · rename_i p parentOf
      have here := marked.up id p parentOf dirt
      rcases List.mem_cons.mp above with rfl | further
      · exact here
      · exact ih p (parent_lt parentOf) here further
    · cases above

end Tree

namespace Source

variable (text : String) (parse : Parse)

theorem source_ofParse : (ofParse text parse).tree.source = text :=
  (Javadoc.read_extends _).1

theorem attached_ofParse : (ofParse text parse).tree.Attached :=
  (Javadoc.read_extends _).2.1 (parse.tree.attached_toTree text)

theorem untouched_ofParse : (ofParse text parse).tree.Untouched :=
  (Javadoc.read_extends _).2.2 (parse.tree.untouched_toTree text)

theorem spaced_ofParse (nested : parse.tree.Nested) (leaves : parse.tree.LeafComments) :
    (ofParse text parse).tree.Spaced :=
  (Javadoc.read_spaced (ParseTree.spaced_toTree nested text)
    (ParseTree.leaf_toTree leaves text)).1

/-- Whatever batches of edits a parsed tree is given, accepted or refused: nodes hang once below
their parents, children stand in a row inside their parent, and marks lead from every edit up to the
root, which is marked exactly when an accepted batch had an edit. -/
theorem edited_keeps_shape (nested : parse.tree.Nested) (leaves : parse.tree.LeafComments)
    (batches : List (List Edit)) :
    let fresh := (ofParse text parse).tree
    let t := fresh.applyAll batches
    t.Attached ∧ t.Spaced ∧ t.Marked ∧
      (∀ id, (t.node id).dirty = true → ∀ a ∈ t.ancestors id, (t.node a).dirty = true) ∧
        (t.isModified = true ↔ ∃ batch ∈ fresh.accepted batches, batch ≠ []) := by
  intro fresh t
  have untouched := untouched_ofParse text parse
  obtain ⟨attached, marked, spaced, modified⟩ :=
    Tree.applyAll_preserves (attached_ofParse text parse) untouched.marked batches
  have clean : fresh.isModified = false := (untouched Tree.root).2.1
  refine ⟨attached, spaced (spaced_ofParse text parse nested leaves), marked, ?_, ?_⟩
  · intro id dirt a above
    exact marked.ancestors dirt above
  · rw [clean] at modified
    simpa using modified

/-- A documented class without members: a link is removed, which a second batch cannot do again,
and a modifier is added. -/
theorem edited_keeps_shape_documented :
    let tree : ParseTree := .node "program" true ⟨0, 27⟩ none
      [.node "block_comment" true ⟨0, 16⟩ none [],
        .node "class_declaration" true ⟨17, 27⟩ none
          [.node "class" false ⟨17, 22⟩ none [],
            .node "identifier" true ⟨23, 24⟩ (some "name") [],
            .node "class_body" true ⟨25, 27⟩ (some "body")
              [.node "\x7b" false ⟨25, 26⟩ none [], .node "\x7d" false ⟨26, 27⟩ none []]]]
    let fresh := (ofParse "/** \x7b@link A\x7d */ class B \x7b\x7d" ⟨tree, false⟩).tree
    let batches : List (List Edit) := [[.remove 8], [.remove 8], [.prepend 2 (.keyword "final")]]
    let t := fresh.applyAll batches
    (tree.Nested ∧ tree.LeafComments) ∧
      t.Attached ∧ t.Spaced ∧ t.Marked ∧
      (∀ id, (t.node id).dirty = true → ∀ a ∈ t.ancestors id, (t.node a).dirty = true) ∧
        (t.isModified = true ↔ ∃ batch ∈ fresh.accepted batches, batch ≠ []) := by
  intro tree fresh batches t
  have nested : tree.Nested := by decide
  have leaves : tree.LeafComments := by decide
  exact ⟨⟨nested, leaves⟩, edited_keeps_shape _ _ nested leaves batches⟩

/-- A batch ends as its check ends. If it fails, the tree is what it was and the reason is one that
the check gives; what passes the check can be carried out to its last edit. -/
theorem apply_all_or_nothing (batches : List (List Edit)) (edits : List Edit) :
    let t := (ofParse text parse).tree.applyAll batches
    (t.apply edits).2 = t.validateAll [] edits ∧
      (∀ reason, (t.apply edits).2 = .error reason →
        (t.apply edits).1 = t ∧ ∀ id, reason ≠ .noParent id ∧ reason ≠ .detached id) ∧
      (t.validateAll [] edits = .ok () → (t.performAll edits).2 = .ok ()) := by
  intro t
  obtain ⟨attached, marked, -, -⟩ := Tree.applyAll_preserves (attached_ofParse text parse)
    (untouched_ofParse text parse).marked batches
  rcases Tree.apply_cases attached marked edits with
    ⟨reason, invalid, refused⟩ | ⟨u, valid, done, -⟩
  · refine ⟨by rw [refused, invalid], ?_, ?_⟩
    · intro other failed
      rw [refused] at failed
      cases failed
      exact ⟨by rw [refused], Tree.validateAll_error invalid⟩
    · intro valid
      rw [invalid] at valid
      cases valid
  · refine ⟨by rw [done, valid], ?_, ?_⟩
    · intro other failed
      rw [done] at failed
      cases failed
    · intro _
      have carried : t.apply edits = t.performAll edits := by
        unfold Tree.apply
        rw [valid]
      rw [← carried, done]

end Source

end SpringLint
