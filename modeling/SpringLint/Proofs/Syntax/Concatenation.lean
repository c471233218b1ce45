import SpringLint.Proofs.Syntax.Hosts

/-! One batch against two. A batch is checked on the tree that it finds, with its own removals kept
in a list; the batch after it is checked on the changed tree, where they are flags. What it inserts is
not yet in the tree at the one check, and may not be edited at the other. -/

namespace SpringLint.Tree

variable {t u v : Tree}

/-- The tree after some edits, as far as the check of later ones looks at it. -/
structure Since (t : Tree) (edits : List Edit) (u : Tree) : Prop where
  keeps : t.Keeps u
  removed : ∀ id, id < t.size →
    (u.node id).removed = ((t.node id).removed || (edits.flatMap Edit.strikes).contains id)
  inserted : ∀ id, t.size ≤ id → id < u.size → (u.node id).isInserted = true

namespace Since

variable {edits more : List Edit}

theorem refl (t : Tree) : t.Since [] t where
  keeps := .refl t
  removed id _ := by simp
  inserted id outside inside := by omega

theorem trans (first : t.Since edits v) (second : v.Since more u) : t.Since (edits ++ more) u where
  keeps := first.keeps.trans second.keeps
  removed id inside := by
    have here : id < v.size := Nat.lt_of_lt_of_le inside first.keeps.size
    calc (u.node id).removed
        = ((v.node id).removed || (more.flatMap Edit.strikes).contains id) := second.removed id here
      _ = ((t.node id).removed || (edits.flatMap Edit.strikes).contains id ||
            (more.flatMap Edit.strikes).contains id) := by rw [first.removed id inside]
      _ = ((t.node id).removed || ((edits ++ more).flatMap Edit.strikes).contains id) := by
        rw [List.flatMap_append, List.contains_append, Bool.or_assoc]
  inserted id outside inside := by
    by_cases early : id < v.size
    · rw [second.keeps.isInserted early]
      exact first.inserted id outside early
    · exact second.inserted id (by omega) inside

theorem of_follows {edit : Edit} (follows : t.Follows u edit.strikes) : t.Since [edit] u where
  keeps := follows.keeps
  removed id inside := by rw [follows.node id inside, List.flatMap_singleton]
  inserted id outside inside := (follows.fresh id outside inside).1

end Since

theorem since_parenthesize (marked : t.Marked) {id : Nat} (inside : id < t.size) :
    t.Since [.parenthesize id] ((t.wrap id).markDirty id) := by
  have size : (t.wrap id).size = t.size := size_modify ..
  have missing := marked.wrap inside
  have same := (markDirty_spec _ id (by omega) missing.up).1
  have wrapped : t.Keeps (t.wrap id) := .of_marks rfl size fun other => by rw [node_wrap t inside]
  refine ⟨wrapped.trans same.keeps, ?_, ?_⟩
  · intro other _
    rw [same.node other, node_wrap t inside]
    simp [Edit.strikes]
  · intro other outside bound
    rw [same.size, size] at bound
    omega

theorem since_perform (attached : t.Attached) (marked : t.Marked) {edit : Edit}
    (targets : t.Targets edit) (performed : t.perform edit = .ok u) : t.Since [edit] u := by
  cases edit with
  | parenthesize id =>
    have result : u = (t.wrap id).markDirty id := Except.ok.inj performed.symm
    rw [result]
    exact since_parenthesize marked targets.1
  | _ =>
    obtain ⟨w, does⟩ := exists_does attached marked targets (by simp)
    have result : u = w := Except.ok.inj (performed.symm.trans does.performed)
    rw [result]
    exact .of_follows does.follows

theorem since_performAll (attached : t.Attached) (marked : t.Marked) {edits : List Edit}
    (admits : ∀ edit ∈ edits, t.Admits edit) : t.Since edits (t.performAll edits).1 :=
  performAll_induction (P := fun v done => t.Since done v)
    (fun attached marked admits _ performed since =>
      since.trans (since_perform attached marked admits.targets performed))
    attached marked admits (.refl t)

namespace Since

variable {edits : List Edit} (since : t.Since edits u)

include since

theorem ancestors {id : Nat} (inside : id < t.size) : u.ancestors id = t.ancestors id :=
  ancestors_congr fun _ low => since.keeps.parent (Nat.lt_of_le_of_lt low inside)

theorem validate_eq_ok_iff {removed : List Nat} {edit : Edit} :
    u.validate removed edit = .ok () ↔
      t.validate (edits.flatMap Edit.strikes ++ removed) edit = .ok () := by
  rw [Tree.validate_eq_ok_iff, Tree.validate_eq_ok_iff]
  by_cases known : edit.target < t.size
  · have still : edit.target < u.size := Nat.lt_of_lt_of_le known since.keeps.size
    have flags : ∀ a ∈ edit.target :: t.ancestors edit.target,
        ((u.node a).removed = false ∧ a ∉ removed ↔
          (t.node a).removed = false ∧ a ∉ edits.flatMap Edit.strikes ++ removed) := by
      intro a above
      have inside : a < t.size := Nat.lt_of_le_of_lt (le_of_mem_ancestors above) known
      rw [since.removed a inside, Bool.or_eq_false_iff, List.contains_eq_mem, decide_eq_false_iff_not,
        List.mem_append, not_or, and_assoc]
    have lambda : ∀ id, edit = .parenthesize id → u.kind id = t.kind id := by
      intro id same
      rw [same] at known
      exact since.keeps.kind known
    rw [since.ancestors known, since.keeps.isInserted known, forall₂_congr flags]
    simp only [known, still, true_and]
    refine and_congr_right fun _ => and_congr_right fun _ => forall₂_congr fun id same => ?_
    rw [lambda id same]
  · constructor
    · rintro ⟨inside, ⟨-, parsed⟩, -⟩
      rw [since.inserted _ (by omega) inside] at parsed
      cases parsed
    · rintro ⟨inside, -⟩
      exact absurd inside known

theorem validateAll_eq_ok_iff {removed : List Nat} {batch : List Edit} :
    u.validateAll removed batch = .ok () ↔
      t.validateAll (edits.flatMap Edit.strikes ++ removed) batch = .ok () := by
  induction batch generalizing removed with
  | nil => exact ⟨fun _ => rfl, fun _ => rfl⟩
  | cons edit rest ih =>
    rw [validateAll_cons_eq_ok_iff, validateAll_cons_eq_ok_iff, since.validate_eq_ok_iff, ih,
      List.append_assoc]

end Since

theorem validateAll_append_eq_ok_iff {removed : List Nat} {first second : List Edit} :
    t.validateAll removed (first ++ second) = .ok () ↔
      t.validateAll removed first = .ok () ∧
        t.validateAll (removed ++ first.flatMap Edit.strikes) second = .ok () := by
  induction first generalizing removed with
  | nil =>
    rw [List.nil_append, List.flatMap_nil, List.append_nil]
    exact ⟨fun valid => ⟨rfl, valid⟩, And.right⟩
  | cons edit rest ih =>
    rw [List.cons_append, validateAll_cons_eq_ok_iff, validateAll_cons_eq_ok_iff, ih, and_assoc,
      List.flatMap_cons, List.append_assoc]

theorem apply_eq_ok_iff (attached : t.Attached) (marked : t.Marked) {edits : List Edit} :
    t.apply edits = (u, .ok ()) ↔
      t.validateAll [] edits = .ok () ∧ t.performAll edits = (u, .ok ()) := by
  rcases apply_cases attached marked edits with
    ⟨reason, invalid, refused⟩ | ⟨w, valid, -⟩
  · simp [invalid, refused]
  · simp [apply, valid]

theorem since_apply (attached : t.Attached) (marked : t.Marked) {edits : List Edit}
    (done : t.apply edits = (u, .ok ())) : u.Attached ∧ u.Marked ∧ t.Since edits u := by
  obtain ⟨valid, performed⟩ := (apply_eq_ok_iff attached marked).mp done
  obtain ⟨w, whole, hung, right, -⟩ :=
    performAll_targets attached marked (targets_of_validateAll valid)
  have same : w = u := (Prod.mk.inj (whole.symm.trans performed)).1
  have since := since_performAll attached marked (admits_of_validateAll valid)
  rw [performed] at since
  rw [same] at hung right
  exact ⟨hung, right, since⟩

/-- After a batch, the next one passes its check if the two pass theirs as one. -/
theorem validateAll_after (attached : t.Attached) (marked : t.Marked) {first second : List Edit}
    (done : t.apply first = (v, .ok ())) :
    v.validateAll [] second = .ok () ↔ t.validateAll [] (first ++ second) = .ok () := by
  obtain ⟨early, -⟩ := (apply_eq_ok_iff attached marked).mp done
  obtain ⟨-, -, since⟩ := since_apply attached marked done
  rw [since.validateAll_eq_ok_iff, validateAll_append_eq_ok_iff, List.append_nil, List.nil_append]
  exact ⟨fun late => ⟨early, late⟩, And.right⟩

end SpringLint.Tree

namespace SpringLint.Source

/-- Two batches in a row do what one batch with the edits of both does, and are accepted if it is. -/
theorem apply_append_iff (text : String) (parse : Parse) (batches : List (List Edit))
    (first second : List Edit) :
    let t := (ofParse text parse).tree.applyAll batches
    ∀ u, t.apply (first ++ second) = (u, .ok ()) ↔
      ∃ v, t.apply first = (v, .ok ()) ∧ v.apply second = (u, .ok ()) := by
  intro t u
  obtain ⟨attached, marked, -⟩ := Tree.applyAll_preserves (attached_ofParse text parse)
    (untouched_ofParse text parse).marked batches
  constructor
  · intro whole
    obtain ⟨valid, performed⟩ := (Tree.apply_eq_ok_iff attached marked).mp whole
    obtain ⟨early, -⟩ := Tree.validateAll_append_eq_ok_iff.mp valid
    obtain ⟨v, carried, -⟩ :=
      Tree.performAll_targets attached marked (Tree.targets_of_validateAll early)
    have done := (Tree.apply_eq_ok_iff attached marked).mpr ⟨early, carried⟩
    obtain ⟨hung, right, -⟩ := Tree.since_apply attached marked done
    have late := (Tree.validateAll_after attached marked done).mpr valid
    rw [Tree.performAll_append carried] at performed
    exact ⟨v, done, (Tree.apply_eq_ok_iff hung right).mpr ⟨late, performed⟩⟩
  · rintro ⟨v, done, next⟩
    obtain ⟨-, carried⟩ := (Tree.apply_eq_ok_iff attached marked).mp done
    obtain ⟨hung, right, -⟩ := Tree.since_apply attached marked done
    obtain ⟨late, performed⟩ := (Tree.apply_eq_ok_iff hung right).mp next
    have valid := (Tree.validateAll_after attached marked done).mp late
    rw [← Tree.performAll_append carried] at performed
    exact (Tree.apply_eq_ok_iff attached marked).mpr ⟨valid, performed⟩

end SpringLint.Source
