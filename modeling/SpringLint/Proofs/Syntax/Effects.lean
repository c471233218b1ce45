import SpringLint.Proofs.Syntax.Splices

/-! What an edit leaves of every node. It adds one node at most, marks what is above the place, and
changes nothing else but the children there and the flags of its target. -/

namespace SpringLint

namespace Edit

def wraps : Edit → List Nat
  | .parenthesize id => [id]
  | _ => []

def spot? : Edit → Option (Nat × Spot)
  | .prepend p _ => some (p, .first)
  | .append p _ => some (p, .last)
  | .insertAfter anchor _ => some (anchor, .behind)
  | .remove _ | .parenthesize _ => none

def addsAt (edit : Edit) (n : Nat) (place : Nat × Spot) : List Nat :=
  if edit.spot? = some place then [n] else []

def stretch (edit : Edit) (n c : Nat) : List Nat :=
  c :: edit.addsAt n (c, .behind)

def place (edit : Edit) (n id : Nat) (children : List Nat) : List Nat :=
  edit.addsAt n (id, .first) ++ children.flatMap (edit.stretch n) ++ edit.addsAt n (id, .last)

theorem addsAt_of_ne {edit : Edit} {n : Nat} {place : Nat × Spot} (away : place.1 ≠ edit.target) :
    edit.addsAt n place = [] := by
  refine if_neg fun here => away ?_
  cases edit <;> cases here <;> rfl

theorem flatMap_stretch_of_not_mem {edit : Edit} {n : Nat} {l : List Nat}
    (away : ∀ place ∈ edit.spot?, place.2 = .behind → place.1 ∉ l) :
    l.flatMap (edit.stretch n) = l := by
  induction l with
  | nil => rfl
  | cons c rest ih =>
    have none : edit.addsAt n (c, .behind) = [] :=
      if_neg fun here => away _ here rfl List.mem_cons_self
    rw [List.flatMap_cons, stretch, none, ih fun place here low among =>
      away place here low (List.mem_cons_of_mem _ among)]
    rfl

theorem place_of_none {edit : Edit} (none : edit.spot? = none) (n id : Nat) (l : List Nat) :
    edit.place n id l = l := by
  have nothing (place : Nat × Spot) : edit.addsAt n place = [] := by simp [addsAt, none]
  rw [place, nothing, nothing, List.append_nil, List.nil_append]
  exact flatMap_stretch_of_not_mem (by simp [none])

end Edit

namespace Tree

variable {t u : Tree} {edit : Edit}

def marks (t : Tree) : Edit → List Nat
  | .append p _ | .prepend p _ => p :: t.ancestors p
  | .remove id | .insertAfter id _ => t.ancestors id
  | .parenthesize id => id :: t.ancestors id

def added? (t : Tree) : Edit → Option Node
  | .append p insertion => some { insertedNode (t.span p).stop insertion with parent := some p }
  | .prepend p insertion => some { insertedNode (t.span p).start insertion with parent := some p }
  | .insertAfter anchor insertion =>
    some { insertedNode (t.span anchor).stop insertion with parent := t.parent anchor }
  | .remove _ | .parenthesize _ => none

/-- An old node after an edit. -/
def touched (t : Tree) (edit : Edit) (id : Nat) : Node :=
  { t.node id with
    removed := (t.node id).removed || edit.strikes.contains id
    parenthesized := (t.node id).parenthesized || edit.wraps.contains id
    dirty := (t.node id).dirty || (t.marks edit).contains id
    children := edit.place t.size id (t.node id).children }

/-- One edit, node by node. -/
structure Leads (t : Tree) (edit : Edit) (u : Tree) : Prop where
  source : u.source = t.source
  size : u.size = t.size + (t.added? edit).toList.length
  old : ∀ id, id < t.size → u.node id = t.touched edit id
  new : ∀ n, t.added? edit = some n → u.node t.size = n

section Marking

theorem dirty_above {spot : Nat} (closed : ∀ child p, (t.node child).parent = some p →
      (t.node child).dirty = true → (t.node p).dirty = true ∨ p = spot) {id : Nat} (low : id ≤ spot)
    (marked : (t.node id).dirty = true) {a : Nat} (above : a ∈ id :: t.ancestors id) :
    (t.node a).dirty = true := by
  induction id using Nat.strongRecOn with
  | ind id ih =>
    rcases List.mem_cons.mp above with rfl | further
    · exact marked
    · cases found : (t.node id).parent with
      | none =>
        rw [ancestors_of_root found] at further
        cases further
      | some p =>
        rw [ancestors_of_parent found] at further
        have lower := parent_lt found
        rcases closed id p found marked with here | rfl
        · exact ih p lower (by omega) here further
        · omega

theorem dirty_markDirty (t : Tree) (id : Nat) (inside : id < t.size)
    (closed : ∀ child p, (t.node child).parent = some p → (t.node child).dirty = true →
      (t.node p).dirty = true ∨ p = id) (other : Nat) :
    ((t.markDirty id).node other).dirty =
      ((t.node other).dirty || (id :: t.ancestors id).contains other) := by
  induction id using Nat.strongRecOn generalizing t with
  | ind id ih =>
    by_cases marked : (t.node id).dirty = true
    · rw [markDirty_of_dirty marked]
      cases above : (id :: t.ancestors id).contains other with
      | false => rw [Bool.or_false]
      | true =>
        have member : other ∈ id :: t.ancestors id := by simpa using above
        rw [dirty_above closed (Nat.le_refl _) marked member, Bool.or_true]
    · have same := sameButMarks_mark t inside
      have parents (child : Nat) : ((t.mark id).node child).parent = (t.node child).parent := by
        rw [same.node child]
      have here : ((t.mark id).node other).dirty = ((t.node other).dirty || other == id) := by
        rw [Bool.eq_iff_iff, dirty_mark_iff t inside, Bool.or_eq_true, beq_iff_eq, or_comm]
      cases above : (t.node id).parent with
      | none =>
        rw [markDirty_of_root marked above, here, ancestors_of_root above, List.contains_cons,
          List.contains_nil, Bool.or_false]
      | some p =>
        have lower : p < id := parent_lt above
        have stillClosed : ∀ child q, ((t.mark id).node child).parent = some q →
            ((t.mark id).node child).dirty = true →
              ((t.mark id).node q).dirty = true ∨ q = p := by
          intro child q parentOf dirt
          rw [parents] at parentOf
          rw [dirty_mark_iff t inside] at dirt ⊢
          rcases dirt with rfl | earlier
          · rw [above] at parentOf
            exact .inr (Option.some.inj parentOf).symm
          · exact .inl (closed child q parentOf earlier).symm
        have later := ih p lower (t.mark id) (by rw [same.size]; omega) stillClosed
        rw [markDirty_of_parent marked above, later, here, ancestors_of_parent above,
          ancestors_congr fun a _ => parents a, List.contains_cons, List.contains_cons,
          List.contains_cons, Bool.or_assoc]

theorem node_markDirty {spot : Nat} (missing : t.MarkedExcept spot) (inside : spot < t.size)
    (id : Nat) : (t.markDirty spot).node id =
      { t.node id with dirty := (t.node id).dirty || (spot :: t.ancestors spot).contains id } := by
  have same := (markDirty_spec t spot inside missing.up).1
  rw [same.node id, dirty_markDirty t spot inside missing.up]

end Marking

section Adding

variable {p offset : Nat} {before after : List Nat} {insertion : Insertion}

theorem Adds.added?_eq (adds : t.Adds edit p before after offset insertion) :
    t.added? edit = some { insertedNode offset insertion with parent := some p } := by
  cases adds with
  | append => rfl
  | prepend => rfl
  | insertAfter anchor q front back insertion above split =>
    have parent : t.parent anchor = some p := above
    rw [added?, parent]

theorem Adds.marks_eq (adds : t.Adds edit p before after offset insertion) :
    t.marks edit = p :: t.ancestors p := by
  cases adds with
  | append => rfl
  | prepend => rfl
  | insertAfter anchor q front back insertion above split => exact ancestors_of_parent above

theorem Adds.place_eq (adds : t.Adds edit p before after offset insertion) (attached : t.Attached)
    (n id : Nat) : edit.place n id (t.node id).children =
      if id = p then before ++ n :: after else (t.node id).children := by
  cases adds with
  | append =>
    have row : (t.node id).children.flatMap ((Edit.append p insertion).stretch n) =
        (t.node id).children := Edit.flatMap_stretch_of_not_mem (by simp [Edit.spot?])
    by_cases host : id = p
    · subst host
      simp [Edit.place, row, Edit.addsAt, Edit.spot?]
    · simp [Edit.place, row, Edit.addsAt, Edit.spot?, host, Ne.symm host]
  | prepend =>
    have row : (t.node id).children.flatMap ((Edit.prepend p insertion).stretch n) =
        (t.node id).children := Edit.flatMap_stretch_of_not_mem (by simp [Edit.spot?])
    by_cases host : id = p
    · subst host
      simp [Edit.place, row, Edit.addsAt, Edit.spot?]
    · simp [Edit.place, row, Edit.addsAt, Edit.spot?, host, Ne.symm host]
  | insertAfter anchor q front back insertion above split =>
    have row {l : List Nat} (absent : anchor ∉ l) :
        l.flatMap ((Edit.insertAfter anchor insertion).stretch n) = l :=
      Edit.flatMap_stretch_of_not_mem (by simpa [Edit.spot?] using absent)
    by_cases host : id = p
    · subst host
      have once := attached.nodup_children id
      rw [split, List.nodup_append, List.nodup_cons] at once
      obtain ⟨-, ⟨behind, -⟩, across⟩ := once
      have ahead : anchor ∉ front := fun member => across anchor member anchor List.mem_cons_self rfl
      rw [if_pos rfl, Edit.place, split, List.flatMap_append, List.flatMap_cons, row ahead, row behind]
      simp [Edit.stretch, Edit.addsAt, Edit.spot?]
    · have absent : anchor ∉ (t.node id).children := by
        intro member
        have parent := attached.parent_of_mem member
        rw [above] at parent
        exact host (Option.some.inj parent).symm
      rw [if_neg host, Edit.place, row absent]
      simp [Edit.addsAt, Edit.spot?]

theorem Adds.flags (adds : t.Adds edit p before after offset insertion) :
    edit.strikes = [] ∧ edit.wraps = [] := by
  cases adds <;> exact ⟨rfl, rfl⟩

theorem Adds.leads (adds : t.Adds edit p before after offset insertion) (attached : t.Attached)
    (marked : t.Marked) (inside : p < t.size) :
    t.Leads edit (t.insertNode p before.length offset insertion) := by
  have split := adds.split
  have size := size_addChild t p before.length (insertedNode offset insertion) inside
  have missing : (t.addChild p before.length (insertedNode offset insertion)).MarkedExcept p :=
    marked.addChild inside split ⟨rfl, rfl⟩
  have node := node_markDirty missing (by omega)
  have same := sameButMarks_insertNode offset marked inside split insertion
  have above : (t.addChild p before.length (insertedNode offset insertion)).ancestors p =
      t.ancestors p := by
    apply ancestors_congr
    intro a low
    rw [node_addChild_old _ inside split (by omega)]
  rw [above] at node
  obtain ⟨strikes, wraps⟩ := adds.flags
  constructor
  case source => exact same.source.trans (source_addChild ..)
  case size =>
    rw [same.size, size, adds.added?_eq]
    rfl
  case old =>
    intro id there
    calc (t.insertNode p before.length offset insertion).node id
        = _ := node id
      _ = t.touched edit id := by
        rw [node_addChild_old _ inside split (Nat.ne_of_lt there), touched, adds.place_eq attached,
          adds.marks_eq, strikes, wraps]
        simp
  case new =>
    intro n found
    rw [adds.added?_eq] at found
    obtain rfl := Option.some.inj found
    have fresh : (p :: t.ancestors p).contains t.size = false := by
      rw [List.contains_eq_mem, decide_eq_false_iff_not]
      intro member
      have := le_of_mem_ancestors member
      omega
    calc (t.insertNode p before.length offset insertion).node t.size
        = _ := node t.size
      _ = _ := by
        rw [node_addChild_size _ inside split, fresh]
        rfl

end Adding

section Flagging

theorem contains_singleton (id other : Nat) : [id].contains other = (other == id) := by
  rw [List.contains_cons, List.contains_nil, Bool.or_false]

theorem isSome_added? (t : Tree) (edit : Edit) : (t.added? edit).isSome = edit.spot?.isSome := by
  cases edit <;> rfl

theorem leads_of_flags {flagged : Tree} {spot : Nat} (placeless : edit.spot? = none)
    (marks : t.marks edit = spot :: t.ancestors spot) (inside : spot < t.size)
    (source : flagged.source = t.source) (size : flagged.size = t.size)
    (node : ∀ id, flagged.node id = { t.node id with
      removed := (t.node id).removed || edit.strikes.contains id
      parenthesized := (t.node id).parenthesized || edit.wraps.contains id })
    (missing : flagged.MarkedExcept spot) : t.Leads edit (flagged.markDirty spot) := by
  have same := (markDirty_spec _ spot (by omega) missing.up).1
  have still : flagged.ancestors spot = t.ancestors spot := by
    apply ancestors_congr
    intro a _
    rw [node]
  have unadded : t.added? edit = none := by
    rw [← Option.not_isSome_iff_eq_none, isSome_added?, placeless]
    exact Bool.false_ne_true
  constructor
  case source => exact same.source.trans source
  case size =>
    rw [same.size, size, unadded]
    rfl
  case old =>
    intro id _
    rw [node_markDirty missing (by omega), still, node, touched, marks, Edit.place_of_none placeless]
  case new =>
    intro n found
    rw [unadded] at found
    cases found

theorem leads_remove (attached : t.Attached) (marked : t.Marked) {id p : Nat} (inside : id < t.size)
    (above : (t.node id).parent = some p) : t.Leads (.remove id) ((t.strike id).markDirty p) := by
  have lower := parent_lt above
  refine leads_of_flags rfl (ancestors_of_parent above) (by omega) rfl (size_modify ..) ?_
    (marked.strike attached inside above)
  intro other
  rw [node_strike t inside]
  simp only [Edit.strikes, Edit.wraps, contains_singleton, List.contains_nil, Bool.or_false]

theorem leads_parenthesize (marked : t.Marked) {id : Nat} (inside : id < t.size) :
    t.Leads (.parenthesize id) ((t.wrap id).markDirty id) := by
  refine leads_of_flags rfl rfl inside rfl (size_modify ..) ?_ (marked.wrap inside)
  intro other
  rw [node_wrap t inside]
  simp only [Edit.strikes, Edit.wraps, contains_singleton, List.contains_nil, Bool.or_false]

end Flagging

/-- An edit that is carried out does to every node what is said above, and nothing else. -/
theorem leads_perform (attached : t.Attached) (marked : t.Marked) (targets : t.Targets edit)
    (performed : t.perform edit = .ok u) : t.Leads edit u := by
  cases host : t.host? edit with
  | some p =>
    obtain ⟨before, after, offset, insertion, adds⟩ := exists_adds attached targets host
    have result : u = t.insertNode p before.length offset insertion :=
      Except.ok.inj (performed.symm.trans (adds.perform_eq attached))
    rw [result]
    exact adds.leads attached marked (adds.inside targets)
  | none =>
    cases edit with
    | remove id =>
      obtain ⟨p, -, above⟩ := attached.parent_inside id targets.1 (targets.2 rfl)
      have result : u = (t.strike id).markDirty p :=
        Except.ok.inj (performed.symm.trans (perform_remove above))
      rw [result]
      exact leads_remove attached marked targets.1 above
    | parenthesize id =>
      have result : u = (t.wrap id).markDirty id := Except.ok.inj performed.symm
      rw [result]
      exact leads_parenthesize marked targets.1
    | append p insertion => cases host
    | prepend p insertion => cases host
    | insertAfter anchor insertion =>
      obtain ⟨p, -, above⟩ := attached.parent_inside anchor targets.1 (targets.2 rfl)
      have parent : t.parent anchor = some p := above
      rw [host?, parent] at host
      cases host

theorem exists_leads (attached : t.Attached) (marked : t.Marked) (targets : t.Targets edit) :
    ∃ u, t.perform edit = .ok u ∧ t.Leads edit u ∧ u.Attached ∧ u.Marked := by
  obtain ⟨u, performed, change⟩ := perform_change attached targets
  obtain ⟨hung, right, -⟩ := change.preserves attached marked
  exact ⟨u, performed, leads_perform attached marked targets performed, hung, right⟩

theorem Leads.grows (leads : t.Leads edit u) : t.size ≤ u.size := by
  rw [leads.size]
  exact Nat.le_add_right ..

end Tree

end SpringLint
