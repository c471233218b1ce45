import SpringLint.Proofs.Syntax.Splices

/-! Batches that only add texts and parentheses: how the children of every node are laid out after
them, and what is printed then. -/

namespace SpringLint.Tree

variable {t u v w : Tree} {edits done : List Edit}

section TextsAt

variable {edit : Edit} {place : Nat × Spot} {content : String}

theorem textsAt_concat (found : edit.text? = some (place, content)) (other : Nat × Spot) :
    t.textsAt (done ++ [edit]) other =
      t.textsAt done other ++ if place = other then [t.splice place content] else [] := by
  by_cases same : place = other
  · simp [textsAt, found, same]
  · simp [textsAt, found, same]

theorem textsAt_concat_of_none (silent : edit.text? = none) :
    t.textsAt (done ++ [edit]) = t.textsAt done := by
  funext other
  simp [textsAt, silent]

end TextsAt

/-- What stands among the children of a node: a node that was read, or an added text. -/
def slot (t : Tree) (c : Nat) : Nat ⊕ Cut :=
  match (t.node c).origin with
  | .inserted (.text content) =>
    .inr { start := (t.span c).start, stop := (t.span c).start, text := content }
  | _ => .inl c

/-- A child, and the texts that edits have put behind it. -/
def stretch (t : Tree) (edits : List Edit) (c : Nat) : List (Nat ⊕ Cut) :=
  .inl c :: (t.textsAt edits (c, .behind)).reverse.map .inr

def layout (t : Tree) (edits : List Edit) (id : Nat) : List (Nat ⊕ Cut) :=
  (t.textsAt edits (id, .first)).reverse.map .inr ++
    (t.node id).children.flatMap (t.stretch edits) ++ (t.textsAt edits (id, .last)).map .inr

section Layout

variable {edit : Edit} {target : Nat} {spot : Spot} {content : String}

theorem flatMap_stretch (found : edit.text? = some ((target, spot), content)) {ids : List Nat}
    (away : spot = .behind → target ∉ ids) :
    ids.flatMap (t.stretch (done ++ [edit])) = ids.flatMap (t.stretch done) := by
  apply List.flatMap_congr
  intro c member
  have other : ¬(target = c ∧ spot = .behind) := fun same => away same.2 (same.1 ▸ member)
  simp [stretch, textsAt_concat found, other]

theorem layout_of_none (silent : edit.text? = none) : t.layout (done ++ [edit]) = t.layout done := by
  have inner : t.stretch (done ++ [edit]) = t.stretch done := by
    funext c
    simp only [stretch, textsAt_concat_of_none silent]
  funext id
  simp only [layout, inner, textsAt_concat_of_none silent]

theorem layout_first (found : edit.text? = some ((target, .first), content)) (id : Nat) :
    t.layout (done ++ [edit]) id =
      if id = target then .inr (t.splice (target, .first) content) :: t.layout done id
      else t.layout done id := by
  have inner : (t.node id).children.flatMap (t.stretch (done ++ [edit])) =
      (t.node id).children.flatMap (t.stretch done) := flatMap_stretch found (by simp)
  by_cases same : id = target
  · subst same
    simp [layout, inner, textsAt_concat found]
  · simp [layout, inner, textsAt_concat found, same, Ne.symm same]

theorem layout_last (found : edit.text? = some ((target, .last), content)) (id : Nat) :
    t.layout (done ++ [edit]) id =
      if id = target then t.layout done id ++ [.inr (t.splice (target, .last) content)]
      else t.layout done id := by
  have inner : (t.node id).children.flatMap (t.stretch (done ++ [edit])) =
      (t.node id).children.flatMap (t.stretch done) := flatMap_stretch found (by simp)
  by_cases same : id = target
  · subst same
    simp [layout, inner, textsAt_concat found]
  · simp [layout, inner, textsAt_concat found, same, Ne.symm same]

theorem layout_behind_of_not_mem (found : edit.text? = some ((target, .behind), content)) {id : Nat}
    (away : target ∉ (t.node id).children) : t.layout (done ++ [edit]) id = t.layout done id := by
  simp [layout, flatMap_stretch found fun _ => away, textsAt_concat found]

theorem layout_behind (attached : t.Attached)
    (found : edit.text? = some ((target, .behind), content)) {id : Nat}
    (member : target ∈ (t.node id).children) {before after : List (Nat ⊕ Cut)}
    (split : t.layout done id = before ++ .inl target :: after) :
    t.layout (done ++ [edit]) id =
      before ++ .inl target :: .inr (t.splice (target, .behind) content) :: after := by
  obtain ⟨front, back, children⟩ := List.append_of_mem member
  have once := attached.nodup_children id
  rw [children] at once
  obtain ⟨-, late, apart⟩ := List.nodup_append.mp once
  have early : target ∉ front := fun among => apart target among target List.mem_cons_self rfl
  have past : target ∉ back := (List.nodup_cons.mp late).1
  -- the node stands only once in the layout, so the split is the one at its place
  have parts : t.layout done id =
      ((t.textsAt done (id, .first)).reverse.map .inr ++ front.flatMap (t.stretch done)) ++
        .inl target :: ((t.textsAt done (target, .behind)).reverse.map .inr ++
          back.flatMap (t.stretch done) ++ (t.textsAt done (id, .last)).map .inr) := by
    simp [layout, children, stretch]
  rw [parts] at split
  obtain ⟨rfl, -, rfl⟩ := (List.append_cons_inj_of_notMem (by simp [stretch, early])
    (by simp [stretch, past])).mp split
  have here : t.stretch (done ++ [edit]) target = .inl target ::
      .inr (t.splice (target, .behind) content) ::
        (t.textsAt done (target, .behind)).reverse.map .inr := by
    simp [stretch, textsAt_concat found]
  simp [layout, children, here, flatMap_stretch found fun _ => early,
    flatMap_stretch found fun _ => past, textsAt_concat found]

end Layout

/-- The tree after edits that only add texts and parentheses. -/
structure Arranged (t : Tree) (edits : List Edit) (u : Tree) : Prop where
  keeps : t.Keeps u
  admits : ∀ edit ∈ edits, t.Admits edit
  stays : ∀ id, id < u.size → (u.node id).removed = false
  wrapped : ∀ id, id < t.size → (u.node id).parenthesized = edits.contains (.parenthesize id)
  children : ∀ id, id < t.size → (u.node id).children.map u.slot = t.layout edits id
  added : ∀ id, t.size ≤ id → id < u.size →
    (∃ content, (u.node id).origin = .inserted (.text content)) ∧ (u.node id).children = []

theorem slot_eq_inl {c : Nat} (parsed : (t.node c).isInserted = false) : t.slot c = .inl c := by
  unfold slot
  cases origin : (t.node c).origin with
  | parsed => rfl
  | inserted insertion => simp [Node.isInserted, origin] at parsed

theorem Keeps.slot (keeps : t.Keeps u) {c : Nat} (inside : c < t.size) : u.slot c = t.slot c := by
  unfold Tree.slot Tree.span
  rw [keeps.node c inside]

theorem Untouched.arranged (untouched : t.Untouched) : t.Arranged [] t where
  keeps := .refl t
  admits := by simp
  stays id _ := (untouched id).1
  wrapped id _ := (untouched id).2.2.1
  children id _ := by
    have slots : t.slot = Sum.inl := funext fun c => slot_eq_inl (untouched.isInserted c)
    have alone : t.stretch [] = fun c => [.inl c] := rfl
    simp [slots, layout, alone, textsAt, List.map_eq_flatMap]
  added id least bound := by omega

namespace Arranged

theorem admits_edit (arranged : t.Arranged done v) {edit : Edit} (admits : v.Admits edit) :
    t.Admits edit := by
  have inside : edit.target < t.size := by
    by_contra outside
    obtain ⟨⟨content, origin⟩, -⟩ := arranged.added _ (by omega) admits.targets.1
    have parsed := admits.parsed
    simp [Node.isInserted, origin] at parsed
  refine ⟨⟨inside, admits.targets.2⟩, ?_, ?_⟩
  · rw [← arranged.keeps.isInserted inside]
    exact admits.parsed
  · intro id same
    have there : id < t.size := by
      rw [same] at inside
      exact inside
    rw [← arranged.keeps.kind there]
    exact admits.lambda id same

theorem admits_concat (arranged : t.Arranged done v) {edit : Edit} (admits : v.Admits edit) :
    ∀ other ∈ done ++ [edit], t.Admits other := by
  simpa [or_imp, forall_and] using ⟨arranged.admits, arranged.admits_edit admits⟩

theorem insert (arranged : t.Arranged done v) (marked : v.Marked) {edit : Edit} {p offset : Nat}
    {before after : List Nat} {content : String} (admits : v.Admits edit)
    (adds : v.Adds edit p before after offset (.text content))
    (laid : ∀ id, id < t.size → t.layout (done ++ [edit]) id =
      if id = p then before.map v.slot ++
        .inr { start := offset, stop := offset, text := content } :: after.map v.slot
      else t.layout done id) :
    t.Arranged (done ++ [edit]) (v.insertNode p before.length offset (.text content)) := by
  have inside := adds.inside admits.targets
  have split := adds.split
  have follows := follows_insertNode offset marked inside split (.text content) adds.placed
  have same := sameButMarks_insertNode offset marked inside split (.text content)
  have size : (v.insertNode p before.length offset (.text content)).size = v.size + 1 := by
    rw [same.size, size_addChild _ _ _ _ inside]
  have fresh := same.node v.size
  rw [node_addChild_size _ inside split] at fresh
  have old (id : Nat) (there : id < v.size) := follows.node id there
  have grown := arranged.keeps.size
  have slots {ids : List Nat} (known : ∀ c ∈ ids, c ∈ (v.node p).children) :
      ids.map (v.insertNode p before.length offset (.text content)).slot = ids.map v.slot :=
    List.map_congr_left fun c member =>
      follows.keeps.slot (lt_of_mem_node_children (known c member)).2
  refine ⟨arranged.keeps.trans follows.keeps, arranged.admits_concat admits, ?_, ?_, ?_, ?_⟩
  · intro id bound
    by_cases last : id = v.size
    · rw [last, fresh]
      rfl
    · rw [old id (by omega)]
      simp [arranged.stays id (by omega)]
  · intro id there
    have other : ∀ id, edit ≠ .parenthesize id := by
      intro id equal
      rw [equal] at adds
      cases adds
    rw [old id (by omega)]
    simp [arranged.wrapped id there, Ne.symm (other id)]
  · intro id there
    rw [laid id there, children_insertNode offset marked inside split _ (by omega)]
    by_cases here : id = p
    · have slot : (v.insertNode p before.length offset (.text content)).slot v.size =
          .inr { start := offset, stop := offset, text := content } := by
        unfold Tree.slot Tree.span
        rw [fresh]
        rfl
      rw [if_pos here, if_pos here, List.map_append, List.map_cons, slot,
        slots (fun c member => by simp [split, member]),
        slots (fun c member => by simp [split, member])]
    · rw [if_neg here, if_neg here, ← arranged.children id there]
      exact List.map_congr_left fun c member => follows.keeps.slot (lt_of_mem_node_children member).2
  · intro id least bound
    by_cases last : id = v.size
    · rw [last, fresh]
      exact ⟨⟨content, rfl⟩, rfl⟩
    · obtain ⟨origin, childless⟩ := arranged.added id least (by omega)
      have away : id ≠ p := by
        have := (arranged.admits_edit admits).targets.1
        have := adds.le_target
        omega
      refine ⟨by rw [old id (by omega)]; exact origin, ?_⟩
      rw [children_insertNode offset marked inside split _ (by omega), if_neg away, childless]

theorem wrap (arranged : t.Arranged done v) (marked : v.Marked) {id : Nat}
    (admits : v.Admits (.parenthesize id)) :
    t.Arranged (done ++ [.parenthesize id]) ((v.wrap id).markDirty id) := by
  have inside : id < v.size := admits.targets.1
  have size : (v.wrap id).size = v.size := size_modify ..
  have same := (markDirty_spec _ id (by omega) (marked.wrap inside).up).1
  have nodes (other : Nat) := same.node other
  simp only [node_wrap v inside] at nodes
  have slots : ((v.wrap id).markDirty id).slot = v.slot := by
    funext c
    unfold Tree.slot Tree.span
    rw [nodes c]
  have keeps : v.Keeps ((v.wrap id).markDirty id) :=
    .of_marks same.source (same.size.trans size) fun other => by rw [nodes other]
  have bound : ((v.wrap id).markDirty id).size = v.size := same.size.trans size
  have grown := arranged.keeps.size
  refine ⟨arranged.keeps.trans keeps, arranged.admits_concat admits, ?_, ?_, ?_, ?_⟩
  · intro other there
    rw [nodes other]
    exact arranged.stays other (by omega)
  · intro other there
    rw [nodes other, arranged.wrapped other there, Bool.eq_iff_iff]
    simp
  · intro other there
    rw [nodes other, slots, layout_of_none rfl]
    exact arranged.children other there
  · intro other least there
    rw [nodes other]
    exact arranged.added other least (by omega)

theorem prepend (arranged : t.Arranged done v) (marked : v.Marked) {p : Nat} {content : String}
    (admits : v.Admits (.prepend p (.text content))) :
    t.Arranged (done ++ [.prepend p (.text content)])
      (v.insertNode p 0 (v.span p).start (.text content)) := by
  have spans : v.span p = t.span p := arranged.keeps.span (arranged.admits_edit admits).targets.1
  apply arranged.insert marked admits (.prepend p (.text content))
  intro id there
  have found : Edit.text? (.prepend p (.text content)) = some ((p, .first), content) := rfl
  rw [layout_first found]
  by_cases here : id = p
  · subst here
    simp [arranged.children id there, splice, offsetOf, spans]
  · simp [here]

theorem append (arranged : t.Arranged done v) (marked : v.Marked) {p : Nat} {content : String}
    (admits : v.Admits (.append p (.text content))) :
    t.Arranged (done ++ [.append p (.text content)])
      (v.insertNode p (v.node p).children.length (v.span p).stop (.text content)) := by
  have spans : v.span p = t.span p := arranged.keeps.span (arranged.admits_edit admits).targets.1
  apply arranged.insert marked admits (.append p (.text content))
  intro id there
  have found : Edit.text? (.append p (.text content)) = some ((p, .last), content) := rfl
  rw [layout_last found]
  by_cases here : id = p
  · subst here
    simp [arranged.children id there, splice, offsetOf, spans]
  · simp [here]

theorem insertAfter (arranged : t.Arranged done v) (hung : t.Attached) (marked : v.Marked)
    {anchor p : Nat} {front back : List Nat} {content : String}
    (admits : v.Admits (.insertAfter anchor (.text content)))
    (above : (v.node anchor).parent = some p)
    (split : (v.node p).children = front ++ anchor :: back) :
    t.Arranged (done ++ [.insertAfter anchor (.text content)])
      (v.insertNode p (front ++ [anchor]).length (v.span anchor).stop (.text content)) := by
  have inside : anchor < t.size := (arranged.admits_edit admits).targets.1
  have spans := arranged.keeps.span inside
  have slot : v.slot anchor = .inl anchor := slot_eq_inl admits.parsed
  have parent := (arranged.keeps.parent inside).symm.trans above
  apply arranged.insert marked admits (.insertAfter anchor p front back (.text content) above split)
  intro id there
  by_cases here : id = p
  · subst here
    have laid := arranged.children id there
    rw [split, List.map_append, List.map_cons, slot] at laid
    rw [layout_behind hung rfl (hung.mem_of_parent inside parent) laid.symm]
    simp [slot, splice, offsetOf, spans]
  · have away : anchor ∉ (t.node id).children := by
      intro member
      have other := hung.parent_of_mem member
      rw [parent] at other
      exact here (Option.some.inj other).symm
    rw [layout_behind_of_not_mem rfl away, if_neg here]

theorem step (arranged : t.Arranged done v) (hung : t.Attached) (attached : v.Attached)
    (marked : v.Marked) {edit : Edit} (admits : v.Admits edit) (adding : edit.isSplice = true)
    (performed : v.perform edit = .ok w) : t.Arranged (done ++ [edit]) w := by
  cases edit with
  | remove id => cases adding
  | parenthesize id =>
    obtain rfl := Except.ok.inj performed
    exact arranged.wrap marked admits
  | prepend p insertion =>
    cases insertion with
    | keyword word => cases adding
    | text content =>
      obtain rfl := Except.ok.inj performed
      exact arranged.prepend marked admits
  | append p insertion =>
    cases insertion with
    | keyword word => cases adding
    | text content =>
      obtain rfl := Except.ok.inj performed
      exact arranged.append marked admits
  | insertAfter anchor insertion =>
    cases insertion with
    | keyword word => cases adding
    | text content =>
      have inside : anchor < v.size := admits.targets.1
      obtain ⟨p, -, above⟩ := attached.parent_inside anchor inside (admits.targets.2 rfl)
      obtain ⟨front, back, split⟩ := List.append_of_mem (attached.mem_of_parent inside above)
      have adds := Adds.insertAfter anchor p front back (.text content) above split
      obtain rfl := Except.ok.inj (performed.symm.trans (adds.perform_eq attached))
      exact arranged.insertAfter hung marked admits above split

end Arranged

/-- Batches that only add leave the tree arranged. -/
theorem arranged_applyAll (attached : t.Attached) (untouched : t.Untouched)
    {batches : List (List Edit)}
    (adding : ∀ edit ∈ (t.accepted batches).flatten, edit.isSplice = true) :
    t.Arranged (t.accepted batches).flatten (t.applyAll batches) := by
  have run := applyAll_induction (t := t)
    (P := fun v done => (∀ edit ∈ done, edit.isSplice = true) → t.Arranged done v)
    (by
      intro v w done edit hung marked admits _ performed arranged all
      have earlier := arranged fun other member => all other (by simp [member])
      exact earlier.step attached hung marked admits (all edit (by simp)) performed)
    attached untouched.marked [] (fun _ => untouched.arranged) batches
  exact run adding

section Print

variable (arranged : t.Arranged edits u)
include arranged

theorem Arranged.origin (untouched : t.Untouched) {c : Nat} (inside : c < u.size) :
    (c < t.size ∧ (u.node c).origin = .parsed) ∨
      ∃ content, (u.node c).origin = .inserted (.text content) := by
  by_cases old : c < t.size
  · refine .inl ⟨old, ?_⟩
    rw [arranged.keeps.node c old]
    exact (untouched c).2.2.2
  · exact .inr (arranged.added c (by omega) inside).1

theorem Arranged.verbatim (untouched : t.Untouched) (id : Nat) : u.Verbatim id := by
  intro c member
  have inside := (lt_of_mem_node_children member).2
  refine ⟨arranged.stays c inside, fun word keyword => ?_⟩
  rcases arranged.origin untouched inside with ⟨-, origin⟩ | ⟨content, origin⟩
  · simp [origin] at keyword
  · simp [origin] at keyword

theorem Arranged.isWrapped (attached : t.Attached) {id c : Nat} (member : c ∈ (t.node id).children) :
    Tree.isWrapped (u.node id) (u.node c) = t.wraps edits c := by
  obtain ⟨before, inside⟩ := lt_of_mem_node_children member
  have there : id < t.size := by omega
  have lambda : .parenthesize id ∈ edits → (t.node id).kind = .lambdaExpression :=
    fun among => (arranged.admits _ among).lambda id rfl
  have wrapped := arranged.wrapped id there
  have parent : t.parent c = some id := attached.parent_of_mem member
  unfold Tree.isWrapped wraps Tree.kind
  rw [wrapped, arranged.keeps.node id there, arranged.keeps.node c inside, parent, Bool.eq_iff_iff]
  simp only [List.contains_eq_mem, Bool.and_eq_true, decide_eq_true_eq, Option.any_some]
  tauto

theorem Arranged.additions (attached : t.Attached) (untouched : t.Untouched) {id : Nat}
    (inside : id < t.size) :
    u.additions id = ((t.textsAt edits (id, .first)).reverse ++
      (t.node id).children.flatMap (t.splices edits) ++ t.textsAt edits (id, .last)).flatMap
        Cut.settled := by
  induction id using down_induction (t := t) with
  | step id ih =>
    let shown : Nat ⊕ Cut → List Cut :=
      Sum.elim (fun c => wrapCuts (u.node id) (u.node c) (u.additions c)) Cut.settled
    have slots : u.additions id = ((u.node id).children.map u.slot).flatMap shown := by
      rw [additions_eq, List.flatMap_map]
      apply List.flatMap_congr
      intro c member
      have bound := (lt_of_mem_node_children member).2
      have stays := arranged.stays c bound
      rcases arranged.origin untouched bound with ⟨-, origin⟩ | ⟨content, origin⟩
      · simp [partOf, slot, origin, stays, Part.cuts, shown]
      · simp [partOf, slot, origin, Part.cuts, shown, Tree.span]
    have stretches : (t.node id).children.flatMap (fun c => (t.stretch edits c).flatMap shown) =
        (t.node id).children.flatMap fun c => (t.splices edits c).flatMap Cut.settled := by
      apply List.flatMap_congr
      intro c member
      have bound := (lt_of_mem_node_children member).2
      have spans : (u.node c).span = t.span c := arranged.keeps.span bound
      have wrapped := arranged.isWrapped attached member
      have inner := ih c member bound
      rw [stretch, List.flatMap_cons, splices_eq, List.flatMap_append, List.flatMap_map]
      congr 1
      simp only [shown, Sum.elim_inl, wrapCuts, wrapped, inner, enclosed, spans]
      split
      · simp [splice, offsetOf, Cut.settled]
      · rfl
    rw [slots, arranged.children id inside, layout, List.flatMap_append, List.flatMap_append,
      List.flatMap_assoc, stretches, List.flatMap_map, List.flatMap_map]
    simp only [shown, Sum.elim_inr, List.flatMap_append, List.flatMap_assoc]

theorem Arranged.splices_root (attached : t.Attached) (untouched : t.Untouched) :
    (t.splices edits root).flatMap Cut.settled = u.additions root := by
  have unwrapped : t.wraps edits root = false := by
    simp [wraps, Tree.parent, attached.root_parent]
  have nothing : t.textsAt edits (root, .behind) = [] := by
    rw [textsAt, List.map_eq_nil_iff, List.filter_eq_nil_iff]
    rintro ⟨place, content⟩ member here
    obtain ⟨edit, among, found⟩ := List.mem_filterMap.mp member
    obtain rfl : place = (root, .behind) := by simpa using here
    have parental := (arranged.admits edit among).targets.2
    rw [Edit.eq_of_text?_behind found] at parental
    exact parental rfl rfl
  have inside : root < t.size := attached.nonempty
  rw [arranged.additions attached untouched inside, splices_eq, nothing]
  simp [enclosed, unwrapped]

theorem Arranged.print_eq (attached : t.Attached) (untouched : t.Untouched) (spaced : t.Spaced)
    (characters : t.OnCharacters) (hung : u.Attached) (marked : u.Marked) (rowed : u.Spaced) :
    u.print = some (Glyph.text
      (Text.spliced t.source 0 t.source.utf8ByteSize (t.splices edits root))) := by
  have ends := arranged.keeps.characters characters
  have parsed : (u.node root).isInserted = false :=
    (arranged.keeps.isInserted attached.nonempty).trans (untouched.isInserted root)
  have verbatim : ∀ x, root ∈ x :: u.ancestors x → u.Verbatim x :=
    fun x _ => arranged.verbatim untouched x
  obtain ⟨row, rebuilt⟩ := rebuild_verbatim rowed ends hung verbatim
  have rendered := (render_eq_rebuild hung marked rowed ends parsed).trans rebuilt
  have whole : InRow 0 t.source.utf8ByteSize ((t.splices edits root).map Cut.toSpan) :=
    (inRow_splices spaced edits root).widen (Nat.zero_le _) (characters root).2.le
  rw [print_of_render ends row rendered, ← arranged.splices_root attached untouched,
    arranged.keeps.source, Text.spliced_flatMap_settled whole]

end Print

end SpringLint.Tree

namespace SpringLint.Source

variable (text : String) (parse : Parse)

/-- A parsed tree, after any batches that only add texts and parentheses, prints as its source with
these spliced in, in the order of the tree: every added text once, at the start or the end of its node
or right behind it, and a pair around the lone parameter of every lambda that gets parentheses. -/
theorem print_splices (nested : parse.tree.Nested) (leaves : parse.tree.LeafComments)
    (characters : parse.tree.OnCharacters text) (batches : List (List Edit))
    (adding : ∀ edit ∈ ((ofParse text parse).tree.accepted batches).flatten, edit.isSplice = true) :
    let fresh := (ofParse text parse).tree
    let edits := (fresh.accepted batches).flatten
    let splices := fresh.splices edits Tree.root
    (fresh.applyAll batches).print =
        some (Glyph.text (Text.spliced text 0 text.utf8ByteSize splices)) ∧
      InRow 0 text.utf8ByteSize (splices.map Cut.toSpan) ∧
        splices.Perm ((edits.filterMap Edit.text?).map (fun added => fresh.splice added.1 added.2) ++
          ((List.range fresh.size).filter (fresh.wraps edits)).flatMap fresh.parens) := by
  intro fresh edits splices
  have attached := attached_ofParse text parse
  have untouched := untouched_ofParse text parse
  have spaced := spaced_ofParse text parse nested leaves
  have ends := onCharacters_ofParse text parse nested leaves characters
  have source := source_ofParse text parse
  have arranged := Tree.arranged_applyAll attached untouched adding
  obtain ⟨hung, marked, rowed, -⟩ := Tree.applyAll_preserves attached untouched.marked batches
  have printed := arranged.print_eq attached untouched spaced ends hung marked (rowed spaced)
  have row := (Tree.inRow_splices spaced edits Tree.root).widen (Nat.zero_le _) (ends Tree.root).2.le
  rw [source] at printed row
  refine ⟨printed, row, Tree.splices_perm attached untouched ?_⟩
  intro edit member
  exact (arranged.admits edit member).targets.1

/-- A lambda expression gets parentheses and texts in and around its parameter. -/
theorem print_splices_lambda :
    let text := "x -> y;"
    let tree : ParseTree := .node "program" true ⟨0, 7⟩ none
      [.node "expression_statement" true ⟨0, 7⟩ none
        [.node "lambda_expression" true ⟨0, 6⟩ none
            [.node "identifier" true ⟨0, 1⟩ (some "parameters") [], .node "->" false ⟨2, 4⟩ none [],
              .node "identifier" true ⟨5, 6⟩ (some "body") []],
          .node ";" false ⟨6, 7⟩ none []]]
    let batches : List (List Edit) :=
      [[.parenthesize 2, .prepend 3 (.text "/*a*/")],
        [.append 3 (.text "/*b*/"), .insertAfter 3 (.text "/*c*/"), .append 0 (.text "\n")]]
    let fresh := (ofParse text ⟨tree, false⟩).tree
    let edits := (fresh.accepted batches).flatten
    let splices := fresh.splices edits Tree.root
    (tree.Nested ∧ tree.LeafComments ∧ tree.OnCharacters text ∧
        ∀ edit ∈ edits, edit.isSplice = true) ∧
      (fresh.applyAll batches).print = some "(/*a*/x/*b*/)/*c*/ -> y;\n" ∧
      ((fresh.applyAll batches).print =
          some (Glyph.text (Text.spliced text 0 text.utf8ByteSize splices)) ∧
        InRow 0 text.utf8ByteSize (splices.map Cut.toSpan) ∧
          splices.Perm
            ((edits.filterMap Edit.text?).map (fun added => fresh.splice added.1 added.2) ++
              ((List.range fresh.size).filter (fresh.wraps edits)).flatMap fresh.parens)) := by
  intro text tree batches fresh edits splices
  have nested : tree.Nested := by decide
  have leaves : tree.LeafComments := by decide
  have characters : tree.OnCharacters text := by decide +kernel
  have adding : ∀ edit ∈ edits, edit.isSplice = true := by decide +kernel
  have printed : (fresh.applyAll batches).print = some "(/*a*/x/*b*/)/*c*/ -> y;\n" := by
    decide +kernel
  exact ⟨⟨nested, leaves, characters, adding⟩, printed,
    print_splices text ⟨tree, false⟩ nested leaves characters batches adding⟩

end SpringLint.Source
