import Mathlib.Logic.Equiv.Basic
import SpringLint.Proofs.Syntax.Concatenation
import SpringLint.Proofs.Syntax.Effects

/-! The order of edits. Two neighbouring edits that do not add at one place can change places: the
nodes that they add are numbered the other way round then, and nothing else is different. Neither later
edits nor the printed text depend on these numbers. -/

namespace SpringLint

namespace Edit

variable {a b : Edit} {x y : Nat}

/-- Whether two edits add nodes at the same place. -/
def Contends (a b : Edit) : Prop :=
  a.spot?.isSome ∧ a.spot? = b.spot?

instance (a b : Edit) : Decidable (a.Contends b) :=
  inferInstanceAs (Decidable (_ ∧ _))

theorem addsAt_comm (free : ¬a.Contends b) (place : Nat × Spot) :
    a.addsAt x place ++ b.addsAt y place = b.addsAt y place ++ a.addsAt x place := by
  unfold addsAt
  by_cases first : a.spot? = some place
  · have second : b.spot? ≠ some place := fun same => free ⟨by rw [first]; rfl, first.trans same.symm⟩
    rw [if_neg second, List.append_nil, List.nil_append]
  · rw [if_neg first, List.append_nil, List.nil_append]

theorem flatMap_stretch_addsAt (new : x ≠ b.target) (place : Nat × Spot) :
    (a.addsAt x place).flatMap (b.stretch y) = a.addsAt x place := by
  unfold addsAt
  split
  · rw [List.flatMap_singleton, stretch, addsAt_of_ne new]
  · rfl

theorem flatMap_stretch_stretch (new : x ≠ b.target) (c : Nat) :
    (a.stretch x c).flatMap (b.stretch y) =
      c :: (b.addsAt y (c, .behind) ++ a.addsAt x (c, .behind)) := by
  rw [stretch, List.flatMap_cons, flatMap_stretch_addsAt new, stretch, List.cons_append]

theorem place_congr {edit : Edit} {m n : Nat} (same : edit.spot?.isSome → m = n) (id : Nat)
    (l : List Nat) : edit.place m id l = edit.place n id l := by
  cases found : edit.spot? with
  | none => rw [place_of_none found, place_of_none found]
  | some place => rw [same (by rw [found]; rfl)]

theorem place_comm (free : ¬a.Contends b) (first : x ≠ b.target) (second : y ≠ a.target) (id : Nat)
    (l : List Nat) : b.place y id (a.place x id l) = a.place x id (b.place y id l) := by
  have rows : l.flatMap (fun c => (a.stretch x c).flatMap (b.stretch y)) =
      l.flatMap fun c => (b.stretch y c).flatMap (a.stretch x) := by
    apply List.flatMap_congr
    intro c _
    rw [flatMap_stretch_stretch first, flatMap_stretch_stretch second, addsAt_comm free]
  calc b.place y id (a.place x id l)
      = b.addsAt y (id, .first) ++ (a.addsAt x (id, .first) ++
          l.flatMap (fun c => (a.stretch x c).flatMap (b.stretch y)) ++ a.addsAt x (id, .last)) ++
          b.addsAt y (id, .last) := by
        rw [place, place, List.flatMap_append, List.flatMap_append, flatMap_stretch_addsAt first,
          flatMap_stretch_addsAt first, List.flatMap_assoc]
    _ = a.addsAt x (id, .first) ++ b.addsAt y (id, .first) ++
          l.flatMap (fun c => (b.stretch y c).flatMap (a.stretch x)) ++
          (b.addsAt y (id, .last) ++ a.addsAt x (id, .last)) := by
        rw [rows, addsAt_comm free, ← addsAt_comm free (id, .last)]
        simp only [List.append_assoc]
    _ = a.place x id (b.place y id l) := by
        rw [place, place, List.flatMap_append, List.flatMap_append, flatMap_stretch_addsAt second,
          flatMap_stretch_addsAt second, List.flatMap_assoc]
        simp only [List.append_assoc]

section Renaming

variable (σ : Equiv.Perm Nat) {edit : Edit} (fixed : σ edit.target = edit.target)

include fixed

theorem map_strikes : edit.strikes.map σ = edit.strikes := by
  cases edit with
  | remove id => exact congrArg (fun id => [id]) fixed
  | _ => rfl

theorem map_wraps : edit.wraps.map σ = edit.wraps := by
  cases edit with
  | parenthesize id => exact congrArg (fun id => [id]) fixed
  | _ => rfl

theorem map_addsAt (n id : Nat) (spot : Spot) :
    (edit.addsAt n (id, spot)).map σ = edit.addsAt (σ n) (σ id, spot) := by
  by_cases aim : id = edit.target
  · rw [aim, fixed]
    unfold addsAt
    split <;> rfl
  · have other : σ id ≠ edit.target := by
      rw [← fixed]
      exact fun same => aim (σ.injective same)
    rw [addsAt_of_ne aim, addsAt_of_ne other, List.map_nil]

theorem map_stretch (n c : Nat) : (edit.stretch n c).map σ = edit.stretch (σ n) (σ c) := by
  rw [stretch, stretch, List.map_cons, map_addsAt σ fixed]

theorem map_place (n id : Nat) (l : List Nat) :
    (edit.place n id l).map σ = edit.place (σ n) (σ id) (l.map σ) := by
  simp only [place, List.map_append, List.map_flatMap, List.flatMap_map, map_addsAt σ fixed,
    map_stretch σ fixed]

end Renaming

end Edit

theorem contains_map_perm (σ : Equiv.Perm Nat) (l : List Nat) (id : Nat) :
    (l.map σ).contains (σ id) = l.contains id := by
  rw [Bool.eq_iff_iff, List.contains_iff_mem, List.contains_iff_mem, List.mem_map_of_injective σ.injective]

def Node.rename (f : Nat → Nat) (n : Node) : Node :=
  { n with parent := n.parent.map f, children := n.children.map f }

theorem Node.rename_id : Node.rename id = id := by
  funext n
  rw [Node.rename, Option.map_id, List.map_id]
  rfl

namespace Tree

variable {t u v w : Tree} {σ : Equiv.Perm Nat} {edit : Edit}

section Numbers

variable {f : Nat → Nat} (fixed : f edit.target = edit.target)

include fixed

theorem marks_eq_map (above : u.ancestors edit.target = (t.ancestors edit.target).map f) :
    u.marks edit = (t.marks edit).map f := by
  cases edit with
  | remove id => exact above
  | insertAfter anchor insertion => exact above
  | append p insertion => exact congrArg₂ List.cons fixed.symm above
  | prepend p insertion => exact congrArg₂ List.cons fixed.symm above
  | parenthesize id => exact congrArg₂ List.cons fixed.symm above

theorem added?_eq_map (span : u.span edit.target = t.span edit.target)
    (parent : u.parent edit.target = (t.parent edit.target).map f) :
    u.added? edit = (t.added? edit).map (Node.rename f) := by
  cases edit with
  | remove id => rfl
  | parenthesize id => rfl
  | append p insertion =>
    change u.span p = t.span p at span
    change f p = p at fixed
    rw [added?, added?, span, Option.map_some, Node.rename, Option.map_some, fixed]
    rfl
  | prepend p insertion =>
    change u.span p = t.span p at span
    change f p = p at fixed
    rw [added?, added?, span, Option.map_some, Node.rename, Option.map_some, fixed]
    rfl
  | insertAfter anchor insertion =>
    change u.span anchor = t.span anchor at span
    change u.parent anchor = (t.parent anchor).map f at parent
    rw [added?, added?, span, parent]
    rfl

end Numbers

/-- A tree with other numbers for its nodes. -/
structure Renamed (t : Tree) (σ : Equiv.Perm Nat) (u : Tree) : Prop where
  source : u.source = t.source
  size : u.size = t.size
  outside : ∀ id, t.size ≤ id → σ id = id
  node : ∀ id, id < t.size → u.node (σ id) = (t.node id).rename σ

namespace Renamed

variable (renamed : t.Renamed σ u)

include renamed

theorem lt_size {id : Nat} (inside : id < t.size) : σ id < t.size := by
  apply Nat.lt_of_not_le
  intro beyond
  have same := σ.injective (renamed.outside _ beyond)
  omega

theorem node_eq (id : Nat) : u.node (σ id) = (t.node id).rename σ := by
  by_cases inside : id < t.size
  · exact renamed.node id inside
  · have size := renamed.size
    rw [renamed.outside id (by omega), node_of_size_le (by omega), node_of_size_le (by omega)]
    rfl

theorem span_eq (id : Nat) : u.span (σ id) = t.span id := by
  rw [span, renamed.node_eq]
  rfl

theorem parent_eq (id : Nat) : u.parent (σ id) = (t.parent id).map σ := by
  rw [parent, renamed.node_eq]
  rfl

theorem ancestors_eq (id : Nat) : u.ancestors (σ id) = (t.ancestors id).map σ := by
  induction id using Nat.strongRecOn with
  | ind id ih =>
    have parent : (u.node (σ id)).parent = (t.node id).parent.map σ := renamed.parent_eq id
    cases above : (t.node id).parent with
    | none =>
      rw [above] at parent
      rw [ancestors_of_root above, ancestors_of_root parent, List.map_nil]
    | some p =>
      rw [above] at parent
      rw [ancestors_of_parent above, ancestors_of_parent parent, ih p (parent_lt above), List.map_cons]

theorem pieceOf_eq (id c : Nat) (same : u.render (σ c) = t.render c) :
    (pieceOf (u.node (σ id)) (u.node (σ c)) fun _ => u.render (σ c)) =
      pieceOf (t.node id) (t.node c) fun _ => t.render c := by
  rw [renamed.node_eq, renamed.node_eq, same]
  rfl

theorem render_eq (id : Nat) : u.render (σ id) = t.render id := by
  induction id using down_induction (t := t) with
  | step id ih =>
    have node := renamed.node_eq id
    have span := renamed.span_eq id
    cases dirt : (t.node id).dirty with
    | true =>
      have marked : (u.node (σ id)).dirty = true := by rw [node]; exact dirt
      have children : (u.node (σ id)).children = (t.node id).children.map σ := by rw [node]; rfl
      rw [render_of_dirty dirt, render_of_dirty marked, children, List.mapM_map, span, renamed.source]
      refine congrArg (Option.bind · _) (mapM_congr_left fun c member => ?_)
      exact renamed.pieceOf_eq id c (ih c member)
    | false =>
      rw [render, render, node, renamed.source]
      simp only [Node.rename, dirt, Bool.false_eq_true, if_false]
      rfl

theorem print_eq (fixed : σ root = root) : u.print = t.print := by
  have body := renamed.render_eq root
  have span := renamed.span_eq root
  rw [fixed] at body span
  rw [print, print, span, body, renamed.source]

section Step

variable (fixed : σ edit.target = edit.target)

include fixed

theorem marks_eq : u.marks edit = (t.marks edit).map σ := by
  have above := renamed.ancestors_eq edit.target
  rw [fixed] at above
  exact marks_eq_map fixed above

theorem added?_eq : u.added? edit = (t.added? edit).map (Node.rename σ) := by
  have span := renamed.span_eq edit.target
  have parent := renamed.parent_eq edit.target
  rw [fixed] at span parent
  exact added?_eq_map fixed span parent

theorem touched_eq (id : Nat) : u.touched edit (σ id) = (t.touched edit id).rename σ := by
  have size : u.size = σ t.size := by rw [renamed.size, renamed.outside _ (Nat.le_refl _)]
  have strikes : edit.strikes.contains (σ id) = edit.strikes.contains id := by
    rw [← contains_map_perm σ edit.strikes id, Edit.map_strikes σ fixed]
  have wraps : edit.wraps.contains (σ id) = edit.wraps.contains id := by
    rw [← contains_map_perm σ edit.wraps id, Edit.map_wraps σ fixed]
  rw [touched, renamed.node_eq, renamed.marks_eq fixed, contains_map_perm, strikes, wraps, size]
  simp only [Node.rename, ← Edit.map_place σ fixed]
  rfl

theorem leads {v w : Tree} (first : t.Leads edit v) (second : u.Leads edit w) : v.Renamed σ w := by
  have added := renamed.added?_eq fixed
  have grown : t.size ≤ v.size := by rw [first.size]; exact Nat.le_add_right ..
  constructor
  case source => rw [second.source, first.source, renamed.source]
  case size => rw [second.size, first.size, added, renamed.size, Option.toList_map, List.length_map]
  case outside => exact fun id beyond => renamed.outside id (Nat.le_trans grown beyond)
  case node =>
    intro id inside
    by_cases old : id < t.size
    · have there : σ id < u.size := by rw [renamed.size]; exact renamed.lt_size old
      rw [first.old id old, second.old (σ id) there, renamed.touched_eq fixed]
    · rw [first.size] at inside
      cases new : t.added? edit with
      | none =>
        rw [new] at inside
        exact absurd inside old
      | some n =>
        rw [new] at inside added
        have last : id = t.size := by
          simp only [Option.toList_some, List.length_singleton] at inside
          omega
        rw [last, renamed.outside _ (Nat.le_refl _), first.new n new, ← renamed.size]
        exact second.new _ added

end Step

end Renamed

theorem Renamed.performAll (renamed : t.Renamed σ u) (attached : t.Attached) (marked : t.Marked)
    (hung : u.Attached) (right : u.Marked) {edits : List Edit}
    (targets : ∀ edit ∈ edits, t.Targets edit) (fixed : ∀ edit ∈ edits, σ edit.target = edit.target) :
    (t.performAll edits).1.Renamed σ (u.performAll edits).1 := by
  induction edits generalizing t u with
  | nil => exact renamed
  | cons edit rest ih =>
    obtain ⟨aim, aims⟩ := List.forall_mem_cons.mp targets
    obtain ⟨still, stills⟩ := List.forall_mem_cons.mp fixed
    have same : u.Targets edit := aim.mono (Nat.le_of_eq renamed.size.symm)
    obtain ⟨v, performed, first, whole, sound⟩ := exists_leads attached marked aim
    obtain ⟨w, carried, second, intact, proper⟩ := exists_leads hung right same
    rw [Tree.performAll, Tree.performAll, performed, carried]
    exact ih (renamed.leads still first second) whole sound intact proper
      (fun later member => (aims later member).mono first.grows) stills

namespace Leads

variable {a b : Edit}

theorem span_eq (leads : t.Leads a v) {id : Nat} (inside : id < t.size) : v.span id = t.span id := by
  rw [span, leads.old id inside]
  rfl

theorem parent_eq (leads : t.Leads a v) {id : Nat} (inside : id < t.size) :
    v.parent id = t.parent id := by
  rw [parent, leads.old id inside]
  rfl

theorem marks_eq (leads : t.Leads a v) (inside : b.target < t.size) : v.marks b = t.marks b := by
  have above : v.ancestors b.target = t.ancestors b.target :=
    ancestors_congr fun x low => leads.parent_eq (Nat.lt_of_le_of_lt low inside)
  calc
    _ = (t.marks b).map id := marks_eq_map rfl (by rw [List.map_id, above])
    _ = _ := List.map_id _

theorem added?_eq (leads : t.Leads a v) (inside : b.target < t.size) : v.added? b = t.added? b := by
  have parent : v.parent b.target = (t.parent b.target).map id := by
    rw [Option.map_id, leads.parent_eq inside]
    rfl
  calc
    _ = (t.added? b).map (Node.rename id) := added?_eq_map rfl (leads.span_eq inside) parent
    _ = _ := by
      rw [Node.rename_id, Option.map_id]
      rfl

theorem le_of_mem_marks {id : Nat} (member : id ∈ t.marks edit) : id ≤ edit.target := by
  cases edit with
  | remove target => exact Nat.le_of_lt (lt_of_mem_ancestors member)
  | insertAfter anchor insertion => exact Nat.le_of_lt (lt_of_mem_ancestors member)
  | append p insertion => exact le_of_mem_ancestors member
  | prepend p insertion => exact le_of_mem_ancestors member
  | parenthesize target => exact le_of_mem_ancestors member

theorem touched_of_fresh {id : Nat} (beyond : edit.target < id) (leaf : (t.node id).children = []) :
    t.touched edit id = t.node id := by
  have away : id ≠ edit.target := Nat.ne_of_gt beyond
  have strikes : edit.strikes.contains id = false := by
    cases edit <;> simp_all [Edit.strikes, Edit.target]
  have wraps : edit.wraps.contains id = false := by
    cases edit <;> simp_all [Edit.wraps, Edit.target]
  have marks : (t.marks edit).contains id = false := by
    rw [List.contains_eq_mem, decide_eq_false_iff_not]
    intro member
    have := le_of_mem_marks member
    omega
  have place : edit.place t.size id [] = [] := by
    rw [Edit.place, Edit.addsAt_of_ne away, Edit.addsAt_of_ne away]
    rfl
  rw [touched, strikes, wraps, marks, leaf, place, ← leaf]
  simp only [Bool.or_false]

theorem leaf_of_added {n : Node} (found : t.added? edit = some n) : n.children = [] := by
  cases edit <;> cases found <;> rfl

theorem map_parent (below : ∀ id < t.size, σ id = id) {id : Nat} (inside : id < t.size) :
    (t.parent id).map σ = t.parent id := by
  cases above : t.parent id with
  | none => rfl
  | some p => exact congrArg some (below p (Nat.lt_trans (parent_lt above) inside))

theorem rename_added (below : ∀ id < t.size, σ id = id) (inside : edit.target < t.size) {n : Node}
    (found : t.added? edit = some n) : n.rename σ = n := by
  have here := below _ inside
  have parent := map_parent below inside
  cases edit with
  | remove id => cases found
  | parenthesize id => cases found
  | append p insertion =>
    cases found
    exact congrArg (fun q => { insertedNode _ insertion with parent := some q }) here
  | prepend p insertion =>
    cases found
    exact congrArg (fun q => { insertedNode _ insertion with parent := some q }) here
  | insertAfter anchor insertion =>
    cases found
    exact congrArg (fun q => { insertedNode _ insertion with parent := q }) parent

theorem size_of_still (leads : t.Leads a v) (still : ¬a.spot?.isSome) : v.size = t.size := by
  rw [← isSome_added? t, Option.not_isSome_iff_eq_none] at still
  rw [leads.size, still]
  rfl

theorem exists_new (leads : t.Leads a v) (adds : a.spot?.isSome) :
    ∃ n, t.added? a = some n ∧ v.node t.size = n ∧ v.size = t.size + 1 := by
  rw [← isSome_added? t] at adds
  obtain ⟨n, found⟩ := Option.isSome_iff_exists.mp adds
  refine ⟨n, found, leads.new n found, ?_⟩
  rw [leads.size, found]
  rfl

section Commute

variable {x y : Tree} (first : t.Leads a v) (second : v.Leads b w) (other : t.Leads b x)
  (last : x.Leads a y) (insideA : a.target < t.size) (insideB : b.target < t.size)
  (below : ∀ id < t.size, σ id = id)

include first second other last insideA insideB below

omit second last in
theorem touched_comm (free : ¬a.Contends b) (ofA : a.spot?.isSome → σ t.size = x.size)
    (ofB : b.spot?.isSome → σ v.size = t.size) {id : Nat} (inside : id < t.size) :
    x.touched a id = (v.touched b id).rename σ := by
  have apart {n m : Nat} (beyond : t.size ≤ n) (old : m < t.size) : σ n ≠ m := by
    rw [← below m old]
    intro same
    have := σ.injective same
    omega
  have grown := first.grows
  have row : (t.node id).children.map σ = (t.node id).children := by
    calc (t.node id).children.map σ
        = (t.node id).children.map fun c => c :=
          List.map_congr_left fun c member => below c (lt_of_mem_node_children member).2
      _ = (t.node id).children := List.map_id' _
  have parent : (t.node id).parent.map σ = (t.node id).parent := map_parent below inside
  have children : a.place x.size id (b.place t.size id (t.node id).children) =
      (b.place v.size id (a.place t.size id (t.node id).children)).map σ := by
    calc a.place x.size id (b.place t.size id (t.node id).children)
        = a.place (σ t.size) id (b.place (σ v.size) id (t.node id).children) := by
          rw [Edit.place_congr fun adds => (ofB adds).symm, Edit.place_congr fun adds => (ofA adds).symm]
      _ = b.place (σ v.size) id (a.place (σ t.size) id (t.node id).children) :=
          (Edit.place_comm free (apart (Nat.le_refl _) insideB) (apart grown insideA) id _).symm
      _ = (b.place v.size id (a.place t.size id (t.node id).children)).map σ := by
          rw [Edit.map_place σ (below _ insideB), Edit.map_place σ (below _ insideA), row,
            below id inside]
  have flags (flag p q : Bool) : (flag || p || q) = (flag || q || p) := Bool.or_right_comm flag p q
  rw [touched, touched, other.old id inside, first.old id inside, other.marks_eq insideA,
    first.marks_eq insideB, touched, touched]
  simp only [Node.rename]
  rw [children, parent, flags (t.node id).removed, flags (t.node id).parenthesized,
    flags (t.node id).dirty]

/-- Two edits that do not add at one place lead to the same tree in either order, but for the
numbers of the nodes that they add. -/
theorem renamed (free : ¬a.Contends b) (above : ∀ id, w.size ≤ id → σ id = id)
    (ofA : a.spot?.isSome → σ t.size = x.size) (ofB : b.spot?.isSome → σ v.size = t.size) :
    w.Renamed σ y := by
  have addsA : x.added? a = t.added? a := other.added?_eq insideA
  have addsB : v.added? b = t.added? b := first.added?_eq insideB
  have old (id : Nat) (inside : id < t.size) : y.node (σ id) = (w.node id).rename σ := by
    rw [below id inside, last.old id (Nat.lt_of_lt_of_le inside other.grows),
      second.old id (Nat.lt_of_lt_of_le inside first.grows)]
    exact touched_comm first other insideA insideB below free ofA ofB inside
  constructor
  case source => rw [last.source, other.source, second.source, first.source]
  case size =>
    rw [last.size, other.size, second.size, first.size, addsA, addsB]
    omega
  case outside => exact above
  case node =>
    intro id inside
    by_cases early : id < t.size
    · exact old id early
    · by_cases middle : id < v.size
      · -- the node of the first edit
        have adds : a.spot?.isSome := by
          refine Decidable.byContradiction fun still => early ?_
          rwa [← first.size_of_still still]
        obtain ⟨n, found, fresh, size⟩ := first.exists_new adds
        have same : y.node x.size = n := last.new n (addsA.trans found)
        have here : id = t.size := by omega
        have leaf : (v.node t.size).children = [] := by rw [fresh, leaf_of_added found]
        rw [here, ofA adds, same, second.old _ (here ▸ middle), touched_of_fresh insideB leaf, fresh,
          rename_added below insideA found]
      · -- the node of the second edit
        have adds : b.spot?.isSome := by
          refine Decidable.byContradiction fun still => middle ?_
          rwa [← second.size_of_still still]
        obtain ⟨n, found, fresh, size⟩ := other.exists_new adds
        obtain ⟨-, -, -, grown⟩ := second.exists_new adds
        have same : w.node v.size = n := second.new n (addsB.trans found)
        have here : id = v.size := by omega
        have leaf : (x.node t.size).children = [] := by rw [fresh, leaf_of_added found]
        rw [here, ofB adds, same, last.old _ (by omega), touched_of_fresh insideA leaf, fresh,
          rename_added below insideB found]

omit below in
theorem exists_renamed (free : ¬a.Contends b) :
    ∃ σ : Equiv.Perm Nat, (∀ id < t.size, σ id = id) ∧ w.Renamed σ y := by
  by_cases addsA : a.spot?.isSome
  · by_cases addsB : b.spot?.isSome
    · obtain ⟨-, -, -, sizeV⟩ := first.exists_new addsA
      obtain ⟨-, -, -, sizeX⟩ := other.exists_new addsB
      obtain ⟨-, -, -, sizeW⟩ := second.exists_new addsB
      have below (id : Nat) (inside : id < t.size) : Equiv.swap t.size v.size id = id :=
        Equiv.swap_apply_of_ne_of_ne (by omega) (by omega)
      have above (id : Nat) (beyond : w.size ≤ id) : Equiv.swap t.size v.size id = id :=
        Equiv.swap_apply_of_ne_of_ne (by omega) (by omega)
      refine ⟨Equiv.swap t.size v.size, below, renamed first second other last insideA insideB below
        free above (fun _ => ?_) fun _ => Equiv.swap_apply_right ..⟩
      rw [Equiv.swap_apply_left, sizeX, sizeV]
    · exact ⟨Equiv.refl Nat, fun _ _ => rfl, renamed first second other last insideA insideB
        (fun _ _ => rfl) free (fun _ _ => rfl) (fun _ => (other.size_of_still addsB).symm)
        fun adds => absurd adds addsB⟩
  · exact ⟨Equiv.refl Nat, fun _ _ => rfl, renamed first second other last insideA insideB
      (fun _ _ => rfl) free (fun _ _ => rfl) (fun adds => absurd adds addsA)
      fun _ => first.size_of_still addsA⟩

end Commute

end Leads

/-- Two neighbouring edits of a batch that is carried out in either order. -/
theorem exists_renamed_performAll (attached : t.Attached) (marked : t.Marked) {a b : Edit}
    (free : ¬a.Contends b) {edits : List Edit} (targets : ∀ edit ∈ a :: b :: edits, t.Targets edit) :
    ∃ σ : Equiv.Perm Nat, (∀ id < t.size, σ id = id) ∧
      (t.performAll (a :: b :: edits)).1.Renamed σ (t.performAll (b :: a :: edits)).1 := by
  obtain ⟨aimA, others⟩ := List.forall_mem_cons.mp targets
  obtain ⟨aimB, aims⟩ := List.forall_mem_cons.mp others
  obtain ⟨v, performedV, first, hungV, rightV⟩ := exists_leads attached marked aimA
  obtain ⟨w, performedW, second, hungW, rightW⟩ := exists_leads hungV rightV (aimB.mono first.grows)
  obtain ⟨x, performedX, other, hungX, rightX⟩ := exists_leads attached marked aimB
  obtain ⟨y, performedY, last, hungY, rightY⟩ := exists_leads hungX rightX (aimA.mono other.grows)
  obtain ⟨σ, below, renamed⟩ := first.exists_renamed second other last aimA.1 aimB.1 free
  refine ⟨σ, below, ?_⟩
  rw [performAll, performedV, performAll, performedX]
  simp only
  rw [performAll, performedW, performAll, performedY]
  exact renamed.performAll hungW rightW hungY rightY
    (fun edit member => (aims edit member).mono (Nat.le_trans first.grows second.grows))
    fun edit member => below _ (aims edit member).1

end Tree

/-- Neighbouring edits of a batch can change places, unless both add a node at one place: if the
batch is accepted with either order, it prints as the same text. -/
theorem Source.independent_edits_commute (text : String) (parse : Parse) (batches : List (List Edit))
    (before after : List Edit) (a b : Edit) (free : ¬a.Contends b) :
    let t := (ofParse text parse).tree.applyAll batches
    ∀ u v, t.apply (before ++ a :: b :: after) = (u, .ok ()) →
      t.apply (before ++ b :: a :: after) = (v, .ok ()) → u.print = v.print := by
  intro t u v done swapped
  obtain ⟨attached, marked, -⟩ := Tree.applyAll_preserves (attached_ofParse text parse)
    (untouched_ofParse text parse).marked batches
  obtain ⟨valid, performed⟩ := (Tree.apply_eq_ok_iff attached marked).mp done
  obtain ⟨-, carried⟩ := (Tree.apply_eq_ok_iff attached marked).mp swapped
  obtain ⟨early, -⟩ := Tree.validateAll_append_eq_ok_iff.mp valid
  obtain ⟨z, common, hung, right, -⟩ :=
    Tree.performAll_targets attached marked (Tree.targets_of_validateAll early)
  have since := Tree.since_performAll attached marked (Tree.admits_of_validateAll early)
  rw [common] at since
  have targets : ∀ edit ∈ a :: b :: after, z.Targets edit := fun edit member =>
    (Tree.targets_of_validateAll valid edit (List.mem_append_right _ member)).mono since.keeps.size
  obtain ⟨σ, below, renamed⟩ := Tree.exists_renamed_performAll hung right free targets
  rw [Tree.performAll_append common] at performed carried
  rw [performed, carried] at renamed
  exact (renamed.print_eq (below _ hung.nonempty)).symm

def trimmedParse : Parse where
  hasErrors := false
  tree := .node "program" true ⟨0, 29⟩ none [
    .node "class_declaration" true ⟨0, 29⟩ none [
      .token "class" 0,
      .leaf (some "name") "identifier" 6 7,
      .node "class_body" true ⟨8, 29⟩ (some "body") [
        .token "\x7b" 8,
        .node "field_declaration" true ⟨10, 25⟩ none [
          .node "modifiers" true ⟨10, 20⟩ none [
            .token "private" 10,
            .node "marker_annotation" true ⟨18, 20⟩ none [
              .token "@" 18,
              .leaf (some "name") "identifier" 19 20]],
          .leaf (some "type") "type_identifier" 21 22,
          .node "variable_declarator" true ⟨23, 24⟩ (some "declarator") [
            .leaf (some "name") "identifier" 23 24],
          .token ";" 24],
        .token "\x7d" 28]]]

@[inherit_doc trimmedParse]
def trimmedTree : Tree :=
  (Source.ofParse "class A \x7b private @B C c;   \x7d" trimmedParse).tree.applyAll [[.remove 9]]

/-- A keyword behind the last kept modifier, and one at the end of all modifiers. -/
theorem Source.independent_edits_commute_keywords :
    let a : Edit := .append 7 (.keyword "final")
    let b : Edit := .insertAfter 8 (.keyword "static")
    ∃ u v, ¬a.Contends b ∧ trimmedTree.apply [a, b] = (u, .ok ()) ∧
      trimmedTree.apply [b, a] = (v, .ok ()) ∧ u.nodes ≠ v.nodes ∧ u.print = v.print := by
  intro a b
  have free : ¬a.Contends b := by decide
  have first : (trimmedTree.apply [a, b]).2 = .ok () := by decide +kernel
  have second : (trimmedTree.apply [b, a]).2 = .ok () := by decide +kernel
  have apart : (trimmedTree.apply [a, b]).1.nodes ≠ (trimmedTree.apply [b, a]).1.nodes := by
    decide +kernel
  obtain ⟨⟨u, result⟩, left⟩ : ∃ done, trimmedTree.apply [a, b] = done := ⟨_, rfl⟩
  obtain ⟨⟨v, answer⟩, right⟩ : ∃ swapped, trimmedTree.apply [b, a] = swapped := ⟨_, rfl⟩
  rw [left] at first apart
  rw [right] at second apart
  obtain rfl : result = .ok () := first
  obtain rfl : answer = .ok () := second
  exact ⟨u, v, free, left, right, apart,
    independent_edits_commute _ trimmedParse [[.remove 9]] [] [] a b free u v left right⟩

end SpringLint
