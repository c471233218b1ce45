import SpringLint.Proofs.Syntax.Numbering
import SpringLint.Proofs.Syntax.Traversal

/-! The calls that a walk makes of its visitor. The walk takes pending steps off a list, but what it
calls, in which order and on which states, is what a recursion over the tree does. -/

namespace SpringLint

namespace Visitor

variable {σ : Type}

/-- A visitor that also writes down the calls that are made of it. -/
def recorded (visitor : Visitor σ) : Visitor (List Step × σ) where
  visit id done :=
    ((visitor.visit id done.2).1, done.1 ++ [.enter id], (visitor.visit id done.2).2)
  leave id done := (done.1 ++ [.leave id], visitor.leave id done.2)

end Visitor

/-- Runs something for each item, on the state that the item before has left, and puts the calls
together. -/
def inTurn {α σ : Type} (run : α → σ → List Step × σ) : List α → σ → List Step × σ
  | [], state => ([], state)
  | item :: rest, state =>
    let (first, state) := run item state
    let (further, state) := inTurn run rest state
    (first ++ further, state)

theorem inTurn_cons {α σ : Type} (run : α → σ → List Step × σ) (item : α) (rest : List α) (state : σ) :
    inTurn run (item :: rest) state =
      ((run item state).1 ++ (inTurn run rest (run item state).2).1,
        (inTurn run rest (run item state).2).2) :=
  rfl

theorem inTurn_attach {α σ : Type} (run : α → σ → List Step × σ) (items : List α) (state : σ) :
    inTurn (fun item : { x // x ∈ items } => run item.1) items.attach state =
      inTurn run items state := by
  have all (P : α → Prop) (part : List { x // P x }) (state : σ) :
      inTurn (fun item : { x // P x } => run item.1) part state =
        inTurn run part.unattach state := by
    induction part generalizing state with
    | nil => rfl
    | cons item rest ih => rw [List.unattach_cons, inTurn_cons, inTurn_cons, ih]
  rw [all, List.unattach_attach]

namespace Tree

variable {t : Tree} {σ : Type} {visitor : Visitor σ}

/-- The recursion over a tree, with the calls it makes: a node is visited, and if the visit says so,
what is below it is gone through child after child and the node is left. -/
def recursion (t : Tree) (visitor : Visitor σ) (id : Nat) (state : σ) : List Step × σ :=
  let (goesIn, entered) := visitor.visit id state
  if goesIn then
    let (calls, after) := inTurn (fun c => t.recursion visitor c.1) (t.children id).attach entered
    (.enter id :: (calls ++ [.leave id]), visitor.leave id after)
  else ([.enter id], entered)
termination_by t.size - id
decreasing_by exact child_decreases (mem_node_of_mem_children c.2)

theorem recursion_goesIn {id : Nat} {state : σ} (goesIn : (visitor.visit id state).1 = true) :
    t.recursion visitor id state =
      let below := inTurn (t.recursion visitor) (t.children id) (visitor.visit id state).2
      (.enter id :: (below.1 ++ [.leave id]), visitor.leave id below.2) := by
  rw [recursion]
  simp only [goesIn, if_true, inTurn_attach (t.recursion visitor)]

theorem recursion_goesOn {id : Nat} {state : σ} (goesOn : (visitor.visit id state).1 = false) :
    t.recursion visitor id state = ([.enter id], (visitor.visit id state).2) := by
  rw [recursion]
  simp only [goesOn, Bool.false_eq_true, if_false]

/-- The turns of the loop over the pending steps, the next one at the head: the calls that are made
until no step is pending, and the state in the end. -/
inductive Loop (t : Tree) (visitor : Visitor σ) : List Step → σ → List Step → σ → Prop
  | done {state : σ} : Loop t visitor [] state [] state
  | leave {id : Nat} {rest calls : List Step} {state final : σ}
    (later : Loop t visitor rest (visitor.leave id state) calls final) :
    Loop t visitor (.leave id :: rest) state (.leave id :: calls) final
  | goIn {id : Nat} {rest calls : List Step} {state final : σ}
    (goesIn : (visitor.visit id state).1 = true)
    (later : Loop t visitor ((t.children id).map .enter ++ .leave id :: rest)
      (visitor.visit id state).2 calls final) :
    Loop t visitor (.enter id :: rest) state (.enter id :: calls) final
  | goOn {id : Nat} {rest calls : List Step} {state final : σ}
    (goesOn : (visitor.visit id state).1 = false)
    (later : Loop t visitor rest (visitor.visit id state).2 calls final) :
    Loop t visitor (.enter id :: rest) state (.enter id :: calls) final

namespace Loop

variable {pending calls others rest : List Step} {state final last : σ} {id : Nat}

theorem unique (first : t.Loop visitor pending state calls final)
    (second : t.Loop visitor pending state others last) : others = calls ∧ last = final := by
  induction first generalizing others last with
  | done =>
    cases second
    exact ⟨rfl, rfl⟩
  | leave _ ih =>
    cases second with
    | leave later =>
      have ⟨same, agree⟩ := ih later
      exact ⟨congrArg _ same, agree⟩
  | goIn goesIn _ ih =>
    cases second with
    | goIn _ later =>
      have ⟨same, agree⟩ := ih later
      exact ⟨congrArg _ same, agree⟩
    | goOn goesOn => cases goesIn.symm.trans goesOn
  | goOn goesOn _ ih =>
    cases second with
    | goIn goesIn => cases goesIn.symm.trans goesOn
    | goOn _ later =>
      have ⟨same, agree⟩ := ih later
      exact ⟨congrArg _ same, agree⟩

theorem enter (later : t.Loop visitor rest (t.recursion visitor id state).2 calls final) :
    t.Loop visitor (.enter id :: rest) state ((t.recursion visitor id state).1 ++ calls) final := by
  induction id using down_induction (t := t) generalizing rest state calls final with
  | step id ih =>
    have below : ∀ ids : List Nat, (∀ c ∈ ids, c ∈ t.children id) → ∀ (state : σ) (calls : List Step),
        t.Loop visitor (.leave id :: rest) (inTurn (t.recursion visitor) ids state).2 calls final →
        t.Loop visitor (ids.map .enter ++ .leave id :: rest) state
          ((inTurn (t.recursion visitor) ids state).1 ++ calls) final := by
      intro ids
      induction ids with
      | nil => exact fun _ _ _ later => later
      | cons c ids next =>
        intro members state calls later
        have ⟨child, others⟩ := List.forall_mem_cons.mp members
        rw [inTurn_cons, List.append_assoc]
        exact ih c (mem_node_of_mem_children child) (next others _ _ later)
    cases goesIn : (visitor.visit id state).1 with
    | false =>
      rw [recursion_goesOn goesIn] at later ⊢
      exact .goOn goesIn later
    | true =>
      rw [recursion_goesIn goesIn] at later ⊢
      dsimp only at later ⊢
      rw [List.cons_append, List.append_assoc]
      exact .goIn goesIn (below _ (fun _ member => member) _ _ (.leave later))

theorem recursion (t : Tree) (visitor : Visitor σ) (id : Nat) (state : σ) :
    t.Loop visitor [.enter id] state (t.recursion visitor id state).1
      (t.recursion visitor id state).2 := by
  have alone : t.Loop visitor [.enter id] state ((t.recursion visitor id state).1 ++ [])
      (t.recursion visitor id state).2 := enter .done
  rwa [List.append_nil] at alone

/-- What the turns come to is what the program computes. -/
theorem runSteps_eq (loop : t.Loop visitor pending state calls final) :
    t.runSteps visitor pending state = final := by
  induction loop with
  | done => rw [runSteps]
  | leave _ ih => rw [runSteps, ih]
  | goIn goesIn _ ih =>
    rw [runSteps]
    simp only [goesIn, if_true]
    exact ih
  | goOn goesOn _ ih =>
    rw [runSteps]
    simp only [goesOn, Bool.false_eq_true, if_false]
    exact ih

theorem recorded (loop : t.Loop visitor pending state calls final) (before : List Step) :
    t.Loop visitor.recorded pending (before, state) calls (before ++ calls, final) := by
  induction loop generalizing before with
  | done =>
    rw [List.append_nil]
    exact .done
  | leave _ ih =>
    rw [List.append_cons]
    exact .leave (ih _)
  | goIn goesIn _ ih =>
    rw [List.append_cons]
    exact .goIn goesIn (ih _)
  | goOn goesOn _ ih =>
    rw [List.append_cons]
    exact .goOn goesOn (ih _)

end Loop

/-- The nodes that are visited by some calls. -/
def entered (calls : List Step) : List Nat :=
  calls.filterMap fun
    | .enter id => some id
    | .leave _ => none

theorem entered_append (first second : List Step) :
    entered (first ++ second) = entered first ++ entered second :=
  List.filterMap_append

theorem entered_inTurn {ids : List Nat}
    (each : ∀ c ∈ ids, ∀ state, entered (t.recursion visitor c state).1 = t.descendants c) (state : σ) :
    entered (inTurn (t.recursion visitor) ids state).1 = ids.flatMap t.descendants := by
  induction ids generalizing state with
  | nil => rfl
  | cons c rest ih =>
    have ⟨first, others⟩ := List.forall_mem_cons.mp each
    rw [inTurn_cons, entered_append, first, ih others, List.flatMap_cons]

theorem entered_recursion (always : ∀ x state, (visitor.visit x state).1 = true) (id : Nat) (state : σ) :
    entered (t.recursion visitor id state).1 = t.descendants id := by
  induction id using down_induction (t := t) generalizing state with
  | step id ih =>
    have each : ∀ c ∈ t.children id, ∀ state,
        entered (t.recursion visitor c state).1 = t.descendants c :=
      fun c child => ih c (mem_node_of_mem_children child)
    have below := entered_inTurn each (visitor.visit id state).2
    rw [recursion_goesIn (always id state), descendants_eq, ← below]
    calc
      _ = id :: (entered (inTurn (t.recursion visitor) (t.children id) (visitor.visit id state).2).1 ++
          []) := congrArg _ (entered_append _ _)
      _ = _ := by rw [List.append_nil]

/-- The nodes below those pending, taken off a list as the program lists descendants. -/
def listing (t : Tree) (pending : List Nat) : List Nat :=
  match pending with
  | [] => []
  | id :: rest => id :: t.listing (t.children id ++ rest)
termination_by (pending.flatMap t.descendants).length
decreasing_by
  rw [List.flatMap_append, List.flatMap_cons, descendants_eq, List.cons_append, List.length_cons]
  exact Nat.lt_succ_self _

theorem listing_eq (t : Tree) (pending : List Nat) :
    t.listing pending = pending.flatMap t.descendants := by
  fun_induction listing t pending with
  | case1 => rfl
  | case2 id rest ih =>
    rw [ih, List.flatMap_append, List.flatMap_cons, descendants_eq, List.cons_append]

/-- The loop ends, after the calls of the recursion and in no other way, and what the walk computes is
the state after them; a visitor that is asked to write its calls down has these. If the visitor always
goes in, it sees the descendants as the program lists them, none of them twice. -/
theorem walk_follows_recursion (attached : t.Attached) (visitor : Visitor σ) (id : Nat) (state : σ) :
    (∀ calls final, t.Loop visitor [.enter id] state calls final ↔
      (calls, final) = t.recursion visitor id state) ∧
    t.walk visitor.recorded id ([], state) = t.recursion visitor id state ∧
    t.walk visitor id state = (t.recursion visitor id state).2 ∧
    ((∀ x state, (visitor.visit x state).1 = true) →
      entered (t.recursion visitor id state).1 = t.descendants id) ∧
    t.listing [id] = t.descendants id ∧ (t.descendants id).Nodup := by
  have loop := Loop.recursion t visitor id state
  refine ⟨fun calls final => ⟨?_, ?_⟩, (loop.recorded []).runSteps_eq, loop.runSteps_eq, ?_, ?_, ?_⟩
  · intro other
    have ⟨same, agree⟩ := loop.unique other
    exact Prod.ext same agree
  · intro same
    rw [← same] at loop
    exact loop
  · exact fun always => entered_recursion always id state
  · rw [listing_eq, List.flatMap_singleton]
  · exact nodup_descendants attached id

def emptyClass : ParseTree :=
  .node "program" true ⟨0, 11⟩ none [
    .node "class_declaration" true ⟨0, 11⟩ none [
      .token "class" 0,
      .leaf (some "name") "identifier" 6 7,
      .node "class_body" true ⟨8, 11⟩ (some "body") [.token "\x7b" 8, .token "\x7d" 10]]]

def bodyless (t : Tree) : Visitor Nat where
  visit id visits := (t.kind id != .classBody, visits + 1)

/-- The body is visited but not left, and what stands in it is not visited. -/
theorem walk_follows_recursion_bodyless :
    let t := emptyClass.toTree "class A \x7b \x7d"
    t.Attached ∧ (∃ calls, t.Loop (bodyless t) [.enter 0] 0 calls 5 ∧
      calls = [.enter 0, .enter 1, .enter 2, .leave 2, .enter 3, .leave 3, .enter 4, .leave 1,
        .leave 0]) ∧
      t.walk (bodyless t) 0 0 = 5 ∧ t.descendants 0 = [0, 1, 2, 3, 4, 5, 6] := by
  intro t
  have attached : t.Attached := emptyClass.attached_toTree _
  have ⟨loop, _, walked, _⟩ := walk_follows_recursion attached (bodyless t) 0 0
  have calls : t.recursion (bodyless t) 0 0 =
      ([.enter 0, .enter 1, .enter 2, .leave 2, .enter 3, .leave 3, .enter 4, .leave 1, .leave 0],
        5) := by
    decide +kernel
  refine ⟨attached, ⟨_, (loop _ _).mpr calls.symm, rfl⟩, ?_, by decide +kernel⟩
  rw [walked, calls]

end Tree

end SpringLint
