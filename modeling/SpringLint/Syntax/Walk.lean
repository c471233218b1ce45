import SpringLint.Syntax.Tree

/-! Visiting the nodes of a tree in source order. -/

namespace SpringLint

structure Visitor (σ : Type) where
  /-- Runs before a node's children and says whether they are visited. -/
  visit : Nat → σ → Bool × σ := fun _ state => (true, state)
  leave : Nat → σ → σ := fun _ state => state

inductive Step where
  | enter (id : Nat)
  | leave (id : Nat)
  deriving DecidableEq, Repr

namespace Tree

theorem length_descendants_pos (t : Tree) (id : Nat) : 0 < (t.descendants id).length := by
  rw [descendants]
  simp

def stepWeight (t : Tree) : Step → Nat
  | .enter id => 2 * (t.descendants id).length
  | .leave _ => 1

def pendingWeight (t : Tree) : List Step → Nat
  | [] => 0
  | step :: rest => t.stepWeight step + t.pendingWeight rest

theorem pendingWeight_enter (t : Tree) (ids : List Nat) (rest : List Step) :
    t.pendingWeight (ids.map .enter ++ rest) =
      2 * (ids.flatMap t.descendants).length + t.pendingWeight rest := by
  induction ids with
  | nil => simp
  | cons id ids ih =>
    simp only [List.map_cons, List.cons_append, pendingWeight, stepWeight, ih, List.flatMap_cons,
      List.length_append]
    omega

theorem descendants_eq (t : Tree) (id : Nat) :
    t.descendants id = id :: (t.children id).flatMap t.descendants := by
  rw [descendants, List.flatMap_subtype (fun _ _ => rfl), List.unattach_attach]

theorem pendingWeight_expand (t : Tree) (id : Nat) (rest : List Step) :
    t.pendingWeight ((t.children id).map .enter ++ .leave id :: rest) <
      t.pendingWeight (.enter id :: rest) := by
  rw [pendingWeight_enter]
  simp only [pendingWeight, stepWeight, t.descendants_eq id, List.length_cons]
  omega

theorem pendingWeight_drop (t : Tree) (step : Step) (rest : List Step) :
    t.pendingWeight rest < t.pendingWeight (step :: rest) := by
  have positive : 0 < t.stepWeight step := by
    cases step with
    | enter id =>
      have := t.length_descendants_pos id
      simp only [stepWeight]
      omega
    | leave id => simp [stepWeight]
  simp only [pendingWeight]
  omega

def runSteps (t : Tree) (visitor : Visitor σ) (pending : List Step) (state : σ) : σ :=
  match pending with
  | [] => state
  | .leave id :: rest => t.runSteps visitor rest (visitor.leave id state)
  | .enter id :: rest =>
    let (goesIn, state) := visitor.visit id state
    if goesIn then
      t.runSteps visitor ((t.children id).map .enter ++ .leave id :: rest) state
    else t.runSteps visitor rest state
termination_by t.pendingWeight pending
decreasing_by
  · exact t.pendingWeight_drop _ _
  · exact t.pendingWeight_expand _ _
  · exact t.pendingWeight_drop _ _

/-- Visits a node and everything below it that no edit has removed, with the steps to come on a
list, so that depth is no concern. -/
def walk (t : Tree) (visitor : Visitor σ) (start : Nat) (state : σ) : σ :=
  t.runSteps visitor [.enter start] state

end Tree

end SpringLint
