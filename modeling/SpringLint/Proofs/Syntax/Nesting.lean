import SpringLint.Proofs.Syntax.Shape

/-! The nodes above a node, and nodes that share an offset. -/

namespace SpringLint.Tree

variable {t : Tree}

/-- What holds of a node as soon as it holds of its children holds of every node. -/
theorem down_induction {P : Nat → Prop} (step : ∀ id, (∀ c ∈ (t.node id).children, P c) → P id)
    (id : Nat) : P id := by
  induction later : t.size - id using Nat.strongRecOn generalizing id with
  | ind _ ih =>
    apply step
    intro c member
    exact ih _ (by have := child_decreases member; omega) c rfl

theorem ancestors_of_parent {id p : Nat} (above : (t.node id).parent = some p) :
    t.ancestors id = p :: t.ancestors p := by
  rw [ancestors]
  split
  · rename_i q found
    rw [above] at found
    rw [Option.some.inj found]
  · rename_i none
    rw [above] at none
    cases none

theorem ancestors_of_root {id : Nat} (top : (t.node id).parent = none) : t.ancestors id = [] := by
  rw [ancestors]
  split
  · rename_i q found
    rw [top] at found
    cases found
  · rfl

theorem ancestors_congr {u : Tree} {id : Nat}
    (same : ∀ a ≤ id, (u.node a).parent = (t.node a).parent) : u.ancestors id = t.ancestors id := by
  induction id using Nat.strongRecOn with
  | ind id ih =>
    have here := same id (Nat.le_refl _)
    cases above : (t.node id).parent with
    | none => rw [ancestors_of_root above, ancestors_of_root (here.trans above)]
    | some p =>
      have lower := parent_lt above
      rw [ancestors_of_parent above, ancestors_of_parent (here.trans above),
        ih p lower fun a low => same a (by omega)]

theorem le_of_mem_ancestors {id a : Nat} (above : a ∈ id :: t.ancestors id) : a ≤ id := by
  induction id using Nat.strongRecOn with
  | ind id ih =>
    rcases List.mem_cons.mp above with rfl | further
    · exact Nat.le_refl _
    · cases found : (t.node id).parent with
      | none =>
        rw [ancestors_of_root found] at further
        cases further
      | some p =>
        rw [ancestors_of_parent found] at further
        have lower := parent_lt found
        exact Nat.le_trans (ih p lower further) (Nat.le_of_lt lower)

theorem mem_ancestors_trans {x a b : Nat} (low : a ∈ x :: t.ancestors x)
    (high : b ∈ a :: t.ancestors a) : b ∈ x :: t.ancestors x := by
  induction x using Nat.strongRecOn with
  | ind x ih =>
    rcases List.mem_cons.mp low with rfl | further
    · exact high
    · cases found : (t.node x).parent with
      | none =>
        rw [ancestors_of_root found] at further
        cases further
      | some p =>
        rw [ancestors_of_parent found] at further ⊢
        exact List.mem_cons_of_mem _ (ih p (parent_lt found) further)

theorem comparable_of_ancestors {x a b : Nat} (first : a ∈ x :: t.ancestors x)
    (second : b ∈ x :: t.ancestors x) : a ∈ b :: t.ancestors b ∨ b ∈ a :: t.ancestors a := by
  induction x using Nat.strongRecOn with
  | ind x ih =>
    rcases List.mem_cons.mp first with rfl | left
    · exact .inr second
    · rcases List.mem_cons.mp second with rfl | right
      · exact .inl first
      · cases found : (t.node x).parent with
        | none =>
          rw [ancestors_of_root found] at left
          cases left
        | some p =>
          rw [ancestors_of_parent found] at left right
          exact ih p (parent_lt found) left right

theorem lt_of_mem_ancestors {id a : Nat} (above : a ∈ t.ancestors id) : a < id := by
  cases found : (t.node id).parent with
  | none =>
    rw [ancestors_of_root found] at above
    cases above
  | some p =>
    rw [ancestors_of_parent found] at above
    exact Nat.lt_of_le_of_lt (le_of_mem_ancestors above) (parent_lt found)

theorem ancestors_trans {x r a : Nat} (low : r ∈ x :: t.ancestors x) (high : a ∈ t.ancestors r) :
    a ∈ t.ancestors x := by
  rcases List.mem_cons.mp (mem_ancestors_trans low (List.mem_cons_of_mem _ high)) with rfl | above
  · have below := le_of_mem_ancestors low
    have := lt_of_mem_ancestors high
    omega
  · exact above

theorem eq_of_siblings {x a b p : Nat} (first : a ∈ x :: t.ancestors x)
    (second : b ∈ x :: t.ancestors x) (left : (t.node a).parent = some p)
    (right : (t.node b).parent = some p) : a = b := by
  have only {a b : Nat} (above : (t.node b).parent = some p) (other : (t.node a).parent = some p)
      (path : a ∈ b :: t.ancestors b) : a = b := by
    rcases List.mem_cons.mp path with same | further
    · exact same
    · rw [ancestors_of_parent above] at further
      have low := le_of_mem_ancestors further
      have high := parent_lt other
      omega
  rcases comparable_of_ancestors first second with path | path
  · exact only right left path
  · exact (only left right path).symm

/-- Neither a node nor anything above it is among `gone`. -/
def Spared (t : Tree) (gone : List Nat) (id : Nat) : Prop :=
  ∀ a ∈ id :: t.ancestors id, a ∉ gone

theorem spared_of_parent {gone : List Nat} {id p : Nat} (above : (t.node id).parent = some p) :
    t.Spared gone id ↔ id ∉ gone ∧ t.Spared gone p := by
  unfold Spared
  rw [ancestors_of_parent above, List.forall_mem_cons]

def Holds (t : Tree) (id x : Nat) : Prop :=
  (t.span id).start ≤ x ∧ x < (t.span id).stop

theorem Spaced.holds_parent (spaced : t.Spaced) {p c x : Nat} (member : c ∈ (t.node p).children)
    (holds : t.Holds c x) : t.Holds p x := by
  obtain ⟨lower, -, upper⟩ := (spaced p).contains (List.mem_map_of_mem member)
  exact ⟨Nat.le_trans lower holds.1, Nat.lt_of_lt_of_le holds.2 upper⟩

theorem Spaced.eq_of_holds (spaced : t.Spaced) {p a b x : Nat} (first : a ∈ (t.node p).children)
    (second : b ∈ (t.node p).children) (left : t.Holds a x) (right : t.Holds b x) : a = b := by
  have apart := List.pairwise_map.mp (spaced p).pairwise
  have either := eq_or_of_pairwise apart first second
  unfold Holds at left right
  omega

theorem exists_child_above (attached : t.Attached) {id p : Nat} (inside : id < t.size)
    (above : p ∈ t.ancestors id) :
    ∃ c ∈ (t.node p).children, c ∈ id :: t.ancestors id := by
  induction id using Nat.strongRecOn with
  | ind id ih =>
    cases found : (t.node id).parent with
    | none =>
      rw [ancestors_of_root found] at above
      cases above
    | some q =>
      rw [ancestors_of_parent found] at above ⊢
      rcases List.mem_cons.mp above with rfl | further
      · exact ⟨id, attached.mem_of_parent inside found, List.mem_cons_self⟩
      · have lower := parent_lt found
        obtain ⟨c, child, path⟩ := ih q lower (Nat.lt_trans lower inside) further
        exact ⟨c, child, List.mem_cons_of_mem _ path⟩

theorem root_mem_ancestors (attached : t.Attached) {id : Nat} (inside : id < t.size)
    (deep : id ≠ root) : root ∈ t.ancestors id := by
  induction id using Nat.strongRecOn with
  | ind id ih =>
    obtain ⟨p, below, above⟩ := attached.parent_inside id inside deep
    rw [ancestors_of_parent above]
    by_cases top : p = root
    · rw [top]
      exact List.mem_cons_self
    · exact List.mem_cons_of_mem _ (ih p (parent_lt above) below top)

theorem Spaced.within_ancestor (spaced : t.Spaced) (attached : t.Attached) {id a : Nat}
    (inside : id < t.size) (above : a ∈ id :: t.ancestors id) :
    (t.span a).start ≤ (t.span id).start ∧ (t.span id).stop ≤ (t.span a).stop := by
  induction id using Nat.strongRecOn with
  | ind id ih =>
    rcases List.mem_cons.mp above with rfl | further
    · exact ⟨Nat.le_refl _, Nat.le_refl _⟩
    · cases found : (t.node id).parent with
      | none =>
        rw [ancestors_of_root found] at further
        cases further
      | some p =>
        rw [ancestors_of_parent found] at further
        have lower := parent_lt found
        have member := attached.mem_of_parent inside found
        have outer := ih p lower (Nat.lt_trans lower inside) further
        have inner := (spaced p).contains (List.mem_map_of_mem member)
        omega

theorem Spaced.holds_ancestor (spaced : t.Spaced) (attached : t.Attached) {id a x : Nat}
    (inside : id < t.size) (holds : t.Holds id x) (above : a ∈ id :: t.ancestors id) :
    t.Holds a x := by
  have within := spaced.within_ancestor attached inside above
  exact ⟨Nat.le_trans within.1 holds.1, Nat.lt_of_lt_of_le holds.2 within.2⟩

theorem Spaced.comparable (spaced : t.Spaced) (attached : t.Attached) {a b x : Nat}
    (insideA : a < t.size) (insideB : b < t.size) (left : t.Holds a x) (right : t.Holds b x) :
    a ∈ b :: t.ancestors b ∨ b ∈ a :: t.ancestors a := by
  -- the higher number gives way to its parent
  induction total : a + b using Nat.strongRecOn generalizing a b with
  | ind n ih =>
    subst total
    have climb {a b : Nat} (less : a < b) (insideA : a < t.size) (insideB : b < t.size)
        (left : t.Holds a x) (right : t.Holds b x)
        (known : ∀ p, p < b → p < t.size → t.Holds p x →
          a ∈ p :: t.ancestors p ∨ p ∈ a :: t.ancestors a) :
        a ∈ b :: t.ancestors b ∨ b ∈ a :: t.ancestors a := by
      have deep : b ≠ root := Nat.ne_of_gt (Nat.lt_of_le_of_lt (Nat.zero_le a) less)
      obtain ⟨p, below, above⟩ := attached.parent_inside b insideB deep
      have member := attached.mem_of_parent insideB above
      rcases known p (parent_lt above) below (spaced.holds_parent member right) with up | down
      · rw [ancestors_of_parent above]
        exact .inl (List.mem_cons_of_mem _ up)
      · rcases List.mem_cons.mp down with rfl | further
        · rw [ancestors_of_parent above]
          exact .inl (List.mem_cons_of_mem _ List.mem_cons_self)
        · obtain ⟨c, child, path⟩ := exists_child_above attached insideA further
          have same := spaced.eq_of_holds child member
            (spaced.holds_ancestor attached insideA left path) right
          rw [← same]
          exact .inr path
    rcases Nat.lt_trichotomy a b with less | rfl | more
    · apply climb less insideA insideB left right
      intro p lower below holds
      exact ih (a + p) (by omega) insideA below left holds rfl
    · exact .inl List.mem_cons_self
    · apply Or.symm
      apply climb more insideB insideA right left
      intro p lower below holds
      exact (ih (p + b) (by omega) below insideB holds right rfl).symm

end SpringLint.Tree
