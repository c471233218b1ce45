import SpringLint.Check.Finding
import SpringLint.Proofs.Syntax.Nesting

/-! Where the members of a type hang and stand. -/

namespace SpringLint.Tree

variable {t : Tree}

theorem children_of_untouched (untouched : t.Untouched) (id : Nat) :
    t.children id = (t.node id).children := by
  apply List.filter_eq_self.mpr
  intro c _
  rw [(untouched c).1]
  rfl

/-- How a member hangs below the body of its type: directly, or in the second part of the body of an
enum. -/
def Member (t : Tree) (body m : Nat) : Prop :=
  (t.node m).parent = some body ∨
    ∃ part, t.kind part = .enumBodyDeclarations ∧ (t.node part).parent = some body ∧
      (t.node m).parent = some part

theorem mem_members (attached : t.Attached) {type m : Nat} (member : m ∈ t.members type) :
    ∃ body, t.childByField type "body" = some body ∧ t.Member body m := by
  unfold members at member
  cases found : t.childByField type "body" with
  | none =>
    rw [found] at member
    cases member
  | some body =>
    rw [found] at member
    refine ⟨body, rfl, ?_⟩
    obtain ⟨c, child, inside⟩ := List.mem_flatMap.mp member
    have above := attached.parent_of_mem (mem_node_of_mem_namedChildren child)
    split at inside
    · rename_i second
      exact .inr ⟨c, second, above, attached.parent_of_mem (mem_node_of_mem_namedChildren inside)⟩
    · rw [List.mem_singleton.mp inside]
      exact .inl above

theorem Member.below {body m : Nat} (member : t.Member body m) : body ∈ t.ancestors m := by
  rcases member with above | ⟨part, -, higher, above⟩
  · rw [ancestors_of_parent above]
    exact List.mem_cons_self
  · rw [ancestors_of_parent above, ancestors_of_parent higher]
    exact List.mem_cons_of_mem _ List.mem_cons_self

theorem Member.not_above {body m other : Nat} (member : t.Member body m) (below : body < other)
    (kind : t.kind other ≠ .enumBodyDeclarations) : other ∉ t.ancestors m := by
  have past : other ∉ body :: t.ancestors body := by
    intro higher
    have := le_of_mem_ancestors higher
    omega
  intro path
  rcases member with above | ⟨part, second, higher, above⟩
  · rw [ancestors_of_parent above] at path
    exact past path
  · rw [ancestors_of_parent above, ancestors_of_parent higher] at path
    rcases List.mem_cons.mp path with rfl | further
    · exact kind second
    · exact past further

theorem pairwise_children (spaced : t.Spaced) (id : Nat) :
    (t.node id).children.Pairwise fun a b => (t.span a).stop ≤ (t.span b).start :=
  List.pairwise_map.mp (spaced id).pairwise

/-- Members stand one after another. -/
theorem pairwise_members (spaced : t.Spaced) (type : Nat) :
    (t.members type).Pairwise fun a b => (t.span a).stop ≤ (t.span b).start := by
  have named (id : Nat) :
      (t.namedChildren id).Pairwise fun a b => (t.span a).stop ≤ (t.span b).start :=
    ((pairwise_children spaced id).filter _).filter _
  have inside {c x : Nat}
      (member : x ∈ if t.kind c = .enumBodyDeclarations then t.namedChildren c else [c]) :
      (t.span c).start ≤ (t.span x).start ∧ (t.span x).stop ≤ (t.span c).stop := by
    split at member
    · obtain ⟨lower, -, upper⟩ :=
        (spaced c).contains (List.mem_map_of_mem (mem_node_of_mem_namedChildren member))
      exact ⟨lower, upper⟩
    · rw [List.mem_singleton.mp member]
      exact ⟨Nat.le_refl _, Nat.le_refl _⟩
  unfold members
  cases t.childByField type "body" with
  | none => exact List.Pairwise.nil
  | some body =>
    rw [List.pairwise_flatMap]
    constructor
    · intro c _
      split
      · exact named c
      · exact List.pairwise_singleton _ c
    · apply (named body).imp
      intro a b before x first y second
      have left := inside first
      have right := inside second
      omega

end SpringLint.Tree
