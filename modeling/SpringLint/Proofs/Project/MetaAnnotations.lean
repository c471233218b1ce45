import SpringLint.Project.Query
import SpringLint.Proofs.Model.Search

/-! Annotations that a declaration carries through the annotations on its annotations. All branches of the
search share what has been visited, and it misses nothing for that. -/

namespace SpringLint

namespace Index

variable {index : Index} {name target : String} {seen visited pending : List String}

/-- A known type and the type of a resolved annotation on it. -/
def MetaStep (index : Index) (name annotation : String) : Prop :=
  ∃ d, index.get? name = some d ∧
    ∃ use ∈ d.annotations, use.isResolved = true ∧ use.typeName = annotation

theorem mem_metas {d : TypeDecl} :
    name ∈ metas d ↔ ∃ use ∈ d.annotations, use.isResolved = true ∧ use.typeName = name := by
  simp only [metas, List.mem_map, List.mem_filter, and_assoc]

theorem mem_namesAfter_metas : target ∈ index.namesAfter metas name ↔ index.MetaStep name target := by
  rw [mem_namesAfter]
  exact exists_congr fun _ => and_congr_right fun _ => mem_metas

/-- The search for one name, which lets unknown names be visited again, finds what the search for all
names lists. -/
theorem reaches_iff_mem_walkFrom (unlisted : target ∉ visited) (kept : ∀ x ∈ seen, x ∈ visited)
    (extra : ∀ x ∈ visited, x ∈ seen ∨ index.get? x = none) :
    index.reaches target seen pending = true ↔ target ∈ index.walkFrom metas visited pending := by
  fun_induction reaches index target seen pending generalizing visited with
  | case1 => simp only [walkFrom, Bool.false_eq_true, List.not_mem_nil]
  | case2 seen name rest here =>
    cases beq_iff_eq.mp here
    rw [walkFrom_unseen index _ unlisted]
    exact iff_of_true rfl List.mem_cons_self
  | case3 seen name rest other old ih =>
    rw [walkFrom_seen index _ (kept name (List.contains_iff_mem.mp old))]
    exact ih unlisted kept extra
  | case4 seen name rest other new unknown ih =>
    have differs : target ≠ name := fun same => other (beq_iff_eq.mpr same.symm)
    -- Only the search for all names remembers a name that is unknown.
    by_cases old : name ∈ visited
    · rw [walkFrom_seen index _ old]
      exact ih unlisted kept extra
    · have leads : index.namesAfter metas name = [] := by rw [namesAfter, unknown]; rfl
      rw [walkFrom_unseen index _ old, leads, List.mem_cons, or_iff_right differs]
      exact ih (List.not_mem_cons_of_ne_of_not_mem differs unlisted)
        (fun x old => List.mem_cons_of_mem _ (kept x old))
        (List.forall_mem_cons.mpr ⟨.inr unknown, extra⟩)
  | case5 seen name rest other new d known ih =>
    have differs : target ≠ name := fun same => other (beq_iff_eq.mpr same.symm)
    have fresh : name ∉ visited := fun old => by
      rcases extra name old with before | unknown
      · exact new (List.contains_iff_mem.mpr before)
      · rw [unknown] at known
        cases known
    have leads : index.namesAfter metas name = metas d := by rw [namesAfter, known]; rfl
    rw [walkFrom_unseen index _ fresh, leads, List.mem_cons, or_iff_right differs]
    refine ih (List.not_mem_cons_of_ne_of_not_mem differs unlisted)
      (List.forall_mem_cons.mpr ⟨List.mem_cons_self, fun x old => List.mem_cons_of_mem _ (kept x old)⟩)
      (List.forall_mem_cons.mpr ⟨.inl List.mem_cons_self, fun x old => ?_⟩)
    exact (extra x old).imp_left (List.mem_cons_of_mem _)

theorem exists_visited (index : Index) (name : String) (directs : List String) :
    ∃ visited, DepthFirst (index.namesAfter metas) [] directs visited ∧
      (index.reaches name [] directs = true ↔ name ∈ visited) :=
  ⟨_, depthFirst_walkFrom index metas [] directs,
    reaches_iff_mem_walkFrom List.not_mem_nil (fun _ => id) fun _ => .inl⟩

theorem reaches_iff {directs : List String} : index.reaches name [] directs = true ↔
    ∃ direct ∈ directs, Relation.ReflTransGen index.MetaStep direct name := by
  have ⟨visited, search, found⟩ := exists_visited index name directs
  have steps : (fun x y => y ∈ index.namesAfter metas x) = index.MetaStep := by
    funext x y
    exact propext mem_namesAfter_metas
  rw [found, search.mem_iff, steps]

end Index

namespace Query

/-- An annotation is carried when steps from a direct one lead to it, each from a known type to a
resolved annotation on it. The search that shares what it has visited ends, and finds no less. -/
theorem carries_iff_reachable (q : Query) (name : String) :
    (∀ declaration,
      (q.carries declaration name = true ↔
        ∃ use ∈ q.annotations declaration, ∃ direct, q.typeOf? use = some direct ∧
          Relation.ReflTransGen q.index.MetaStep direct name) ∧
      ∃ visited, DepthFirst (q.index.namesAfter Index.metas) []
          ((q.annotations declaration).filterMap q.typeOf?) visited ∧
        (q.carries declaration name = true ↔ name ∈ visited)) ∧
    ∀ d : TypeDecl,
      (q.index.carries d name = true ↔
        ∃ use ∈ d.annotations, use.isResolved = true ∧
          Relation.ReflTransGen q.index.MetaStep use.typeName name) ∧
      ∃ visited, DepthFirst (q.index.namesAfter Index.metas) [] (Index.metas d) visited ∧
        (q.index.carries d name = true ↔ name ∈ visited) := by
  refine ⟨fun declaration => ⟨?_, q.index.exists_visited name _⟩,
    fun d => ⟨?_, q.index.exists_visited name _⟩⟩
  · rw [carries, Index.reaches_iff]
    constructor
    · intro ⟨direct, listed, path⟩
      have ⟨use, written, type⟩ := List.mem_filterMap.mp listed
      exact ⟨use, written, direct, type, path⟩
    · intro ⟨use, written, direct, type, path⟩
      exact ⟨direct, List.mem_filterMap.mpr ⟨use, written, type⟩, path⟩
  · rw [Index.carries, Index.reaches_iff]
    constructor
    · intro ⟨direct, listed, path⟩
      have ⟨use, written, resolved, same⟩ := Index.mem_metas.mp listed
      exact ⟨use, written, resolved, same ▸ path⟩
    · intro ⟨use, written, resolved, path⟩
      exact ⟨use.typeName, Index.mem_metas.mpr ⟨use, written, resolved, rfl⟩, path⟩

end Query

end SpringLint
