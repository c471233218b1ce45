import Mathlib.Logic.Relation
import SpringLint.Model.Index

/-! Depth-first search with one set of names for all branches, and the searches that go along the
names of an index. -/

namespace SpringLint

variable {α : Type} {next : α → List α} {a b : α} {seen pending rest front back out : List α}

/-- The search from `pending` on lists, in the order of the first visits, what has not been seen
before. What one branch has listed is seen in the branches after it. -/
inductive DepthFirst (next : α → List α) : List α → List α → List α → Prop
  | done {seen : List α} : DepthFirst next seen [] []
  | again {seen : List α} {a : α} {rest out : List α} :
      a ∈ seen → DepthFirst next seen rest out → DepthFirst next seen (a :: rest) out
  | first {seen : List α} {a : α} {rest below after : List α} :
      a ∉ seen → DepthFirst next (a :: seen) (next a) below →
      DepthFirst next (below.reverse ++ a :: seen) rest after →
      DepthFirst next seen (a :: rest) (a :: below ++ after)

namespace DepthFirst

theorem unique {other : List α} (search : DepthFirst next seen pending out)
    (again : DepthFirst next seen pending other) : out = other := by
  induction search generalizing other with
  | done =>
    cases again
    rfl
  | again old _ ih =>
    cases again with
    | again _ later => exact ih later
    | first new => exact absurd old new
  | first new _ _ inner outer =>
    cases again with
    | again old => exact absurd old new
    | first _ below after =>
      cases inner below
      cases outer after
      rfl

theorem split (search : DepthFirst next seen (front ++ back) out) :
    ∃ below after, DepthFirst next seen front below ∧
      DepthFirst next (below.reverse ++ seen) back after ∧ out = below ++ after := by
  induction front generalizing seen out with
  | nil => exact ⟨[], out, .done, search, rfl⟩
  | cons a front ih =>
    cases search with
    | again old later =>
      have ⟨below, after, left, right, same⟩ := ih later
      exact ⟨below, after, .again old left, right, same⟩
    | @first _ _ _ inner outer new under later =>
      -- What lies below `a` does not reach into `back`, so the cut is in what comes after it.
      have ⟨below, after, left, right, same⟩ := ih later
      refine ⟨a :: inner ++ below, after, .first new under left, ?_, ?_⟩
      · have visited : (a :: inner ++ below).reverse ++ seen =
            below.reverse ++ (inner.reverse ++ a :: seen) := by
          simp only [List.cons_append, List.reverse_cons, List.reverse_append, List.append_assoc,
            List.nil_append]
        rwa [visited]
      · rw [same, List.append_assoc]

theorem mem_visited {below : List α} :
    b ∈ below.reverse ++ a :: seen ↔ b ∈ seen ∨ b ∈ a :: below := by
  rw [List.mem_append, List.mem_reverse, List.mem_cons, List.mem_cons, ← or_assoc, or_comm,
    or_comm (a := b ∈ below)]

theorem not_mem_seen (search : DepthFirst next seen pending out) (listed : a ∈ out) : a ∉ seen := by
  induction search with
  | done => cases listed
  | again _ _ ih => exact ih listed
  | first new _ _ inner outer =>
    rcases List.mem_append.mp listed with here | later
    · rcases List.mem_cons.mp here with rfl | under
      · exact new
      · exact fun old => inner under (List.mem_cons_of_mem _ old)
    · exact fun old => outer later (mem_visited.mpr (.inl old))

theorem nodup (search : DepthFirst next seen pending out) : out.Nodup := by
  induction search with
  | done => exact List.nodup_nil
  | again _ _ ih => exact ih
  | first _ under later inner outer =>
    have here := List.nodup_cons.mpr ⟨fun twice => under.not_mem_seen twice List.mem_cons_self, inner⟩
    refine List.nodup_append.mpr ⟨here, outer, ?_⟩
    rintro b listed _ twice rfl
    exact later.not_mem_seen twice (mem_visited.mpr (.inr listed))

theorem sound (search : DepthFirst next seen pending out) (listed : b ∈ out) :
    ∃ a ∈ pending, Relation.ReflTransGen (fun x y => y ∈ next x) a b := by
  induction search with
  | done => cases listed
  | again _ _ ih =>
    have ⟨a, waits, path⟩ := ih listed
    exact ⟨a, List.mem_cons_of_mem _ waits, path⟩
  | @first _ c _ _ _ _ _ _ inner outer =>
    rcases List.mem_append.mp listed with here | later
    · rcases List.mem_cons.mp here with rfl | under
      · exact ⟨b, List.mem_cons_self, .refl⟩
      · have ⟨a, step, path⟩ := inner under
        exact ⟨c, List.mem_cons_self, .head step path⟩
    · have ⟨a, waits, path⟩ := outer later
      exact ⟨a, List.mem_cons_of_mem _ waits, path⟩

theorem covers (search : DepthFirst next seen pending out) : ∀ a ∈ pending, a ∈ seen ∨ a ∈ out := by
  induction search with
  | done => exact fun _ waits => absurd waits List.not_mem_nil
  | again old _ ih => exact List.forall_mem_cons.mpr ⟨.inl old, ih⟩
  | first _ _ _ _ outer =>
    refine List.forall_mem_cons.mpr ⟨.inr List.mem_cons_self, fun a waits => ?_⟩
    rcases outer a waits with visited | listed
    · exact (mem_visited.mp visited).imp_right (List.mem_append_left _)
    · exact .inr (List.mem_append_right _ listed)

/-- What is listed leads only to what is listed or was seen before. -/
theorem closed (search : DepthFirst next seen pending out) :
    ∀ a ∈ out, ∀ b ∈ next a, b ∈ seen ∨ b ∈ out := by
  induction search with
  | done => exact fun _ listed => absurd listed List.not_mem_nil
  | again _ _ ih => exact ih
  | @first seen c rest below after _ under later inner outer =>
    have upon : ∀ x ∈ c :: below, ∀ b ∈ next x, b ∈ c :: seen ∨ b ∈ below :=
      List.forall_mem_cons.mpr ⟨under.covers, inner⟩
    intro a listed b step
    rcases List.mem_append.mp listed with here | there
    · rcases upon a here b step with old | found
      · exact (List.mem_cons.mp old).symm.imp_right (by rintro rfl; exact List.mem_cons_self)
      · exact .inr (List.mem_append_left _ (List.mem_cons_of_mem _ found))
    · rcases outer a there b step with visited | found
      · exact (mem_visited.mp visited).imp_right (List.mem_append_left _)
      · exact .inr (List.mem_append_right _ found)

theorem mem_iff (search : DepthFirst next [] pending out) :
    b ∈ out ↔ ∃ a ∈ pending, Relation.ReflTransGen (fun x y => y ∈ next x) a b := by
  constructor
  · exact search.sound
  · intro ⟨a, waits, path⟩
    induction path with
    | refl => exact (search.covers a waits).resolve_left List.not_mem_nil
    | tail _ step ih => exact (search.closed _ ih _ step).resolve_left List.not_mem_nil

end DepthFirst

namespace Index

/-- The names to which a known type leads. -/
def namesAfter (index : Index) (next : TypeDecl → List String) (name : String) : List String :=
  ((index.get? name).map next).getD []

theorem mem_namesAfter {index : Index} {next : TypeDecl → List String} {name other : String} :
    name ∈ index.namesAfter next other ↔ ∃ e, index.get? other = some e ∧ name ∈ next e := by
  rw [namesAfter]
  cases index.get? other <;> simp

/-- The names in `pending`, each followed by those it leads to, that are not in `seen`. -/
def walkFrom (index : Index) (next : TypeDecl → List String) (seen pending : List String) :
    List String :=
  match pending with
  | [] => []
  | name :: rest =>
    if _fresh : seen.contains name then index.walkFrom next seen rest
    else
      match _known : index.get? name with
      | none => name :: index.walkFrom next (name :: seen) rest
      | some d => name :: index.walkFrom next (name :: seen) (next d ++ rest)
termination_by index.remaining (fun d => (next d).length) seen + pending.length
decreasing_by
  · simp
  · have := index.remaining_cons_le (fun d => (next d).length) name seen
    simp only [List.length_cons]
    omega
  · have := remaining_cons_lt (fun d => (next d).length) _known _fresh
    simp only [List.length_append, List.length_cons]
    omega

theorem walkFrom_seen (index : Index) (next : TypeDecl → List String) {seen : List String}
    {name : String} (old : name ∈ seen) (rest : List String) :
    index.walkFrom next seen (name :: rest) = index.walkFrom next seen rest := by
  rw [walkFrom, dif_pos (List.contains_iff_mem.mpr old)]

theorem walkFrom_unseen (index : Index) (next : TypeDecl → List String) {seen : List String}
    {name : String} (new : name ∉ seen) (rest : List String) :
    index.walkFrom next seen (name :: rest) =
      name :: index.walkFrom next (name :: seen) (index.namesAfter next name ++ rest) := by
  rw [walkFrom, dif_neg (fun old => new (List.contains_iff_mem.mp old)), namesAfter]
  split <;> simp_all

theorem depthFirst_walkFrom (index : Index) (next : TypeDecl → List String)
    (seen pending : List String) :
    DepthFirst (index.namesAfter next) seen pending (index.walkFrom next seen pending) := by
  fun_induction walkFrom index next seen pending with
  | case1 => exact .done
  | case2 seen name rest old ih => exact .again (List.contains_iff_mem.mp old) ih
  | case3 seen name rest new unknown ih =>
    have leads : index.namesAfter next name = [] := by rw [namesAfter, unknown]; rfl
    have under : DepthFirst (index.namesAfter next) (name :: seen) (index.namesAfter next name) [] := by
      rw [leads]
      exact .done
    exact .first (fun old => new (List.contains_iff_mem.mpr old)) under ih
  | case4 seen name rest new d known ih =>
    have leads : index.namesAfter next name = next d := by rw [namesAfter, known]; rfl
    have ⟨below, after, under, later, same⟩ := ih.split
    rw [← leads] at under
    rw [same]
    exact .first (fun old => new (List.contains_iff_mem.mpr old)) under later

end Index

end SpringLint
