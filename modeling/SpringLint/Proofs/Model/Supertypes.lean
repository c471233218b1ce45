import Mathlib.Data.List.Nodup
import Mathlib.Logic.Relation
import Mathlib.Order.Lattice.Nat
import SpringLint.Proofs.Model.Index

/-! The types above a type. The search by levels lists those that are known, each of them once and the
nearer first; what it leaves out is not above the type. -/

namespace SpringLint.Index

variable {index : Index} {d e f : TypeDecl} {m n : Nat} {name : String} {seen : List String}
  {next : Option String} {pending rest : List (Nat × String)}

/-- A type names another one, which is known, as a direct supertype. -/
def Parent (index : Index) (d e : TypeDecl) : Prop :=
  ∃ name ∈ d.parents, index.get? name = some e

/-- A path of so many edges leads from a type up to a known one, by way of known ones. -/
inductive Above (index : Index) (d : TypeDecl) : Nat → TypeDecl → Prop
  | parent {e : TypeDecl} : index.Parent d e → Above index d 1 e
  | ancestor {n : Nat} {e f : TypeDecl} :
      Above index d n e → index.Parent e f → Above index d (n + 1) f

/-- The number of edges on a shortest path. -/
noncomputable def distance (index : Index) (d e : TypeDecl) : Nat :=
  sInf {n | index.Above d n e}

/-- The search for supertypes, with the level at which a name waits and a type is found. -/
def levelsFrom (index : Index) (seen : List String) (pending : List (Nat × String)) :
    List (Nat × TypeDecl) :=
  match pending with
  | [] => []
  | (n, name) :: rest =>
    if _fresh : seen.contains name then index.levelsFrom seen rest
    else
      match _known : index.get? name with
      | none => index.levelsFrom seen rest
      | some d => (n, d) :: index.levelsFrom (name :: seen) (rest ++ d.parents.map (n + 1, ·))
termination_by index.remaining (·.parents.length) seen + pending.length
decreasing_by
  · simp
  · simp
  · have := remaining_cons_lt (·.parents.length) _known _fresh
    simp only [List.length_append, List.length_map, List.length_cons]
    omega

def levels (index : Index) (d : TypeDecl) : List (Nat × TypeDecl) :=
  index.levelsFrom [] (d.parents.map (1, ·))

theorem map_levelsFrom (index : Index) (seen : List String) (pending : List (Nat × String)) :
    (index.levelsFrom seen pending).map (·.2) = index.supertypesFrom seen (pending.map (·.2)) := by
  fun_induction levelsFrom index seen pending with
  | case1 => simp [supertypesFrom]
  | case2 seen n name rest old ih =>
    rw [ih, List.map_cons, supertypesFrom, dif_pos old]
  | case3 seen n name rest new unknown ih =>
    rw [ih, List.map_cons, supertypesFrom, dif_neg new]
    split <;> simp_all
  | case4 seen n name rest new d known ih =>
    rw [List.map_cons, ih, List.map_cons, supertypesFrom, dif_neg new]
    split <;> simp_all

theorem supertypes_eq (index : Index) (d : TypeDecl) :
    index.supertypes d = (index.levels d).map (·.2) := by
  rw [levels, map_levelsFrom, List.map_map]
  exact congrArg _ (List.map_id _).symm

/-- The names that wait do so in the order of their levels, of which there are at most two. -/
structure Graded (pending : List (Nat × String)) : Prop where
  ordered : pending.Pairwise fun a b => a.1 ≤ b.1
  narrow : ∀ a ∈ pending, ∀ b ∈ pending, b.1 ≤ a.1 + 1

theorem fst_of_mem_map {a : Nat × String} {names : List String} (member : a ∈ names.map (n, ·)) :
    a.1 = n :=
  have ⟨_, _, same⟩ := List.mem_map.mp member
  congrArg Prod.fst same.symm

theorem graded_level (n : Nat) (names : List String) : Graded (names.map (n, ·)) where
  ordered := List.pairwise_map.mpr (List.pairwise_of_forall fun _ _ => Nat.le_refl n)
  narrow a first b second := by
    rw [fst_of_mem_map first, fst_of_mem_map second]
    exact Nat.le_succ n

theorem le_of_mem_push (least : ∀ a ∈ rest, n ≤ a.1) (names : List String) :
    ∀ a ∈ rest ++ names.map (n + 1, ·), n ≤ a.1 :=
  List.forall_mem_append.mpr
    ⟨least, fun _ member => Nat.le_of_succ_le (Nat.le_of_eq (fst_of_mem_map member).symm)⟩

namespace Graded

theorem head_le (graded : Graded ((n, name) :: rest)) : ∀ a ∈ rest, n ≤ a.1 :=
  (List.pairwise_cons.mp graded.ordered).1

theorem tail (graded : Graded ((n, name) :: rest)) : Graded rest where
  ordered := (List.pairwise_cons.mp graded.ordered).2
  narrow a first b second :=
    graded.narrow a (List.mem_cons_of_mem _ first) b (List.mem_cons_of_mem _ second)

theorem push (graded : Graded ((n, name) :: rest)) (names : List String) :
    Graded (rest ++ names.map (n + 1, ·)) := by
  have below : ∀ a ∈ rest, a.1 ≤ n + 1 := fun a member =>
    graded.narrow _ List.mem_cons_self a (List.mem_cons_of_mem _ member)
  have most : ∀ a ∈ rest ++ names.map (n + 1, ·), a.1 ≤ n + 1 :=
    List.forall_mem_append.mpr ⟨below, fun _ member => Nat.le_of_eq (fst_of_mem_map member)⟩
  constructor
  · refine List.pairwise_append.mpr
      ⟨graded.tail.ordered, (graded_level _ names).ordered, fun a first b second => ?_⟩
    rw [fst_of_mem_map second]
    exact below a first
  · intro a first b second
    have least : n ≤ a.1 := le_of_mem_push graded.head_le names a first
    exact Nat.le_trans (most b second) (Nat.succ_le_succ least)

end Graded

theorem le_of_mem_levelsFrom (least : ∀ a ∈ pending, n ≤ a.1) {x : Nat × TypeDecl}
    (found : x ∈ index.levelsFrom seen pending) : n ≤ x.1 := by
  fun_induction levelsFrom index seen pending with
  | case1 => cases found
  | case2 seen k name rest old ih => exact ih (List.forall_mem_cons.mp least).2 found
  | case3 seen k name rest new unknown ih => exact ih (List.forall_mem_cons.mp least).2 found
  | case4 seen k name rest new d known ih =>
    have ⟨here, later⟩ := List.forall_mem_cons.mp least
    rcases List.mem_cons.mp found with rfl | found
    · exact here
    · have next : ∀ a ∈ d.parents.map (k + 1, ·), n ≤ a.1 := fun a member => by
        rw [fst_of_mem_map member]
        exact Nat.le_succ_of_le here
      exact ih (List.forall_mem_append.mpr ⟨later, next⟩) found

theorem Graded.levelsFrom (graded : Graded pending) :
    (index.levelsFrom seen pending).Pairwise fun a b => a.1 ≤ b.1 := by
  fun_induction Index.levelsFrom index seen pending with
  | case1 => exact List.Pairwise.nil
  | case2 seen k name rest old ih => exact ih graded.tail
  | case3 seen k name rest new unknown ih => exact ih graded.tail
  | case4 seen k name rest new d known ih =>
    exact List.pairwise_cons.mpr
      ⟨fun x found => le_of_mem_levelsFrom (le_of_mem_push graded.head_le _) found, ih (graded.push _)⟩

theorem above_of_mem_levelsFrom
    (waiting : ∀ a ∈ pending, ∀ e, index.get? a.2 = some e → index.Above d a.1 e)
    {x : Nat × TypeDecl} (found : x ∈ index.levelsFrom seen pending) : index.Above d x.1 x.2 := by
  fun_induction levelsFrom index seen pending with
  | case1 => cases found
  | case2 seen k name rest old ih => exact ih (List.forall_mem_cons.mp waiting).2 found
  | case3 seen k name rest new unknown ih => exact ih (List.forall_mem_cons.mp waiting).2 found
  | case4 seen k name rest new e known ih =>
    have ⟨here, later⟩ := List.forall_mem_cons.mp waiting
    have reached := here e known
    rcases List.mem_cons.mp found with rfl | found
    · exact reached
    · refine ih (List.forall_mem_append.mpr ⟨later, fun a member f onward => ?_⟩) found
      obtain ⟨parent, named, rfl⟩ := List.mem_map.mp member
      exact .ancestor reached ⟨parent, named, onward⟩

theorem Graded.exists_level (graded : Graded pending) {a : Nat × String} (waits : a ∈ pending)
    (known : index.get? a.2 = some e) :
    a.2 ∈ seen ∨ ∃ m ≤ a.1, (m, e) ∈ index.levelsFrom seen pending := by
  fun_induction Index.levelsFrom index seen pending with
  | case1 => cases waits
  | case2 seen k name rest old ih =>
    rcases List.mem_cons.mp waits with rfl | waits
    · exact .inl (List.contains_iff_mem.mp old)
    · exact ih graded.tail waits
  | case3 seen k name rest new unknown ih =>
    rcases List.mem_cons.mp waits with rfl | waits
    · exact absurd (unknown.symm.trans known) nofun
    · exact ih graded.tail waits
  | case4 seen k name rest new f here ih =>
    -- The name may wait again further back, but it is found here, at the least of its levels.
    by_cases same : a.2 = name
    · have least : k ≤ a.1 := by
        rcases List.mem_cons.mp waits with rfl | waits
        · exact Nat.le_refl k
        · exact graded.head_le a waits
      rw [same, here] at known
      cases known
      exact .inr ⟨k, least, List.mem_cons_self⟩
    · have later : a ∈ rest ++ f.parents.map (k + 1, ·) := by
        rcases List.mem_cons.mp waits with rfl | waits
        · exact absurd rfl same
        · exact List.mem_append_left _ waits
      rcases ih (graded.push _) later with old | ⟨m, level, found⟩
      · exact .inl ((List.mem_cons.mp old).resolve_left same)
      · exact .inr ⟨m, level, List.mem_cons_of_mem _ found⟩

theorem Graded.exists_next_level (graded : Graded pending) {x : Nat × TypeDecl}
    (found : x ∈ index.levelsFrom seen pending) (named : name ∈ x.2.parents)
    (known : index.get? name = some e) :
    name ∈ seen ∨ ∃ m ≤ x.1 + 1, (m, e) ∈ index.levelsFrom seen pending := by
  fun_induction Index.levelsFrom index seen pending with
  | case1 => cases found
  | case2 seen k other rest old ih => exact ih graded.tail found
  | case3 seen k other rest new unknown ih => exact ih graded.tail found
  | case4 seen k other rest new f here ih =>
    have more := graded.push f.parents
    have least : k ≤ x.1 := by
      rcases List.mem_cons.mp found with rfl | found
      · exact Nat.le_refl k
      · exact le_of_mem_levelsFrom (le_of_mem_push graded.head_le _) found
    have later : name ∈ other :: seen ∨ ∃ m ≤ x.1 + 1,
        (m, e) ∈ index.levelsFrom (other :: seen) (rest ++ f.parents.map (k + 1, ·)) := by
      rcases List.mem_cons.mp found with rfl | found
      · have waits : (k + 1, name) ∈ rest ++ f.parents.map (k + 1, ·) :=
          List.mem_append_right _ (List.mem_map_of_mem named)
        exact more.exists_level waits known
      · exact ih more found
    -- Later, the name that has just been taken counts as seen.
    by_cases same : name = other
    · rw [same, here] at known
      cases known
      exact .inr ⟨k, Nat.le_succ_of_le least, List.mem_cons_self⟩
    · rcases later with old | ⟨m, level, found⟩
      · exact .inl ((List.mem_cons.mp old).resolve_left same)
      · exact .inr ⟨m, level, List.mem_cons_of_mem _ found⟩

theorem get?_of_mem_levelsFrom (built : index.Built) {x : Nat × TypeDecl}
    (found : x ∈ index.levelsFrom seen pending) :
    index.get? x.2.name = some x.2 ∧ x.2.name ∉ seen := by
  fun_induction levelsFrom index seen pending with
  | case1 => cases found
  | case2 seen k name rest old ih => exact ih found
  | case3 seen k name rest new unknown ih => exact ih found
  | case4 seen k name rest new d known ih =>
    rcases List.mem_cons.mp found with rfl | found
    · have same : d.name = name := built.name_eq known
      rw [same]
      exact ⟨known, fun old => new (List.contains_iff_mem.mpr old)⟩
    · have ⟨own, unseen⟩ := ih found
      exact ⟨own, fun old => unseen (List.mem_cons_of_mem _ old)⟩

theorem nodup_levelsFrom (built : index.Built) :
    ((index.levelsFrom seen pending).map fun x => x.2.name).Nodup := by
  fun_induction levelsFrom index seen pending with
  | case1 => exact List.nodup_nil
  | case2 seen k name rest old ih => exact ih
  | case3 seen k name rest new unknown ih => exact ih
  | case4 seen k name rest new d known ih =>
    refine List.nodup_cons.mpr ⟨fun again => ?_, ih⟩
    obtain ⟨x, found, same⟩ := List.mem_map.mp again
    have same : x.2.name = d.name := same
    have unseen := (get?_of_mem_levelsFrom built found).2
    rw [same, built.name_eq known] at unseen
    exact unseen List.mem_cons_self

/-- A path that leads to a type bounds the level at which the type is found. -/
theorem exists_level_of_above (above : index.Above d n e) : ∃ m ≤ n, (m, e) ∈ index.levels d := by
  have graded := graded_level 1 d.parents
  induction above with
  | parent edge =>
    obtain ⟨name, named, known⟩ := edge
    exact (graded.exists_level (List.mem_map_of_mem named) known).resolve_left List.not_mem_nil
  | ancestor _ edge ih =>
    obtain ⟨m, level, found⟩ := ih
    obtain ⟨name, named, known⟩ := edge
    obtain ⟨k, next, reached⟩ :=
      (graded.exists_next_level found named known).resolve_left List.not_mem_nil
    exact ⟨k, Nat.le_trans next (Nat.succ_le_succ level), reached⟩

theorem above_of_mem_levels {x : Nat × TypeDecl} (found : x ∈ index.levels d) :
    index.Above d x.1 x.2 := by
  refine above_of_mem_levelsFrom (fun a waits e known => ?_) found
  obtain ⟨name, named, rfl⟩ := List.mem_map.mp waits
  exact .parent ⟨name, named, known⟩

theorem mem_supertypes_iff : e ∈ index.supertypes d ↔ ∃ n, index.Above d n e := by
  rw [supertypes_eq]
  constructor
  · intro listed
    obtain ⟨x, found, rfl⟩ := List.mem_map.mp listed
    exact ⟨x.1, above_of_mem_levels found⟩
  · intro ⟨n, above⟩
    obtain ⟨m, -, found⟩ := exists_level_of_above above
    exact List.mem_map_of_mem found

section Built

variable (built : index.Built)
include built

theorem nodup_names_supertypes : ((index.supertypes d).map (·.name)).Nodup := by
  rw [supertypes_eq, List.map_map]
  exact nodup_levelsFrom built

theorem distance_eq (found : (n, e) ∈ index.levels d) : index.distance d e = n := by
  have reached : {n | index.Above d n e}.Nonempty := ⟨n, above_of_mem_levels found⟩
  obtain ⟨m, shortest, also⟩ := exists_level_of_above (Nat.sInf_mem reached)
  have same : (m, e) = (n, e) :=
    List.inj_on_of_nodup_map (nodup_levelsFrom built) also found rfl
  cases same
  exact Nat.le_antisymm (Nat.sInf_le (above_of_mem_levels found)) shortest

theorem pairwise_supertypes :
    (index.supertypes d).Pairwise fun a b => index.distance d a ≤ index.distance d b := by
  rw [supertypes_eq]
  refine List.pairwise_map.mpr ?_
  refine (graded_level 1 d.parents).levelsFrom.imp_of_mem fun first second level => ?_
  rwa [distance_eq built first, distance_eq built second]

theorem Above.known (above : index.Above d n e) : index.get? e.name = some e := by
  have known : ∀ {f}, index.Parent f e → index.get? e.name = some e := fun ⟨name, _, known⟩ => by
    rwa [built.name_eq known]
  cases above with
  | parent edge => exact known edge
  | ancestor _ edge => exact known edge

theorem get?_of_mem_supertypes (listed : e ∈ index.supertypes d) : index.get? e.name = some e := by
  have ⟨_, above⟩ := mem_supertypes_iff.mp listed
  exact above.known built

end Built

end SpringLint.Index
