import SpringLint.Proofs.Model.Supertypes
import SpringLint.Proofs.Table

/-! The hierarchy of the types in an index, which may be cyclic and may name types that are unknown:
the superclasses of a type, its subtypes, and whether all that is above it is known. -/

namespace SpringLint.Index

variable {index : Index} {d e f : TypeDecl} {n : Nat} {name target : String} {seen : List String}
  {next : Option String}

/-- The name so many superclass edges after `next`. -/
def nameAfter (index : Index) (next : Option String) : Nat → Option String
  | 0 => next
  | n + 1 => index.nameAfter (next.bind fun name => (index.get? name).bind (·.superclass)) n

/-- A known superclass, so many edges above the direct one. -/
def SuperclassAfter (index : Index) (d : TypeDecl) (n : Nat) (e : TypeDecl) : Prop :=
  ∃ name, index.nameAfter d.superclass n = some name ∧ index.get? name = some e

/-- The path along the superclasses of a type, up to a name that is unknown or comes again. -/
structure IsSuperclassPath (index : Index) (d : TypeDecl) (path : List TypeDecl) : Prop where
  along : ∀ n (h : n < path.length),
    ∃ name, index.nameAfter d.superclass n = some name ∧ index.get? name = some path[n]
  apart : (path.map (·.name)).Nodup
  ends : ∀ name, index.nameAfter d.superclass path.length = some name →
    index.get? name = none ∨ name ∈ path.map (·.name)

theorem nameAfter_succ (known : index.get? name = some d) (n : Nat) :
    index.nameAfter (some name) (n + 1) = index.nameAfter d.superclass n := by
  rw [nameAfter, Option.bind_some, known, Option.bind_some]

theorem nameAfter_succ_eq_bind (index : Index) (next : Option String) (n : Nat) :
    index.nameAfter next (n + 1) =
      (index.nameAfter next n).bind fun name => (index.get? name).bind (·.superclass) := by
  induction n generalizing next with
  | zero => rfl
  | succ n ih => exact ih _

theorem nameAfter_none (index : Index) (n : Nat) : index.nameAfter none n = none := by
  induction n with
  | zero => rfl
  | succ n ih => exact ih

theorem superclassAfter_zero :
    index.SuperclassAfter d 0 e ↔ d.superclass.bind index.get? = some e :=
  Option.bind_eq_some_iff.symm

theorem superclassAfter_succ : index.SuperclassAfter d (n + 1) e ↔
    ∃ f, d.superclass.bind index.get? = some f ∧ index.SuperclassAfter f n e := by
  have step : index.nameAfter d.superclass (n + 1) =
      index.nameAfter ((d.superclass.bind index.get?).bind (·.superclass)) n := by
    rw [nameAfter, Option.bind_assoc]
  rw [SuperclassAfter, step]
  cases d.superclass.bind index.get? with
  | none => simp only [Option.bind_none, nameAfter_none, reduceCtorEq, false_and, exists_false]
  | some f => simp only [Option.bind_some, Option.some.injEq, exists_eq_left', SuperclassAfter]

theorem superclassesFrom_along (h : n < (index.superclassesFrom seen next).length) :
    ∃ name, index.nameAfter next n = some name ∧
      index.get? name = some (index.superclassesFrom seen next)[n] := by
  fun_induction superclassesFrom index seen next generalizing n with
  | case1 => cases h
  | case2 => cases h
  | case3 => cases h
  | case4 seen name new d known ih =>
    cases n with
    | zero => exact ⟨name, rfl, known⟩
    | succ n =>
      rw [nameAfter_succ known, List.getElem_cons_succ]
      exact ih (Nat.lt_of_succ_lt_succ h)

theorem not_mem_seen_of_mem_superclassesFrom (built : index.Built)
    (listed : e ∈ index.superclassesFrom seen next) : e.name ∉ seen := by
  fun_induction superclassesFrom index seen next with
  | case1 => cases listed
  | case2 => cases listed
  | case3 => cases listed
  | case4 seen name new d known ih =>
    rcases List.mem_cons.mp listed with rfl | listed
    · rw [built.name_eq known]
      exact fun old => new (List.contains_iff_mem.mpr old)
    · exact fun old => ih listed (List.mem_cons_of_mem _ old)

theorem nodup_superclassesFrom (built : index.Built) :
    ((index.superclassesFrom seen next).map (·.name)).Nodup := by
  fun_induction superclassesFrom index seen next with
  | case1 => exact List.nodup_nil
  | case2 => exact List.nodup_nil
  | case3 => exact List.nodup_nil
  | case4 seen name new d known ih =>
    refine List.nodup_cons.mpr ⟨fun again => ?_, ih⟩
    obtain ⟨e, listed, same⟩ := List.mem_map.mp again
    have same : e.name = name := same.trans (built.name_eq known)
    have fresh : e.name ∉ name :: seen := not_mem_seen_of_mem_superclassesFrom built listed
    exact fresh (same ▸ List.mem_cons_self)

theorem superclassesFrom_ends (built : index.Built)
    (after : index.nameAfter next (index.superclassesFrom seen next).length = some name) :
    index.get? name = none ∨ name ∈ seen ∨
      name ∈ (index.superclassesFrom seen next).map (·.name) := by
  fun_induction superclassesFrom index seen next with
  | case1 => cases after
  | case2 seen other old =>
    cases after
    exact .inr (.inl (List.contains_iff_mem.mp old))
  | case3 seen other new unknown =>
    cases after
    exact .inl unknown
  | case4 seen other new d known ih =>
    rw [List.length_cons, nameAfter_succ known] at after
    rw [List.map_cons, List.mem_cons, built.name_eq known]
    rcases ih after with unknown | old | later
    · exact .inl unknown
    · rcases List.mem_cons.mp old with here | old
      · exact .inr (.inr (.inl here))
      · exact .inr (.inl old)
    · exact .inr (.inr (.inr later))

theorem isSuperclassPath_superclasses (built : index.Built) (d : TypeDecl) :
    index.IsSuperclassPath d (index.superclasses d) where
  along _ h := superclassesFrom_along h
  apart := nodup_superclassesFrom built
  ends _ after := (superclassesFrom_ends built after).imp_right fun again =>
    again.resolve_left List.not_mem_nil

namespace IsSuperclassPath

variable {path other : List TypeDecl}

theorem getElem_eq (first : index.IsSuperclassPath d path) (second : index.IsSuperclassPath d other)
    (inside : n < path.length) (within : n < other.length) : path[n] = other[n] := by
  have ⟨name, here, known⟩ := first.along n inside
  have ⟨same, there, found⟩ := second.along n within
  cases here.symm.trans there
  exact Option.some.inj (known.symm.trans found)

theorem length_le (built : index.Built) (first : index.IsSuperclassPath d path)
    (second : index.IsSuperclassPath d other) : path.length ≤ other.length := by
  by_contra longer
  have inside : other.length < path.length := Nat.lt_of_not_le longer
  have ⟨name, here, known⟩ := first.along other.length inside
  have again : name ∈ other.map (·.name) :=
    (second.ends name here).resolve_left fun unknown => absurd (unknown.symm.trans known) nofun
  have ⟨n, within, same⟩ := List.mem_iff_getElem.mp again
  rw [List.length_map] at within
  rw [List.getElem_map, ← first.getElem_eq second (within.trans inside) within,
    ← built.name_eq known] at same
  have equal : path[n] = path[other.length] :=
    List.inj_on_of_nodup_map first.apart (List.getElem_mem _) (List.getElem_mem _) same
  exact absurd (first.apart.of_map.getElem_inj_iff.mp equal) (Nat.ne_of_lt within)

theorem unique (built : index.Built) (first : index.IsSuperclassPath d path)
    (second : index.IsSuperclassPath d other) : path = other :=
  List.ext_getElem (Nat.le_antisymm (first.length_le built second) (second.length_le built first))
    fun _ inside within => first.getElem_eq second inside within

theorem exists_of_mem (built : index.Built) (own : index.IsSuperclassPath d path) (listed : e ∈ path) :
    ∃ n < path.length, index.nameAfter d.superclass n = some e.name ∧
      index.get? e.name = some e := by
  have ⟨n, inside, same⟩ := List.mem_iff_getElem.mp listed
  have ⟨name, here, known⟩ := own.along n inside
  rw [same] at known
  cases built.name_eq known
  exact ⟨n, inside, here, known⟩

theorem mem_of_le (built : index.Built) (own : index.IsSuperclassPath d path) (near : n ≤ path.length)
    (after : index.nameAfter d.superclass n = some name) (known : index.get? name = some e) :
    e ∈ path := by
  rcases Nat.lt_or_eq_of_le near with inside | rfl
  · have ⟨same, here, found⟩ := own.along n inside
    cases after.symm.trans here
    cases known.symm.trans found
    exact List.getElem_mem inside
  · have again := (own.ends name after).resolve_left fun unknown =>
      absurd (unknown.symm.trans known) nofun
    have ⟨f, listed, named⟩ := List.mem_map.mp again
    have ⟨_, _, _, found⟩ := own.exists_of_mem built listed
    rw [named, known] at found
    cases found
    exact listed

/-- The path misses no superclass: where it ends, the superclasses are unknown or come again. -/
theorem mem_iff (built : index.Built) (own : index.IsSuperclassPath d path) :
    e ∈ path ↔ ∃ n, index.SuperclassAfter d n e := by
  constructor
  · intro listed
    have ⟨n, _, after, known⟩ := own.exists_of_mem built listed
    exact ⟨n, e.name, after, known⟩
  · rintro ⟨n, name, after, known⟩
    induction n generalizing name e with
    | zero => exact own.mem_of_le built (Nat.zero_le _) after known
    | succ n ih =>
      rw [nameAfter_succ_eq_bind] at after
      have ⟨before, here, onward⟩ := Option.bind_eq_some_iff.mp after
      have ⟨f, found, edge⟩ := Option.bind_eq_some_iff.mp onward
      have ⟨m, inside, there, again⟩ := own.exists_of_mem built (ih before here found)
      refine own.mem_of_le built (Nat.succ_le_of_lt inside) ?_ known
      rw [nameAfter_succ_eq_bind, there, Option.bind_some, again, Option.bind_some, edge]

theorem length_le_size (built : index.Built) (own : index.IsSuperclassPath d path) :
    path.length ≤ index.size := by
  have among : path.map (·.name) ⊆ index.types.names := fun name listed => by
    have ⟨e, here, named⟩ := List.mem_map.mp listed
    have ⟨_, _, _, known⟩ := own.exists_of_mem built here
    rw [named] at known
    exact Table.mem_names_iff.mpr (Option.isSome_iff_exists.mpr ⟨e, known⟩)
  have bound := (own.apart.subperm among).length_le
  rwa [List.length_map, Table.names, List.length_map] at bound

end IsSuperclassPath

/-- A known type and one of its direct supertypes, which is known as well, by their names. -/
def Extends (index : Index) (name parent : String) : Prop :=
  ∃ d e, index.get? name = some d ∧ parent ∈ d.parents ∧ index.get? parent = some e

theorem isSubtype_iff_above : index.isSubtype name target = true ↔
    name = target ∨ ∃ d n e, index.get? name = some d ∧ index.Above d n e ∧ e.name = target := by
  rw [isSubtype, Bool.or_eq_true, beq_iff_eq]
  refine or_congr Iff.rfl ?_
  cases known : index.get? name with
  | none => simp only [Bool.false_eq_true, reduceCtorEq, false_and, exists_false]
  | some d =>
    constructor
    · intro found
      have ⟨e, listed, named⟩ := List.any_eq_true.mp found
      have ⟨n, above⟩ := mem_supertypes_iff.mp listed
      exact ⟨d, n, e, rfl, above, beq_iff_eq.mp named⟩
    · rintro ⟨_, n, e, same, above, named⟩
      cases same
      have listed : e ∈ index.supertypes d := mem_supertypes_iff.mpr ⟨n, above⟩
      exact List.any_eq_true.mpr ⟨e, listed, beq_iff_eq.mpr named⟩

section Built

variable (built : index.Built)
include built

theorem Above.extends (above : index.Above d n e) (known : index.get? name = some d) :
    Relation.ReflTransGen index.Extends name e.name := by
  induction above with
  | parent edge =>
    obtain ⟨parent, named, found⟩ := edge
    rw [built.name_eq found]
    exact .single ⟨d, _, known, named, found⟩
  | ancestor below edge ih =>
    obtain ⟨parent, named, found⟩ := edge
    rw [built.name_eq found]
    exact ih.tail ⟨_, _, below.known built, named, found⟩

/-- A subtype is below its supertype by steps from a known type to a known direct supertype. -/
theorem isSubtype_iff : index.isSubtype name target = true ↔
    Relation.ReflTransGen index.Extends name target := by
  rw [isSubtype_iff_above]
  constructor
  · rintro (rfl | ⟨d, n, e, known, above, rfl⟩)
    · exact .refl
    · exact above.extends built known
  · intro path
    induction path with
    | refl => exact .inl rfl
    | @tail b c _ edge ih =>
      obtain ⟨f, g, found, named, known⟩ := edge
      have own : g.name = c := built.name_eq known
      have onward : index.Parent f g := ⟨c, named, known⟩
      rcases ih with rfl | ⟨d, n, e, here, above, rfl⟩
      · exact .inr ⟨f, 1, g, found, .parent onward, own⟩
      · have same : some e = some f := (above.known built).symm.trans found
        cases same
        exact .inr ⟨d, n + 1, g, here, .ancestor above onward, own⟩

end Built

theorem lacksParent_iff : index.lacksParent d = true ↔
    d.hasUnresolved = true ∨ ∃ name ∈ d.parents, index.get? name = none := by
  simp only [lacksParent, Bool.or_eq_true, List.any_eq_true, Option.isNone_iff_eq_none]

theorem hasUnknownSupertypes_iff : index.hasUnknownSupertypes d = true ↔
    ∃ e, (e = d ∨ ∃ n, index.Above d n e) ∧
      (e.hasUnresolved = true ∨ ∃ name ∈ e.parents, index.get? name = none) := by
  rw [hasUnknownSupertypes, Bool.or_eq_true, List.any_eq_true]
  constructor
  · rintro (own | ⟨e, listed, lacks⟩)
    · exact ⟨d, .inl rfl, lacksParent_iff.mp own⟩
    · exact ⟨e, .inr (mem_supertypes_iff.mp listed), lacksParent_iff.mp lacks⟩
  · rintro ⟨e, rfl | above, lacks⟩
    · exact .inl (lacksParent_iff.mpr lacks)
    · exact .inr ⟨e, mem_supertypes_iff.mpr above, lacksParent_iff.mpr lacks⟩

/-- What the searches through a hierarchy find, whether or not it is cyclic. -/
theorem hierarchy_of_built (built : index.Built) :
    (∀ d, ((index.supertypes d).map (·.name)).Nodup ∧
      (∀ e, e ∈ index.supertypes d ↔ ∃ n, index.Above d n e) ∧
      (index.supertypes d).Pairwise (fun e f => index.distance d e ≤ index.distance d f) ∧
      (∀ path, index.IsSuperclassPath d path ↔ path = index.superclasses d) ∧
      (index.hasUnknownSupertypes d = true ↔
        ∃ e, (e = d ∨ ∃ n, index.Above d n e) ∧
          (e.hasUnresolved = true ∨ ∃ name ∈ e.parents, index.get? name = none))) ∧
    (∀ a b, index.isSubtype a b = true ↔ Relation.ReflTransGen index.Extends a b) ∧
    (∀ a, index.isSubtype a a = true) ∧
    ∀ a b c, index.isSubtype a b = true → index.isSubtype b c = true → index.isSubtype a c = true := by
  have below : ∀ a b, index.isSubtype a b = true ↔ Relation.ReflTransGen index.Extends a b :=
    fun _ _ => isSubtype_iff built
  have paths : ∀ d path, index.IsSuperclassPath d path ↔ path = index.superclasses d :=
    fun d path => by
      have own := isSuperclassPath_superclasses built d
      constructor
      · intro other
        exact other.unique built own
      · intro same
        rwa [same]
  refine ⟨fun d => ⟨nodup_names_supertypes built, fun _ => mem_supertypes_iff,
    pairwise_supertypes built, paths d, hasUnknownSupertypes_iff⟩, below, fun a => ?_, ?_⟩
  · exact (below a a).mpr .refl
  · intro a b c first second
    exact (below a c).mpr (((below a b).mp first).trans ((below b c).mp second))

def childOf (superclass name : String) : TypeDecl where
  name := name
  simpleName := name
  kind := .classType
  superclass := some superclass

theorem hierarchy_of_built_cycle :
    let index := ({} : Index).insertAll [childOf "B" "A", childOf "A" "B"]
    index.Built ∧ Relation.ReflTransGen index.Extends "A" "B" ∧
      index.IsSuperclassPath (childOf "B" "A") [childOf "A" "B", childOf "B" "A"] := by
  intro index
  have built : index.Built := Built.empty.insertAll _
  have ⟨types, below, _⟩ := hierarchy_of_built built
  refine ⟨built, (below "A" "B").mp ?_, ((types _).2.2.2.1 _).mpr ?_⟩
  · decide +kernel
  · decide +kernel

end SpringLint.Index
