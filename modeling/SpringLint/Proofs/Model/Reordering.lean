import SpringLint.Proofs.Model.Hierarchy

/-! Hierarchies in which interfaces are listed in another order. The same types are above a type, as
far away as before, and the same of them are unknown. -/

namespace SpringLint

/-- A type and the same type with its interfaces in another order. -/
structure TypeDecl.Reordered (d e : TypeDecl) : Prop where
  interfaces : d.interfaces.Perm e.interfaces
  others : e = { d with interfaces := e.interfaces }

namespace TypeDecl.Reordered

variable {d e : TypeDecl}

theorem refl (d : TypeDecl) : d.Reordered d :=
  ⟨.refl _, rfl⟩

theorem symm (reordered : d.Reordered e) : e.Reordered d := by
  refine ⟨reordered.interfaces.symm, ?_⟩
  rw [reordered.others]

theorem name (reordered : d.Reordered e) : e.name = d.name := by
  rw [reordered.others]

theorem kind (reordered : d.Reordered e) : e.kind = d.kind := by
  rw [reordered.others]

theorem methods (reordered : d.Reordered e) : e.methods = d.methods := by
  rw [reordered.others]

theorem hasUnresolved (reordered : d.Reordered e) : e.hasUnresolved = d.hasUnresolved := by
  rw [reordered.others]

theorem parents (reordered : d.Reordered e) : d.parents.Perm e.parents := by
  have superclass : e.superclass = d.superclass := by rw [reordered.others]
  rw [TypeDecl.parents, TypeDecl.parents, superclass]
  exact reordered.interfaces.append_left _

end TypeDecl.Reordered

namespace Index

/-- Two indices that know the same types but for the order in which these list their interfaces. -/
def Reordered (index other : Index) : Prop :=
  ∀ name, Option.Rel TypeDecl.Reordered (index.get? name) (other.get? name)

/-- The type that an index knows by the name of another one. -/
def counterpart (index : Index) (d : TypeDecl) : TypeDecl :=
  (index.get? d.name).getD d

namespace Reordered

variable {index other : Index} {d e f g : TypeDecl} {name : String} {n : Nat}

theorem refl (index : Index) : index.Reordered index := by
  intro name
  cases index.get? name with
  | none => exact .none
  | some d => exact .some (.refl d)

theorem symm (reordered : index.Reordered other) : other.Reordered index := by
  intro name
  have here := reordered name
  cases known : index.get? name <;> cases found : other.get? name <;> rw [known, found] at here
  · exact .none
  · cases here
  · cases here
  · cases here with
    | some same => exact .some same.symm

theorem exists_of_get? (reordered : index.Reordered other) (known : index.get? name = some d) :
    ∃ e, other.get? name = some e ∧ d.Reordered e := by
  have here := reordered name
  cases found : other.get? name <;> rw [known, found] at here
  · cases here
  · cases here with
    | some same => exact ⟨_, rfl, same⟩

theorem get?_eq_none (reordered : index.Reordered other) (unknown : index.get? name = none) :
    other.get? name = none := by
  refine Option.eq_none_iff_forall_ne_some.mpr fun e found => ?_
  have ⟨_, known, _⟩ := reordered.symm.exists_of_get? found
  exact absurd (unknown.symm.trans known) nofun

section Same

variable (reordered : index.Reordered other) (same : d.Reordered e)
include reordered same

theorem parent (edge : index.Parent d f) : ∃ g, f.Reordered g ∧ other.Parent e g := by
  have ⟨name, named, known⟩ := edge
  have ⟨g, found, alike⟩ := reordered.exists_of_get? known
  exact ⟨g, alike, name, same.parents.mem_iff.mp named, found⟩

theorem above (path : index.Above d n f) : ∃ g, f.Reordered g ∧ other.Above e n g := by
  induction path with
  | parent edge =>
    have ⟨g, alike, onward⟩ := reordered.parent same edge
    exact ⟨g, alike, .parent onward⟩
  | ancestor _ edge ih =>
    have ⟨g, alike, path⟩ := ih
    have ⟨h, further, onward⟩ := reordered.parent alike edge
    exact ⟨h, further, .ancestor path onward⟩

theorem exists_of_mem_supertypes (listed : f ∈ index.supertypes d) :
    ∃ g ∈ other.supertypes e, f.Reordered g := by
  have ⟨n, path⟩ := mem_supertypes_iff.mp listed
  have ⟨g, alike, onward⟩ := reordered.above same path
  exact ⟨g, mem_supertypes_iff.mpr ⟨n, onward⟩, alike⟩

theorem lacksParent (lacks : index.lacksParent d = true) : other.lacksParent e = true := by
  rw [lacksParent_iff] at lacks ⊢
  rcases lacks with unresolved | ⟨name, named, unknown⟩
  · exact .inl (same.hasUnresolved.trans unresolved)
  · exact .inr ⟨name, same.parents.mem_iff.mp named, reordered.get?_eq_none unknown⟩

theorem hasUnknownSupertypes_imp (unknown : index.hasUnknownSupertypes d = true) :
    other.hasUnknownSupertypes e = true := by
  rw [hasUnknownSupertypes, Bool.or_eq_true, List.any_eq_true] at unknown ⊢
  rcases unknown with own | ⟨f, listed, lacks⟩
  · exact .inl (reordered.lacksParent same own)
  · obtain ⟨g, found, alike⟩ := reordered.exists_of_mem_supertypes same listed
    exact .inr ⟨g, found, reordered.lacksParent alike lacks⟩

theorem hasUnknownSupertypes_eq :
    index.hasUnknownSupertypes d = other.hasUnknownSupertypes e :=
  Bool.eq_iff_iff.mpr ⟨reordered.hasUnknownSupertypes_imp same,
    reordered.symm.hasUnknownSupertypes_imp same.symm⟩

end Same

theorem above_of_known (rebuilt : other.Built) (reordered : index.Reordered other)
    (same : d.Reordered e) (alike : f.Reordered g) (known : other.get? g.name = some g)
    (path : index.Above d n f) : other.Above e n g := by
  have ⟨h, still, onward⟩ := reordered.above same path
  have found := onward.known rebuilt
  rw [still.name, ← alike.name, known] at found
  cases found
  exact onward

theorem counterpart_eq (built : index.Built) (listed : f ∈ index.supertypes d)
    (alike : f.Reordered g) : index.counterpart g = f := by
  rw [counterpart, alike.name, get?_of_mem_supertypes built listed, Option.getD_some]

theorem counterpart_of_mem (built : index.Built) (reordered : index.Reordered other)
    (same : d.Reordered e) (found : g ∈ other.supertypes e) :
    index.counterpart g ∈ index.supertypes d ∧ (index.counterpart g).Reordered g := by
  have ⟨f, listed, alike⟩ := reordered.symm.exists_of_mem_supertypes same.symm found
  rw [counterpart_eq built listed alike.symm]
  exact ⟨listed, alike.symm⟩

section Built

variable (built : index.Built) (rebuilt : other.Built) (reordered : index.Reordered other)
  (same : d.Reordered e)
include built rebuilt reordered same

theorem distance_eq (listed : f ∈ index.supertypes d) (found : g ∈ other.supertypes e)
    (alike : f.Reordered g) : index.distance d f = other.distance e g := by
  refine congrArg sInf (Set.ext fun n => ⟨?_, ?_⟩)
  · exact above_of_known rebuilt reordered same alike (get?_of_mem_supertypes rebuilt found)
  · exact above_of_known built reordered.symm same.symm alike.symm
      (get?_of_mem_supertypes built listed)

/-- The same supertypes come in another order. -/
theorem perm_map_counterpart :
    (index.supertypes d).Perm ((other.supertypes e).map index.counterpart) := by
  have names : ((other.supertypes e).map index.counterpart).map (·.name) =
      (other.supertypes e).map (·.name) := by
    rw [List.map_map]
    exact List.map_congr_left fun g found =>
      (counterpart_of_mem built reordered same found).2.name.symm
  have distinct : ((other.supertypes e).map index.counterpart).Nodup :=
    (names ▸ nodup_names_supertypes rebuilt).of_map
  refine (List.perm_ext_iff_of_nodup (nodup_names_supertypes built).of_map distinct).mpr ?_
  intro f
  constructor
  · intro listed
    have ⟨g, found, alike⟩ := reordered.exists_of_mem_supertypes same listed
    exact List.mem_map.mpr ⟨g, found, counterpart_eq built listed alike⟩
  · intro member
    have ⟨g, found, equal⟩ := List.mem_map.mp member
    exact equal ▸ (counterpart_of_mem built reordered same found).1

theorem pairwise_map_counterpart : ((other.supertypes e).map index.counterpart).Pairwise
    fun s t => index.distance d s ≤ index.distance d t := by
  refine List.pairwise_map.mpr ((pairwise_supertypes rebuilt).imp_of_mem fun first second level => ?_)
  have ⟨here, one⟩ := counterpart_of_mem built reordered same first
  have ⟨there, two⟩ := counterpart_of_mem built reordered same second
  rwa [distance_eq built rebuilt reordered same here first one,
    distance_eq built rebuilt reordered same there second two]

end Built

end Reordered

end Index

end SpringLint
