import SpringLint.Proofs.Model.Search

/-! The interfaces of a type: those that it and its superclasses name and all that these extend, in the
order of a depth-first search. -/

namespace SpringLint.Index

variable {index : Index} {d : TypeDecl} {name : String}

/-- The interfaces that a type has, known or not. Only a known one leads to others. -/
inductive Implements (index : Index) (d : TypeDecl) : String → Prop
  | own {name : String} : name ∈ d.interfaces → Implements index d name
  | inherited {e : TypeDecl} {name : String} :
      e ∈ index.superclasses d → name ∈ e.interfaces → Implements index d name
  | extended {e : TypeDecl} {other name : String} :
      Implements index d other → index.get? other = some e → name ∈ e.interfaces →
      Implements index d name

def interfaceRoots (index : Index) (d : TypeDecl) : List String :=
  (d :: index.superclasses d).flatMap (·.interfaces)

theorem interfacesFrom_eq (index : Index) (seen pending : List String) :
    index.interfacesFrom seen pending = index.walkFrom (·.interfaces) seen pending := by
  fun_induction interfacesFrom index seen pending with
  | case1 => rw [walkFrom]
  | case2 seen name rest old ih => rw [walkFrom_seen index _ (List.contains_iff_mem.mp old), ih]
  | case3 seen name rest new unknown ih =>
    rw [walkFrom_unseen index _ (fun old => new (List.contains_iff_mem.mpr old)), namesAfter, unknown, ih]
    rfl
  | case4 seen name rest new d known ih =>
    rw [walkFrom_unseen index _ (fun old => new (List.contains_iff_mem.mpr old)), namesAfter, known, ih]
    rfl

theorem depthFirst_implementedInterfaces (index : Index) (d : TypeDecl) :
    DepthFirst (index.namesAfter (·.interfaces)) [] (index.interfaceRoots d)
      (index.implementedInterfaces d) := by
  rw [implementedInterfaces, interfacesFrom_eq]
  exact depthFirst_walkFrom index _ [] _

theorem implements_iff : index.Implements d name ↔
    ∃ root ∈ index.interfaceRoots d,
      Relation.ReflTransGen (fun x y => y ∈ index.namesAfter (·.interfaces) x) root name := by
  constructor
  · intro implements
    induction implements with
    | own named =>
      exact ⟨_, List.mem_flatMap.mpr ⟨d, List.mem_cons_self, named⟩, .refl⟩
    | inherited above named =>
      exact ⟨_, List.mem_flatMap.mpr ⟨_, List.mem_cons_of_mem _ above, named⟩, .refl⟩
    | extended _ known named ih =>
      have ⟨root, start, path⟩ := ih
      exact ⟨root, start, path.tail (mem_namesAfter.mpr ⟨_, known, named⟩)⟩
  · intro ⟨root, start, path⟩
    induction path with
    | refl =>
      have ⟨e, self, named⟩ := List.mem_flatMap.mp start
      rcases List.mem_cons.mp self with rfl | above
      · exact .own named
      · exact .inherited above named
    | tail _ step ih =>
      have ⟨e, known, named⟩ := mem_namesAfter.mp step
      exact .extended ih known named

/-- A type's interfaces are listed once each, and in one order only: that of the search. -/
theorem implementedInterfaces_spec (index : Index) (d : TypeDecl) :
    (index.implementedInterfaces d).Nodup ∧
    (∀ name, name ∈ index.implementedInterfaces d ↔ index.Implements d name) ∧
    ∀ out, DepthFirst (index.namesAfter (·.interfaces)) [] (index.interfaceRoots d) out ↔
      out = index.implementedInterfaces d := by
  have search := depthFirst_implementedInterfaces index d
  refine ⟨search.nodup, fun name => ?_, fun out => ⟨fun other => other.unique search, ?_⟩⟩
  · rw [search.mem_iff, implements_iff]
  · rintro rfl
    exact search

end SpringLint.Index
