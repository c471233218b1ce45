import SpringLint.Model.Declaration

/-! What an index knows after names and types have been made known. -/

namespace SpringLint.Index

/-- The indices that come about by making names and types known. -/
inductive Built : Index → Prop
  | empty : Built {}
  | declare {index : Index} (name : String) (kind : TypeKind) :
      Built index → Built (index.declare name kind)
  | insert {index : Index} (d : TypeDecl) : Built index → Built (index.insert d)

theorem get?_insert (index : Index) (d : TypeDecl) (name : String) :
    (index.insert d).get? name =
      if d.isAnonymous = false ∧ name = d.name then some d else index.get? name := by
  simp only [get?, insert]
  cases d.isAnonymous <;> simp [Table.get?_insert]

theorem get?_insertAll {types : List TypeDecl} {index : Index} {name : String} {d : TypeDecl}
    (known : (index.insertAll types).get? name = some d) :
    (d ∈ types ∧ d.name = name) ∨ index.get? name = some d := by
  induction types generalizing index with
  | nil => exact .inr known
  | cons type rest ih =>
    rcases @ih (index.insert type) known with ⟨later, named⟩ | before
    · exact .inl ⟨List.mem_cons_of_mem _ later, named⟩
    · rw [get?_insert] at before
      split at before
      · rename_i here
        cases before
        exact .inl ⟨List.mem_cons_self, here.2.symm⟩
      · exact .inr before

theorem contains_insertAll {types : List TypeDecl} {index : Index} {name : String}
    (known : (index.insertAll types).contains name = true) :
    (∃ d ∈ types, d.name = name) ∨ index.contains name = true := by
  induction types generalizing index with
  | nil => exact .inr known
  | cons type rest ih =>
    rcases @ih (index.insert type) known with ⟨d, later, named⟩ | before
    · exact .inl ⟨d, List.mem_cons_of_mem _ later, named⟩
    · unfold insert at before
      split at before
      · exact .inr before
      · by_cases here : name = type.name
        · exact .inl ⟨type, List.mem_cons_self, here.symm⟩
        · rw [contains, Table.contains, Table.get?_insert, if_neg here] at before
          exact .inr before

theorem contains_foldl_declare {declared : List DeclaredName} {index : Index} {name : String}
    (known : (declared.foldl (fun index d => index.declare d.name d.kind) index).contains name = true) :
    (∃ d ∈ declared, d.name = name) ∨ index.contains name = true := by
  induction declared generalizing index with
  | nil => exact .inr known
  | cons declaration rest ih =>
    rcases @ih (index.declare declaration.name declaration.kind) known with ⟨d, later, named⟩ | before
    · exact .inl ⟨d, List.mem_cons_of_mem _ later, named⟩
    · by_cases here : name = declaration.name
      · exact .inl ⟨declaration, List.mem_cons_self, here.symm⟩
      · rw [contains, declare, Table.contains, Table.get?_insert, if_neg here] at before
        exact .inr before

theorem get?_catalogue {name : String} (absent : Catalogue.contains name = false) :
    catalogue.get? name = none := by
  refine Option.eq_none_iff_forall_ne_some.mpr fun d known => ?_
  rcases get?_insertAll known with ⟨member, named⟩ | empty
  · have present : Catalogue.contains name = true :=
      List.any_eq_true.mpr ⟨d, member, beq_iff_eq.mpr named⟩
    rw [absent] at present
    cases present
  · cases empty

theorem Built.insertAll {index : Index} (built : index.Built) (types : List TypeDecl) :
    (index.insertAll types).Built := by
  induction types generalizing index with
  | nil => exact built
  | cons d rest ih => exact ih (built.insert d)

theorem Built.foldl_declare {index : Index} (built : index.Built) (declared : List DeclaredName) :
    (declared.foldl (fun index d => index.declare d.name d.kind) index).Built := by
  induction declared generalizing index with
  | nil => exact built
  | cons d rest ih => exact ih (built.declare d.name d.kind)

theorem built_catalogue : catalogue.Built :=
  Built.empty.insertAll _

theorem Built.name_eq {index : Index} {name : String} {d : TypeDecl} (built : index.Built)
    (known : index.get? name = some d) : d.name = name := by
  induction built with
  | empty => cases known
  | declare _ _ _ ih => exact ih known
  | insert e _ ih =>
    rw [get?_insert] at known
    split at known
    · rename_i here
      cases known
      exact here.2.symm
    · exact ih known

end SpringLint.Index
