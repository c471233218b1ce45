import Mathlib.Data.List.Flatten
import SpringLint.Proofs.Fix.AssignedFields

/-! The names of the parameters of the new constructor. A field gives its parameter its own name, or
its name with a suffix if it is optional, so a field that is called like a suffixed one clashes with
it. -/

namespace SpringLint

section Distinct

variable {α β : Type} [DecidableEq β] {items : List α} {label : α → β}

theorem map_filter_label_eq_iff :
    (items.map fun x => items.filter fun y => label y = label x) = items.map ([·]) ↔
      (items.map label).Nodup := by
  have count (x : α) :
      (items.map label).count (label x) = (items.filter fun y => label y = label x).length := by
    rw [List.count_eq_countP, List.countP_map, List.countP_eq_length_filter]
    rfl
  rw [List.nodup_iff_count_eq_one, List.forall_mem_map, List.map_inj_left]
  apply forall₂_congr
  intro x member
  rw [count]
  constructor
  · intro alone
    rw [alone, List.length_singleton]
  · intro single
    have ⟨y, alone⟩ := List.length_eq_one_iff.mp single
    have here : x ∈ items.filter fun y => label y = label x := by simp [member]
    rw [alone, List.mem_singleton] at here
    rw [alone, here]

end Distinct

namespace ConstructorInjection

structure Parameter where
  type : String
  name : String
  deriving DecidableEq, Repr

/-- A statement that gives a field the value of a parameter. -/
structure Assignment where
  field : String
  /-- The name of the parameter that is read. -/
  source : String
  /-- What is called on it. -/
  access : String
  deriving DecidableEq, Repr

def Parameter.text (p : Parameter) : String :=
  p.type ++ " " ++ p.name

def Assignment.text (a : Assignment) : String :=
  "this." ++ a.field ++ " = " ++ a.source ++ a.access ++ ";"

structure Constructor where
  className : String
  parameters : List Parameter
  assignments : List Assignment
  deriving DecidableEq, Repr

namespace Constructor

def text (c : Constructor) (indent : String) : String :=
  let step := if Text.hasChar '\t' indent then "\t" else "    "
  "\n\n" ++ indent ++ "public " ++ c.className ++ "("
    ++ Text.joinWith ", " (c.parameters.map (·.text)) ++ ") \x7b\n"
    ++ String.join (c.assignments.map fun a => indent ++ step ++ a.text ++ "\n")
    ++ indent ++ "\x7d"

def Distinct (c : Constructor) : Prop :=
  (c.parameters.map (·.name)).Nodup

/-- Under the name that an assignment reads it finds its own parameter and no other. -/
def Paired (c : Constructor) : Prop :=
  (c.assignments.map fun a => c.parameters.filter fun p => p.name = a.source) =
    c.parameters.map ([·])

end Constructor

namespace InjectedField

variable (f g : InjectedField)

def declared : Parameter :=
  if f.isOptional then ⟨"ObjectProvider<" ++ f.typeText ++ ">", f.name ++ "Provider"⟩
  else ⟨f.typeText, f.name⟩

def assigned : Assignment :=
  ⟨f.name, f.declared.name, if f.isOptional then ".getIfAvailable()" else ""⟩

/-- An optional field whose parameter is called like a required field. -/
def Clashes : Prop :=
  f.isOptional ∧ ¬ g.isOptional ∧ g.name = f.name ++ "Provider"

theorem text_declared : f.declared.text = f.parameter := by
  have closing : "> " = ">" ++ " " := rfl
  unfold declared parameter Parameter.text
  rw [closing]
  split <;> simp only [String.append_assoc]

theorem text_assigned : f.assigned.text = f.assignment := by
  unfold assigned declared assignment Assignment.text
  split <;> simp [String.append_assoc]

variable {f g}

theorem name_declared_eq_iff :
    f.declared.name = g.declared.name ↔
      f.isOptional = g.isOptional ∧ f.name = g.name ∨ f.Clashes g ∨ g.Clashes f := by
  unfold declared Clashes
  cases f.isOptional <;> cases g.isOptional <;> simp [eq_comm]

theorem nodup_declared_iff {fields : List InjectedField} (names : (fields.map (·.name)).Nodup) :
    (fields.map fun f => f.declared.name).Nodup ↔ ∀ f ∈ fields, ∀ g ∈ fields, ¬ f.Clashes g := by
  constructor
  · intro distinct f first g second clash
    have name : f.declared.name = g.declared.name := name_declared_eq_iff.mpr (.inr (.inl clash))
    have same : f = g := List.inj_on_of_nodup_map distinct first second name
    exact clash.2.1 (same ▸ clash.1)
  · intro apart
    have different : fields.Pairwise fun f g => f.name ≠ g.name := List.pairwise_map.mp names
    apply List.pairwise_map.mpr
    apply different.imp_of_mem
    intro f g first second other same
    rcases name_declared_eq_iff.mp same with ⟨_, name⟩ | clash | clash
    · exact other name
    · exact apart f first g second clash
    · exact apart g second f first clash

end InjectedField

namespace Scope

variable (q : Query) (s : Scope)

def constructor : Constructor where
  className := q.tree.text s.name
  parameters := (s.fields q).map (·.declared)
  assignments := (s.fields q).map (·.assigned)

def fieldNames : List Nat :=
  (s.declarations q).flatMap q.tree.fieldNames

/-- No injected field is called like the parameter of an optional one. -/
def Unclashed : Prop :=
  ∀ f ∈ s.fields q, ∀ g ∈ s.fields q, ¬ f.Clashes g

theorem text_constructor : (s.constructor q).text (indentation q.tree s.last) = s.text q := by
  have parameters : ((s.fields q).map (·.declared)).map (·.text) =
      (s.fields q).map (·.parameter) := by
    simp [InjectedField.text_declared]
  unfold Constructor.text Scope.text constructorText constructor
  simp only [parameters, List.map_map, Function.comp_def, InjectedField.text_assigned]

theorem paired_iff : (s.constructor q).Paired ↔ (s.constructor q).Distinct := by
  rw [Constructor.Paired, Constructor.Distinct, ← map_filter_label_eq_iff]
  simp only [constructor, List.map_map]
  rfl

end Scope

variable {q : Query} {s : Scope}

theorem map_declaration_fields :
    ((s.fields q).map (·.declaration)).Sublist (s.declarations q) := by
  have found : ∀ d ∈ s.declarations q, (injectedField? q d).map (·.declaration) =
      Option.guard (fun d => (injectedField? q d).isSome) d := by
    intro d member
    cases field : injectedField? q d with
    | none => simp [Option.guard, field]
    | some f =>
      have same := (field_of_injectedField? (kind_declaration member) field).1
      simp [Option.guard, field, same]
  rw [Scope.fields, List.map_filterMap, List.filterMap_congr found, List.filterMap_eq_filter]
  exact List.filter_sublist

theorem nodup_name_fields (distinct : ((s.fieldNames q).map q.tree.text).Nodup) :
    ((s.fields q).map (·.name)).Nodup := by
  have some : (s.assigned q).Sublist (s.declared q) := filterMap_head?_sublist
  have all : (s.declared q).Sublist (s.fieldNames q) := by
    rw [Scope.declared, ← List.flatMap_map]
    exact map_declaration_fields.flatMap _
  rw [name_fields]
  exact distinct.sublist ((some.trans all).map _)

/-- In a class whose variables have different names a plan writes a constructor whose parameters
have different names, and whose assignments read their own parameters, exactly if no required field
is called like an optional one with the suffix `Provider`. -/
theorem distinct_parameters_iff {marked : Nat} {edits : List Edit}
    (planned : plan? q marked = some edits) (found : scope? q marked = some s)
    (distinct : ((s.fieldNames q).map q.tree.text).Nodup) :
    .insertAfter s.last (.text ((s.constructor q).text (indentation q.tree s.last))) ∈ edits ∧
      ((s.constructor q).Distinct ↔ s.Unclashed q) ∧
        ((s.constructor q).Paired ↔ s.Unclashed q) := by
  have ⟨_, same, made⟩ := plan?_eq_some planned
  rw [found] at same
  cases same
  have names : (s.constructor q).Distinct ↔ s.Unclashed q := by
    rw [Constructor.Distinct, Scope.constructor, List.map_map]
    exact InjectedField.nodup_declared_iff (nodup_name_fields distinct)
  constructor
  · rw [made, Scope.text_constructor]
    simp [Scope.edits]
  · exact ⟨names, (Scope.paired_iff q s).trans names⟩

def clashText : String :=
  "import org.springframework.beans.factory.annotation.Autowired;\n" ++
    "class A \x7b @Autowired(required = false) B foo; @Autowired C fooProvider; \x7d\n"

def clashParse : Parse where
  tree := .node "program" true ⟨0, 137⟩ none [
    .node "import_declaration" true ⟨0, 62⟩ none
      [.token "import" 0, qualified 7 none 61 [51, 40, 32, 26, 10], .token ";" 61],
    .node "class_declaration" true ⟨63, 136⟩ none [
      .token "class" 63,
      .leaf (some "name") "identifier" 69 70,
      .node "class_body" true ⟨71, 136⟩ (some "body") [
        .token "\x7b" 71,
        .node "field_declaration" true ⟨73, 108⟩ none [
          .node "modifiers" true ⟨73, 101⟩ none [
            .node "annotation" true ⟨73, 101⟩ none [
              .token "@" 73,
              .leaf (some "name") "identifier" 74 83,
              .node "annotation_argument_list" true ⟨83, 101⟩ (some "arguments") [
                .token "(" 83,
                .node "element_value_pair" true ⟨84, 100⟩ none [
                  .leaf (some "key") "identifier" 84 92,
                  .token "=" 93,
                  .leaf (some "value") "false" 95 100],
                .token ")" 100]]],
          .leaf (some "type") "type_identifier" 102 103,
          .node "variable_declarator" true ⟨104, 107⟩ (some "declarator")
            [.leaf (some "name") "identifier" 104 107],
          .token ";" 107],
        .node "field_declaration" true ⟨109, 134⟩ none [
          .node "modifiers" true ⟨109, 119⟩ none [
            .node "marker_annotation" true ⟨109, 119⟩ none
              [.token "@" 109, .leaf (some "name") "identifier" 110 119]],
          .leaf (some "type") "type_identifier" 120 121,
          .node "variable_declarator" true ⟨122, 133⟩ (some "declarator")
            [.leaf (some "name") "identifier" 122 133],
          .token ";" 133],
        .token "\x7d" 135]]]
  hasErrors := false

def clashQuery : Query :=
  let unit := SourceUnit.ofSource "A.java" (Source.ofParse clashText clashParse)
  { unit := unit.link (unit.declare {}) {}, project := { layout := { root := "/" } }, files := {} }

def clashScope : Scope where
  type := 20
  name := 22
  last := 41

def clashPlan : List Edit :=
  [.remove 26, .prepend 25 (.keyword "final"), .remove 42, .prepend 41 (.keyword "final"),
    .insertAfter 41 (.text ("\n\n    public A(ObjectProvider<B> fooProvider, C fooProvider) \x7b\n" ++
      "        this.foo = fooProvider.getIfAvailable();\n" ++
      "        this.fooProvider = fooProvider;\n    \x7d")),
    .insertAfter 1 (.text "\nimport org.springframework.beans.factory.ObjectProvider;")]

/-- Both parameters have the same name. -/
theorem distinct_parameters_iff_clash :
    (plan? clashQuery 20 = some clashPlan ∧ scope? clashQuery 20 = some clashScope ∧
      (clashScope.fieldNames clashQuery).map clashQuery.tree.text = ["foo", "fooProvider"]) ∧
      (clashScope.constructor clashQuery).parameters =
        [⟨"ObjectProvider<B>", "fooProvider"⟩, ⟨"C", "fooProvider"⟩] ∧
      .insertAfter 41 (.text ((clashScope.constructor clashQuery).text "    ")) ∈ clashPlan ∧
        ¬ clashScope.Unclashed clashQuery ∧ ¬ (clashScope.constructor clashQuery).Paired := by
  have ⟨planned, found, names, parameters, indent⟩ :
      plan? clashQuery 20 = some clashPlan ∧ scope? clashQuery 20 = some clashScope ∧
        (clashScope.fieldNames clashQuery).map clashQuery.tree.text = ["foo", "fooProvider"] ∧
        (clashScope.constructor clashQuery).parameters =
          [⟨"ObjectProvider<B>", "fooProvider"⟩, ⟨"C", "fooProvider"⟩] ∧
        indentation clashQuery.tree clashScope.last = "    " := by
    decide +kernel
  have twice : ¬ (clashScope.constructor clashQuery).Distinct := by
    rw [Constructor.Distinct, parameters]
    decide
  have ⟨written, distinct, paired⟩ :=
    distinct_parameters_iff planned found (names ▸ (by decide : ["foo", "fooProvider"].Nodup))
  rw [indent] at written
  have clash : ¬ clashScope.Unclashed clashQuery := fun apart => twice (distinct.mpr apart)
  exact ⟨⟨planned, found, names⟩, parameters, written, clash, fun own => clash (paired.mp own)⟩

end ConstructorInjection

end SpringLint
