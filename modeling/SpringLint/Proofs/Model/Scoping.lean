import SpringLint.Project.Unit
import SpringLint.Proofs.Model.Binding
import SpringLint.Proofs.Model.Declared
import SpringLint.Proofs.Syntax.Batch

/-! Lexical scoping. A name refers to what the nearest scope around it that knows the name holds, as
far as a walk has come before it reaches the name. -/

namespace SpringLint

namespace Scoping

def opensFrame : Kind → Bool
  | .methodDeclaration | .constructorDeclaration | .compactConstructorDeclaration
  | .lambdaExpression | .block | .constructorBody | .catchClause | .forStatement
  | .enhancedForStatement | .tryWithResourcesStatement | .switchBlockStatementGroup
  | .switchRule => true
  | _ => false

variable (t : Tree) (types : List TypeDecl)

def typeAt? (id : Nat) : Option TypeDecl :=
  types.find? fun d => d.node == some id

def opens (id : Nat) : Bool :=
  (typeAt? types id).isSome || opensFrame (t.kind id)

/-- The parameters of a lambda expression that are written without a type. -/
def lambdaNames (id : Nat) : List Nat :=
  match t.childByField id "parameters" with
  | none => []
  | some list =>
    match t.kind list with
    | .identifier => [list]
    | .inferredParameters => t.childrenOfKind list .identifier
    | _ => []

/-- The variable of a declarator, unless it is a field. -/
def variableNames (id : Nat) : List Nat :=
  match t.parent id with
  | none => []
  | some parent =>
    match t.kind parent with
    | .fieldDeclaration | .constantDeclaration => []
    | _ => (t.childByField id "name").toList

/-- The names of the local variables and parameters that a node declares. -/
def declares (id : Nat) : List Nat :=
  if (typeAt? types id).isSome then []
  else
    match t.kind id with
    | .lambdaExpression => lambdaNames t id
    | .variableDeclarator => variableNames t id
    | .enhancedForStatement | .formalParameter | .resource | .instanceofExpression
    | .catchFormalParameter => (t.childByField id "name").toList
    | _ => []

/-- The scope in which a node declares names: the innermost that it opens or stands in. -/
def home? (id : Nat) : Option Nat :=
  (id :: t.ancestors id).find? (opens t types)

/-- The fields of the type at a node, as entries that hide variables outside. -/
def fieldEntries (id : Nat) : List (String × Option Nat) :=
  match typeAt? types id with
  | some d => d.fields.map fun field => (field.name, none)
  | none => []

/-- What a scope holds after a walk has passed some nodes, the latest first. -/
def entries (passed : List Nat) (scope : Nat) : List (String × Option Nat) :=
  ((passed.filter fun id => home? t types id == some scope).flatMap (declares t types)).reverse.map
      (fun name => (t.text name, some name)) ++
    fieldEntries types scope

def scopes (id : Nat) : List Nat :=
  (t.ancestors id).filter (opens t types)

/-- The nodes that a walk passes before it comes to a node. -/
def before (id : Nat) : List Nat :=
  (t.descendants Tree.root).takeWhile (· != id)

/-- What the nearest scope that knows the name at a node holds for it: a variable, or a field. -/
def nearest? (id : Nat) : Option (Option Nat) :=
  (scopes t types id).findSome? fun scope => (entries t types (before t id) scope).lookup (t.text id)

end Scoping

namespace BindingWalk

open Scoping

variable {t : Tree} {types : List TypeDecl} {w : BindingWalk} {id : Nat}

def pushNames (t : Tree) (names : List Nat) : List Frame → List Frame
  | [] => []
  | frame :: rest =>
    { frame with
      named := names.reverse.map (fun name => (t.text name, some name)) ++ frame.named } :: rest

@[simp]
theorem pushNames_nil (frames : List Frame) : pushNames t [] frames = frames := by
  cases frames with
  | nil => rfl
  | cons frame rest => rfl

theorem pushNames_cons (name : Nat) (names : List Nat) (frames : List Frame) :
    pushNames t (name :: names) frames = pushNames t names (pushNames t [name] frames) := by
  cases frames with
  | nil => rfl
  | cons frame rest => simp [pushNames]

@[simp]
theorem frames_declare (w : BindingWalk) (name : Nat) (type : Option String) :
    (declare t w name type).frames = pushNames t [name] w.frames := by
  unfold declare pushNames
  cases w.frames with
  | nil => rfl
  | cons frame rest => rfl

@[simp]
theorem frames_declaredType (w : BindingWalk) (type value : Option Nat) :
    (declaredType t w type value).2.frames = w.frames := by
  unfold declaredType
  repeat' split
  all_goals rfl

theorem frames_declareNamed (w : BindingWalk) (id : Nat) :
    (declareNamed t w id).frames = pushNames t (t.childByField id "name").toList w.frames := by
  unfold declareNamed
  cases t.childByField id "name" with
  | none => simp
  | some name => simp

theorem frames_declareCaught (w : BindingWalk) (id : Nat) :
    (declareCaught t w id).frames = pushNames t (t.childByField id "name").toList w.frames := by
  unfold declareCaught
  cases t.childByField id "name" with
  | none => simp
  | some name => simp

theorem frames_foldl_declare (names : List Nat) (w : BindingWalk) :
    (names.foldl (fun w name => declare t w name none) w).frames = pushNames t names w.frames := by
  induction names generalizing w with
  | nil => simp
  | cons name rest ih => rw [List.foldl_cons, ih, frames_declare, ← pushNames_cons]

theorem frames_declareLambda (w : BindingWalk) (id : Nat) :
    (declareLambda t w id).frames = pushNames t (lambdaNames t id) w.frames := by
  unfold declareLambda
  split
  · rename_i absent
    simp [lambdaNames, absent]
  · rename_i list found
    split
    · rename_i kind
      simp [lambdaNames, found, kind]
    · rename_i kind
      simp [lambdaNames, found, kind, frames_foldl_declare]
    · simp [lambdaNames, found]

theorem frames_declareVariable (w : BindingWalk) (id : Nat) :
    (declareVariable t w id).frames = pushNames t (variableNames t id) w.frames := by
  unfold declareVariable
  split
  · rename_i parent name above found
    split
    iterate 3
      · rename_i kind
        simp [variableNames, above, found, kind]
    · simp [variableNames, above, found]
  · rename_i missing
    unfold variableNames
    split
    · simp
    · rename_i parent above
      have absent : t.childByField id "name" = none :=
        Option.eq_none_iff_forall_ne_some.mpr fun name found => missing parent name above found
      split <;> simp [absent]

theorem frames_bindUse (w : BindingWalk) (id : Nat) : (bindUse t w id).frames = w.frames := by
  unfold bindUse
  split <;> rfl

theorem frames_bindLink (w : BindingWalk) (id : Nat) : (bindLink t w id).frames = w.frames := by
  unfold bindLink
  dsimp only
  repeat' split
  all_goals rfl

theorem frames_bindName (w : BindingWalk) (id : Nat) : (bindName t w id).frames = w.frames := by
  unfold bindName
  repeat' split
  all_goals rfl

theorem frames_enterType (w : BindingWalk) (id : Nat) (d : TypeDecl) :
    (w.enterType id d).frames =
      { owner := id, named := d.fields.map fun field => (field.name, none) } :: w.frames := by
  unfold enterType
  dsimp only
  split <;> rfl

theorem frames_visit (t : Tree) (types : List TypeDecl) (id : Nat) (w : BindingWalk) :
    (visit t types id w).frames =
      pushNames t (declares t types id)
        (if opens t types id then { owner := id, named := fieldEntries types id } :: w.frames
        else w.frames) := by
  unfold visit declares opens fieldEntries typeAt?
  cases found : types.find? fun d => d.node == some id with
  | some d => simp [frames_enterType]
  | none =>
    simp only [Option.isSome_none, Bool.false_eq_true, if_false, Bool.false_or]
    split
    all_goals rename_i kind
    iterate 3 simp [kind, opensFrame, enterMethod]
    · simp [kind, opensFrame, frames_declareLambda, openFrame]
    iterate 7 simp [kind, opensFrame, openFrame]
    · simp [kind, opensFrame, frames_declareNamed, openFrame]
    iterate 3 simp [kind, opensFrame, frames_declareNamed]
    · simp [kind, opensFrame, frames_declareCaught]
    · simp [kind, opensFrame, frames_declareVariable]
    iterate 2 simp [kind, opensFrame, frames_bindUse]
    · simp [kind, opensFrame, frames_bindLink]
    · simp [kind, opensFrame, frames_bindName]
    · simp [kind, opensFrame]
    · have shut : opensFrame (t.kind id) = false := by
        unfold opensFrame
        split <;> first | rfl | contradiction
      rw [shut]
      split <;> first | contradiction | simp

theorem frames_leave (id : Nat) (w : BindingWalk) :
    (leave id w).frames =
      if (w.frames.head?.map (·.owner)) == some id then w.frames.tail else w.frames := by
  rw [leave_eq, closeType, closeMethod, closeFrame]
  repeat' split
  all_goals rfl

def frame (t : Tree) (types : List TypeDecl) (passed : List Nat) (scope : Nat) : Frame where
  owner := scope
  named := entries t types passed scope

def inner (t : Tree) (types : List TypeDecl) (id : Nat) : List Nat :=
  (id :: t.ancestors id).filter (opens t types)

variable {passed rest : List Nat}

theorem inner_eq (t : Tree) (types : List TypeDecl) (id : Nat) :
    inner t types id = if opens t types id then id :: scopes t types id else scopes t types id :=
  List.filter_cons

theorem scopes_child (attached : t.Attached) {c : Nat} (child : c ∈ (t.node id).children) :
    scopes t types c = inner t types id := by
  rw [scopes, Tree.ancestors_of_parent (attached.parent_of_mem child), inner]

theorem nodup_inner (t : Tree) (types : List TypeDecl) (id : Nat) : (inner t types id).Nodup := by
  apply List.Nodup.filter
  induction id using Nat.strongRecOn with
  | ind id ih =>
    refine List.nodup_cons.mpr ⟨fun above => Nat.lt_irrefl id (Tree.lt_of_mem_ancestors above), ?_⟩
    cases parent : (t.node id).parent with
    | none => simp [Tree.ancestors_of_root parent]
    | some p =>
      rw [Tree.ancestors_of_parent parent]
      exact ih p (Tree.parent_lt parent)

theorem entries_concat (passed : List Nat) (id scope : Nat) :
    entries t types (passed ++ [id]) scope =
      (if home? t types id = some scope then
        (declares t types id).reverse.map fun name => (t.text name, some name)
      else []) ++ entries t types passed scope := by
  by_cases here : home? t types id = some scope
  · simp [entries, here]
  · simp [entries, here]

theorem entries_of_fresh (fresh : ∀ m ∈ passed, id ∉ m :: t.ancestors m) :
    entries t types passed id = fieldEntries types id := by
  have none : (passed.filter fun m => home? t types m == some id) = [] := by
    rw [List.filter_eq_nil_iff]
    intro m member home
    have found : home? t types m = some id := by simpa using home
    exact fresh m member (List.mem_of_find?_eq_some found)
  simp [entries, none]

theorem map_frame_concat (passed : List Nat) (id : Nat) :
    (inner t types id).map (frame t types (passed ++ [id])) =
      pushNames t (declares t types id) ((inner t types id).map (frame t types passed)) := by
  have once := nodup_inner t types id
  have first : home? t types id = (inner t types id).head? := List.head?_filter.symm
  cases split : inner t types id with
  | nil => rfl
  | cons scope rest =>
    rw [split] at once first
    obtain ⟨absent, -⟩ := List.nodup_cons.mp once
    have later : rest.map (frame t types (passed ++ [id])) = rest.map (frame t types passed) := by
      apply List.map_congr_left
      intro other member
      have different : scope ≠ other := fun same => absent (same ▸ member)
      simp [frame, entries_concat, first, different]
    simp [pushNames, later, frame, entries_concat, first]

/-- The state of the walk when it has passed some nodes and stands in some scopes: a frame for every
scope, and every name among the nodes bound to what is nearest. -/
structure Scoped (t : Tree) (types : List TypeDecl) (passed around : List Nat) (w : BindingWalk) :
    Prop where
  frames : w.frames = around.map (frame t types passed)
  size : w.bindings.slots.size = t.size
  calls : Environment.OnlyCalls t w.calls
  bound : ∀ n ∈ passed, t.kind n = .identifier → isReference t n = true →
    w.bindings.get? n = (nearest? t types n).join.map .variable
  unbound : ∀ n, n ∉ passed → t.kind n = .identifier → w.bindings.get? n = none

namespace Scoped

section Step

variable (attached : t.Attached) (untouched : t.Untouched)
  (order : t.descendants Tree.root = passed ++ t.descendants id ++ rest)
include attached order

theorem not_mem_passed {m : Nat} (below : m ∈ t.descendants id) : m ∉ passed := by
  have once := Tree.nodup_descendants attached Tree.root
  rw [order, List.append_assoc] at once
  intro early
  exact (List.nodup_append.mp once).2.2 m early m (List.mem_append_left _ below) rfl

theorem before_eq : before t id = passed := by
  have absent := not_mem_passed attached order (t.mem_descendants_self id)
  rw [before, order, Tree.descendants_eq, List.append_assoc, List.cons_append]
  exact takeWhile_ne absent

/-- A name is looked up in the frames that are open when the walk comes to it. -/
theorem lookup?_eq (state : Scoped t types passed (scopes t types id) w) :
    w.lookup? (t.text id) = nearest? t types id := by
  rw [Environment.lookup?, state.frames, List.findSome?_map, nearest?, before_eq attached order]
  rfl

theorem bound_visit (apart : ∀ id d, typeAt? types id = some d → t.kind id ≠ .identifier)
    (state : Scoped t types passed (scopes t types id) w) (identifier : t.kind id = .identifier)
    (reference : isReference t id = true) :
    (visit t types id w).bindings.get? id = (nearest? t types id).join.map .variable := by
  have plain : typeAt? types id = none := by
    cases found : typeAt? types id with
    | none => rfl
    | some d => exact absurd identifier (apart id d found)
  have inside : id < t.size := Tree.lt_size_of_kind (by simp [identifier])
  have empty := state.unbound id (not_mem_passed attached order (t.mem_descendants_self id)) identifier
  have visited : visit t types id w = bindName t w id := by
    unfold typeAt? at plain
    simp [visit, plain, identifier]
  rw [visited, bindName, if_pos reference, lookup?_eq attached order state]
  cases nearest? t types id with
  | none => simpa using empty
  | some found =>
    cases found with
    | none => simpa using empty
    | some name => simp [bind, NodeMap.get?_set, state.size, inside]

include untouched

theorem fresh {m : Nat} (member : m ∈ passed) : id ∉ m :: t.ancestors m := by
  intro above
  have listed : m ∈ t.descendants Tree.root := by
    rw [order]
    simp [member]
  have inside := Tree.lt_of_mem_descendants attached.nonempty listed
  have below := Tree.mem_descendants_of_mem_ancestors attached untouched inside above
  exact not_mem_passed attached order below member

theorem frames_visited (state : Scoped t types passed (scopes t types id) w) :
    (visit t types id w).frames = (inner t types id).map (frame t types (passed ++ [id])) := by
  have own : frame t types passed id = { owner := id, named := fieldEntries types id } := by
    rw [frame, entries_of_fresh fun m member => fresh attached untouched order member]
  rw [BindingWalk.frames_visit, map_frame_concat, inner_eq, state.frames]
  split
  · rw [List.map_cons, own]
  · rfl

theorem visit_node (apart : ∀ id d, typeAt? types id = some d → t.kind id ≠ .identifier)
    (state : Scoped t types passed (scopes t types id) w) :
    Scoped t types (passed ++ [id]) (inner t types id) (visit t types id w) := by
  have entered := visited t types id w
  refine ⟨frames_visited attached untouched order state, entered.size.trans state.size,
    entered.calls state.calls, ?_, ?_⟩
  · intro n member identifier reference
    by_cases here : n = id
    · subst here
      exact bound_visit attached order apart state identifier reference
    · rw [entered.others n here]
      exact state.bound n (by simpa [here] using member) identifier reference
  · intro n absent identifier
    have other : n ∉ passed ∧ n ≠ id := by simpa using absent
    rw [entered.others n other.2]
    exact state.unbound n other.1 identifier

end Step

theorem leave_node (state : Scoped t types passed (inner t types id) w) :
    Scoped t types passed (scopes t types id) (leave id w) := by
  refine ⟨?_, ?_, ?_, ?_, ?_⟩
  · have frames := state.frames
    rw [frames_leave, frames, inner_eq]
    split
    · simp [frame]
    · -- the innermost frame belongs to a node above
      rw [if_neg]
      intro first
      obtain ⟨f, found, owner⟩ := Option.map_eq_some_iff.mp (beq_iff_eq.mp first)
      obtain ⟨scope, member, rfl⟩ := List.mem_map.mp (List.mem_of_head? found)
      have above := Tree.lt_of_mem_ancestors (List.mem_filter.mp member).1
      have same : scope = id := owner
      omega
  · rw [bindings_leave]
    exact state.size
  · rw [calls_leave]
    exact state.calls
  · rw [bindings_leave]
    exact state.bound
  · rw [bindings_leave]
    exact state.unbound

theorem traverse (attached : t.Attached) (untouched : t.Untouched)
    (apart : ∀ id d, typeAt? types id = some d → t.kind id ≠ .identifier)
    (order : t.descendants Tree.root = passed ++ t.descendants id ++ rest)
    (state : Scoped t types passed (scopes t types id) w) :
    Scoped t types (passed ++ t.descendants id) (scopes t types id)
      (t.traverse (visitor t types) id w) := by
  induction id using Tree.down_induction (t := t) generalizing passed rest w with
  | step id ih =>
    have below : ∀ ids : List Nat, (∀ c ∈ ids, c ∈ (t.node id).children) → ∀ done v,
        t.descendants Tree.root = done ++ ids.flatMap t.descendants ++ rest →
        Scoped t types done (inner t types id) v →
        Scoped t types (done ++ ids.flatMap t.descendants) (inner t types id)
          (ids.foldl (fun v c => t.traverse (visitor t types) c v) v) := by
      intro ids
      induction ids with
      | nil => exact fun _ done v _ state => by simpa using state
      | cons c more next =>
        intro members done v order state
        obtain ⟨child, others⟩ := List.forall_mem_cons.mp members
        rw [← scopes_child attached child] at state
        have ahead : t.descendants Tree.root =
            done ++ t.descendants c ++ (more.flatMap t.descendants ++ rest) := by simpa using order
        have first := ih c child ahead state
        rw [scopes_child attached child] at first
        have after := next others _ _ (by simpa using order) first
        simpa using after
    have children := Tree.children_of_untouched untouched id
    have order' := order
    rw [Tree.descendants_eq t id, children] at order'
    have entered := visit_node attached untouched order apart state
    have through := below (t.node id).children (fun _ member => member) (passed ++ [id]) _
      (by simpa using order') entered
    rw [Tree.traverse_eq, Tree.descendants_eq t id, children]
    simpa [visitor] using through.leave_node

end Scoped

end BindingWalk

theorem Bindings.get?_ofTree_name {t : Tree} {types : List TypeDecl} (attached : t.Attached)
    (untouched : t.Untouched)
    (apart : ∀ id d, Scoping.typeAt? types id = some d → t.kind id ≠ .identifier)
    (header : Header) (index : Index) {n : Nat} (identifier : t.kind n = .identifier)
    (reference : BindingWalk.isReference t n = true) :
    (ofTree t header types index).get? n = (Scoping.nearest? t types n).join.map .variable := by
  let start : BindingWalk :=
    { types := TypeScope.ofHeader index header
      variableTypes := NodeMap.sized t.size
      calls := NodeMap.sized t.size
      bindings := NodeMap.sized t.size }
  have outermost : Scoping.scopes t types Tree.root = [] := by
    rw [Scoping.scopes, Tree.ancestors_of_root attached.root_parent, List.filter_nil]
  have state : BindingWalk.Scoped t types [] (Scoping.scopes t types Tree.root) start := by
    rw [outermost]
    exact ⟨rfl, Array.size_replicate, .sized t.size, nofun, fun n _ _ => NodeMap.get?_sized t.size n⟩
  have order : t.descendants Tree.root = [] ++ t.descendants Tree.root ++ [] := by simp
  have walked := state.traverse attached untouched apart order
  have below : n ∈ t.descendants Tree.root :=
    Tree.mem_descendants_root attached untouched (Tree.lt_size_of_kind (by simp [identifier]))
  change (t.walk _ Tree.root start).result.get? n = _
  rw [Tree.walk_eq, BindingWalk.get?_result walked.calls (by simp [identifier])]
  exact walked.bound n (by simpa using below) identifier reference

namespace SourceUnit

open Scoping

/-- A name in a source is bound as lexical scoping says: to the variable that the nearest scope
around it holds, and to nothing if that scope holds a field or no scope knows the name. -/
theorem binding?_eq_variable_iff (resource text : String) (parse : Parse) (names index : Index)
    {n : Nat} :
    let unit := SourceUnit.ofSource resource (Source.ofParse text parse)
    let types := unit.declare names
    unit.tree.kind n = .identifier → BindingWalk.isReference unit.tree n = true →
      (∀ d, (unit.link types index).binding? n = some (.variable d) ↔
        nearest? unit.tree types n = some (some d)) ∧
      ((∀ d, nearest? unit.tree types n ≠ some (some d)) →
        (unit.link types index).binding? n = none) := by
  intro unit types identifier reference
  have attached : unit.tree.Attached := Source.attached_ofParse text parse
  have untouched : unit.tree.Untouched := Source.untouched_ofParse text parse
  have apart : ∀ id d, Scoping.typeAt? types id = some d → unit.tree.kind id ≠ .identifier := by
    intro id d found name
    rcases Declaration.kind_of_find?_types attached found with body | declares
    · cases name.symm.trans body
    · rw [name] at declares
      cases declares
  have bound : (unit.link types index).binding? n = (nearest? unit.tree types n).join.map .variable :=
    Bindings.get?_ofTree_name attached untouched apart unit.header index identifier reference
  rw [bound]
  rcases nearest? unit.tree types n with _ | _ | d <;> simp

def hiddenText : String :=
  "class A \x7b int x; F f(int x) \x7b return x -> x; \x7d \x7d"

def hiddenParse : Parse :=
  let int (start : Nat) : ParseTree :=
    .node "integral_type" true ⟨start, start + 3⟩ (some "type") [.token "int" start]
  { tree := .node "program" true ⟨0, 48⟩ none [
      .node "class_declaration" true ⟨0, 48⟩ none [
        .token "class" 0,
        .leaf (some "name") "identifier" 6 7,
        .node "class_body" true ⟨8, 48⟩ (some "body") [
          .token "\x7b" 8,
          .node "field_declaration" true ⟨10, 16⟩ none [
            int 10,
            .node "variable_declarator" true ⟨14, 15⟩ (some "declarator")
              [.leaf (some "name") "identifier" 14 15],
            .token ";" 15],
          .node "method_declaration" true ⟨17, 46⟩ none [
            .leaf (some "type") "type_identifier" 17 18,
            .leaf (some "name") "identifier" 19 20,
            .node "formal_parameters" true ⟨20, 27⟩ (some "parameters") [
              .token "(" 20,
              .node "formal_parameter" true ⟨21, 26⟩ none
                [int 21, .leaf (some "name") "identifier" 25 26],
              .token ")" 26],
            .node "block" true ⟨28, 46⟩ (some "body") [
              .token "\x7b" 28,
              .node "return_statement" true ⟨30, 44⟩ none [
                .token "return" 30,
                .node "lambda_expression" true ⟨37, 43⟩ none [
                  .leaf (some "parameters") "identifier" 37 38,
                  .token "->" 39,
                  .leaf (some "body") "identifier" 42 43],
                .token ";" 43],
              .token "\x7d" 45]],
          .token "\x7d" 47]]]
    hasErrors := false }

/-- The parameter of a lambda hides that of the method around it, which hides a field. -/
theorem binding?_eq_variable_iff_hidden :
    let unit := SourceUnit.ofSource "A.java" (Source.ofParse hiddenText hiddenParse)
    let types := unit.declare {}
    (unit.tree.kind 29 = .identifier ∧ BindingWalk.isReference unit.tree 29 = true) ∧
      ((scopes unit.tree types 29).map fun scope =>
        (entries unit.tree types (before unit.tree 29) scope).lookup (unit.tree.text 29)) =
          [some (some 27), none, some (some 20), some none] ∧
        (unit.link types {}).binding? 29 = some (.variable 27) := by
  intro unit types
  have identifier : unit.tree.kind 29 = .identifier := by decide +kernel
  have reference : BindingWalk.isReference unit.tree 29 = true := by decide +kernel
  have bound := binding?_eq_variable_iff "A.java" hiddenText hiddenParse {} {} identifier reference
  exact ⟨⟨identifier, reference⟩, by decide +kernel, (bound.1 27).mpr (by decide +kernel)⟩

end SourceUnit

end SpringLint
