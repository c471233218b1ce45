import SpringLint.Proofs.Fix.Finals

/-! The plan for a class as a list of edits: those of every injected field, the constructor after the
last field, and the import. Each part is about nodes of its own, so no edit gets in the way of
another. -/

namespace SpringLint.ConstructorInjection

structure Scope where
  type : Nat
  name : Nat
  last : Nat
  deriving DecidableEq, Repr

def owner? (t : Tree) (marked : Nat) : Option Nat :=
  if t.kind marked = .classDeclaration then some marked
  else t.findAncestor marked (· = .classDeclaration)

def scope? (q : Query) (marked : Nat) : Option Scope := do
  let t := q.tree
  let type ← owner? t marked
  let name ← t.childByField type "name"
  let last ← ((t.members type).filter fun m => t.kind m = .fieldDeclaration).getLast?
  return ⟨type, name, last⟩

namespace Scope

variable (q : Query) (s : Scope)

def declarations : List Nat :=
  (q.tree.members s.type).filter fun m => q.tree.kind m = .fieldDeclaration

def fields : List InjectedField :=
  (s.declarations q).filterMap (injectedField? q)

def text : String :=
  constructorText (q.tree.text s.name) (indentation q.tree s.last) (s.fields q)

def imports : List Edit :=
  if (s.fields q).any (·.isOptional) && !importsProvider q.unit.header.imports then
    [importEdit q.tree]
  else []

def edits : List Edit :=
  (s.fields q).flatMap (·.edits q.tree) ++ [.insertAfter s.last (.text (s.text q))] ++ s.imports q

def constructorCut : Cut where
  start := (q.tree.span s.last).stop
  stop := (q.tree.span s.last).stop
  text := s.text q

end Scope

def textCut (t : Tree) : Edit → Option Cut
  | .insertAfter anchor (.text content) =>
    some { start := (t.span anchor).stop, stop := (t.span anchor).stop, text := content }
  | .prepend p (.text content) =>
    some { start := (t.span p).start, stop := (t.span p).start, text := content }
  | _ => none

namespace Scope

variable (q : Query) (s : Scope)

def importCuts : List Cut :=
  (s.imports q).filterMap (textCut q.tree)

/-- What belongs to the fields, to the constructor and to the import, in the order in which they
stand. -/
def arrange {α : Type} (fields : List α) (constructor : α) (imports : List α) : List α :=
  if (s.importCuts q).all fun cut => cut.start < (q.tree.span s.last).start then
    imports ++ (fields ++ [constructor])
  else fields ++ [constructor] ++ imports

def cuts : List Cut :=
  s.arrange q ((s.fields q).flatMap (·.cuts q.tree)) (s.constructorCut q) (s.importCuts q)

end Scope

variable {q : Query} {s : Scope}

def planFor? (q : Query) (type : Nat) : Option (List Edit) := do
  let name ← q.tree.childByField type "name"
  let last ← ((q.tree.members type).filter fun m => q.tree.kind m = .fieldDeclaration).getLast?
  let s : Scope := ⟨type, name, last⟩
  guard (!(s.fields q).isEmpty)
  let finals ← (s.fields q).mapM (makeFinal? q.tree)
  return finals.flatten ++ [.insertAfter last (.text (s.text q))] ++ s.imports q

theorem plan?_eq (q : Query) (marked : Nat) :
    plan? q marked = (owner? q.tree marked).bind (planFor? q) := by
  unfold plan? owner?
  by_cases here : q.tree.kind marked = .classDeclaration
  · rw [if_pos here, if_pos here]
    rfl
  · rw [if_neg here, if_neg here]
    rfl

theorem field_of_mem_fields {f : InjectedField} (member : f ∈ s.fields q) :
    f.declaration ∈ s.declarations q ∧ injectedField? q f.declaration = some f ∧
      Field q.tree f := by
  obtain ⟨d, among, found⟩ := List.mem_filterMap.mp member
  have kind : q.tree.kind d = .fieldDeclaration := of_decide_eq_true (List.mem_filter.mp among).2
  obtain ⟨rfl, field⟩ := field_of_injectedField? kind found
  exact ⟨among, found, field⟩

theorem plan?_eq_some {marked : Nat} {edits : List Edit} (planned : plan? q marked = some edits) :
    ∃ s, scope? q marked = some s ∧ edits = s.edits q := by
  rw [plan?_eq] at planned
  obtain ⟨type, owner, made⟩ := Option.bind_eq_some_iff.mp planned
  unfold planFor? at made
  obtain ⟨name, named, made⟩ := Option.bind_eq_some_iff.mp made
  obtain ⟨last, latest, made⟩ := Option.bind_eq_some_iff.mp made
  obtain ⟨-, -, made⟩ := Option.bind_eq_some_iff.mp made
  obtain ⟨finals, all, rest⟩ := Option.bind_eq_some_iff.mp made
  refine ⟨⟨type, name, last⟩, ?_, ?_⟩
  · unfold scope?
    simp only [Option.bind_eq_bind, owner, named, latest, Option.bind_some]
    rfl
  · have each := mapM_eq_some fun f member =>
      (field_of_mem_fields (s := ⟨type, name, last⟩) (q := q) (f := f) member).2.2.makeFinal?_eq
    rw [each] at all
    obtain rfl := Option.some.inj all
    obtain rfl := Option.some.inj rest
    unfold Scope.edits
    rw [List.flatMap_def]

theorem owner?_eq_some {t : Tree} {marked type : Nat} (found : owner? t marked = some type) :
    t.kind type = .classDeclaration := by
  unfold owner? at found
  split at found
  · rename_i here
    rw [← Option.some.inj found]
    exact here
  · unfold Tree.findAncestor at found
    have kind := List.find?_some found
    exact of_decide_eq_true kind

structure Scope.Sound (q : Query) (s : Scope) : Prop where
  kind : q.tree.kind s.type = .classDeclaration
  last : (s.declarations q).getLast? = some s.last

theorem scope?_eq_some {marked : Nat} (found : scope? q marked = some s) : s.Sound q := by
  unfold scope? at found
  simp only [Option.bind_eq_bind, Option.bind_eq_some_iff] at found
  obtain ⟨type, owner, name, -, last, latest, made⟩ := found
  obtain rfl := Option.some.inj made
  exact ⟨owner?_eq_some owner, latest⟩

theorem Scope.Sound.inside (sound : s.Sound q) : s.type < q.tree.size := by
  apply Tree.lt_size_of_kind
  rw [sound.kind]
  exact fun impossible => by cases impossible

theorem Scope.Sound.last_mem (sound : s.Sound q) : s.last ∈ s.declarations q :=
  List.mem_of_getLast? sound.last

theorem kind_declaration {d : Nat} (member : d ∈ s.declarations q) :
    q.tree.kind d = .fieldDeclaration :=
  of_decide_eq_true (List.mem_filter.mp member).2

theorem declaration_lt_size {d : Nat} (member : d ∈ s.declarations q) : d < q.tree.size := by
  apply Tree.lt_size_of_kind
  rw [kind_declaration member]
  exact fun impossible => by cases impossible

section Hang

variable (attached : q.tree.Attached)

include attached

theorem member_declaration {d : Nat} (member : d ∈ s.declarations q) :
    ∃ body, q.tree.childByField s.type "body" = some body ∧ q.tree.Member body d :=
  Tree.mem_members attached (List.mem_filter.mp member).1

theorem root_lt_declaration {d : Nat} (member : d ∈ s.declarations q) : Tree.root < d := by
  obtain ⟨body, -, here⟩ := member_declaration attached member
  exact Nat.lt_of_le_of_lt (Nat.zero_le _) (Tree.lt_of_mem_ancestors here.below)

theorem not_above_declaration {d e : Nat} (first : d ∈ s.declarations q)
    (second : e ∈ s.declarations q) : d ∉ q.tree.ancestors e := by
  obtain ⟨body, found, here⟩ := member_declaration attached first
  obtain ⟨other, same, there⟩ := member_declaration attached second
  rw [found] at same
  obtain rfl := Option.some.inj same
  apply there.not_above (Tree.lt_of_mem_ancestors here.below)
  rw [kind_declaration first]
  exact fun impossible => by cases impossible

theorem parent_declaration {d : Nat} (member : d ∈ s.declarations q) :
    ∃ p, (q.tree.node d).parent = some p ∧ p < q.tree.size ∧ p ≠ Tree.root := by
  obtain ⟨body, found, here⟩ := member_declaration attached member
  have below := Tree.lt_of_mem_node_children (Tree.mem_node_of_childByField found)
  have inside := declaration_lt_size member
  rcases here with above | ⟨part, -, higher, above⟩
  · exact ⟨body, above, below.2, Nat.ne_of_gt (Nat.lt_of_le_of_lt (Nat.zero_le _) below.1)⟩
  · have lower := Tree.parent_lt above
    have upper := Tree.parent_lt higher
    refine ⟨part, above, Nat.lt_trans lower inside, ?_⟩
    exact Nat.ne_of_gt (Nat.lt_of_le_of_lt (Nat.zero_le _) upper)

theorem eq_of_above {f g : InjectedField} (first : f ∈ s.fields q) (second : g ∈ s.fields q) {x : Nat}
    (left : f.declaration ∈ x :: q.tree.ancestors x)
    (right : g.declaration ∈ x :: q.tree.ancestors x) : f = g := by
  obtain ⟨amongF, foundF, -⟩ := field_of_mem_fields first
  obtain ⟨amongG, foundG, -⟩ := field_of_mem_fields second
  have same : f.declaration = g.declaration := by
    rcases Tree.comparable_of_ancestors left right with path | path
    · exact (List.mem_cons.mp path).resolve_right (not_above_declaration attached amongF amongG)
    · exact ((List.mem_cons.mp path).resolve_right
        (not_above_declaration attached amongG amongF)).symm
  rw [same, foundG] at foundF
  exact (Option.some.inj foundF).symm

end Hang

def importTexts : List String :=
  ["\n" ++ ("import " ++ objectProvider ++ ";"), "\n\n" ++ ("import " ++ objectProvider ++ ";"),
    "import " ++ objectProvider ++ ";" ++ "\n\n"]

theorem length_of_mem_importTexts : ∀ content ∈ importTexts, 6 < content.length := by
  decide +kernel

theorem getLast?_of_mem_importTexts :
    ∀ content ∈ importTexts, content.toList.getLast? ≠ some '\x7d' := by
  decide +kernel

theorem ne_empty_of_mem_importTexts {content : String} (written : content ∈ importTexts) :
    content ≠ "" := by
  rintro rfl
  have := length_of_mem_importTexts "" written
  rw [String.length_empty] at this
  omega

theorem importEdit_cases (t : Tree) : ∃ content ∈ importTexts,
    ((∃ anchor ∈ (t.node Tree.root).children, importEdit t = .insertAfter anchor (.text content)) ∨
      importEdit t = .prepend Tree.root (.text content)) := by
  unfold importEdit
  split
  · rename_i anchor found
    have among := (List.mem_filter.mp (List.mem_of_getLast? found)).1
    exact ⟨_, List.mem_cons_self, .inl ⟨anchor, Tree.mem_node_of_mem_namedChildren among, rfl⟩⟩
  · split
    · rename_i anchor found
      have among := (List.mem_filter.mp (List.mem_of_head? found)).1
      exact ⟨_, List.mem_cons_of_mem _ List.mem_cons_self,
        .inl ⟨anchor, Tree.mem_node_of_mem_children among, rfl⟩⟩
    · exact ⟨_, List.mem_cons_of_mem _ (List.mem_cons_of_mem _ List.mem_cons_self), .inr rfl⟩

theorem mem_imports {edit : Edit} (member : edit ∈ s.imports q) : edit = importEdit q.tree := by
  unfold Scope.imports at member
  split at member
  · exact List.mem_singleton.mp member
  · cases member

theorem mem_edits {edit : Edit} : edit ∈ s.edits q ↔
    (∃ f ∈ s.fields q, edit ∈ f.edits q.tree) ∨ edit = .insertAfter s.last (.text (s.text q)) ∨
      edit ∈ s.imports q := by
  unfold Scope.edits
  rw [List.mem_append, List.mem_append, List.mem_flatMap, List.mem_singleton, or_assoc]

section Edits

variable (sound : s.Sound q) (attached : q.tree.Attached) (spaced : q.tree.Spaced)
  (trim : q.tree.Trim)

include attached

theorem root_not_below {f : InjectedField} (member : f ∈ s.fields q) :
    f.declaration ∉ Tree.root :: q.tree.ancestors Tree.root := by
  intro path
  have := Tree.le_of_mem_ancestors path
  have := root_lt_declaration attached (field_of_mem_fields member).1
  omega

theorem import_about {edit : Edit} (member : edit ∈ s.imports q) :
    q.tree.Targets edit ∧ (∀ id, edit ≠ .parenthesize id) ∧ q.tree.host? edit = some Tree.root ∧
      edit.strikes = [] ∧ ∀ a ∈ q.tree.ancestors edit.target, a = Tree.root := by
  rw [mem_imports member]
  obtain ⟨content, -, ⟨anchor, child, same⟩ | same⟩ := importEdit_cases q.tree
  · have above := attached.parent_of_mem child
    have bounds := Tree.lt_of_mem_node_children child
    rw [same]
    refine ⟨⟨bounds.2, fun _ => Nat.ne_of_gt bounds.1⟩, by simp, above, rfl, ?_⟩
    intro a path
    rw [Edit.target, Tree.ancestors_of_parent above, Tree.ancestors_of_root attached.root_parent,
      List.mem_singleton] at path
    exact path
  · rw [same]
    refine ⟨⟨attached.nonempty, by simp [Edit.needsParent]⟩, by simp, rfl, rfl, ?_⟩
    intro a path
    rw [Edit.target, Tree.ancestors_of_root attached.root_parent] at path
    cases path

include sound

theorem constructor_about :
    q.tree.Targets (.insertAfter s.last (.text (s.text q))) ∧
      ∃ p, q.tree.host? (.insertAfter s.last (.text (s.text q))) = some p ∧
        (q.tree.node s.last).parent = some p ∧ p < q.tree.size ∧ p ≠ Tree.root := by
  obtain ⟨p, above, inside, deep⟩ := parent_declaration attached sound.last_mem
  refine ⟨⟨declaration_lt_size sound.last_mem, fun _ => ?_⟩, p, above, above, inside, deep⟩
  exact Nat.ne_of_gt (root_lt_declaration attached sound.last_mem)

theorem edits_about {edit : Edit} (member : edit ∈ s.edits q) :
    q.tree.Targets edit ∧ ∀ id, edit ≠ .parenthesize id := by
  rcases mem_edits.mp member with ⟨f, among, here⟩ | rfl | late
  · obtain ⟨targets, plain, -⟩ := (field_of_mem_fields among).2.2.edits_about attached here
    exact ⟨targets, plain⟩
  · exact ⟨(constructor_about sound attached).1, by simp⟩
  · obtain ⟨targets, plain, -⟩ := import_about attached late
    exact ⟨targets, plain⟩

omit sound in
theorem mem_strikes {r : Nat} :
    r ∈ (s.edits q).flatMap Edit.strikes ↔ ∃ f ∈ s.fields q, r = f.struck q.tree := by
  rw [List.mem_flatMap]
  constructor
  · rintro ⟨edit, member, struck⟩
    rcases mem_edits.mp member with ⟨f, among, here⟩ | rfl | late
    · obtain ⟨-, -, -, strikes, -⟩ := (field_of_mem_fields among).2.2.edits_about attached here
      exact ⟨f, among, strikes r struck⟩
    · cases struck
    · rw [(import_about attached late).2.2.2.1] at struck
      cases struck
  · rintro ⟨f, among, rfl⟩
    refine ⟨.remove (f.struck q.tree), ?_, List.mem_singleton_self _⟩
    exact mem_edits.mpr (.inl ⟨f, among, Field.remove_struck_mem⟩)

theorem struck_not_above_last {f : InjectedField} (among : f ∈ s.fields q) :
    f.struck q.tree ∉ s.last :: q.tree.ancestors s.last := by
  obtain ⟨declared, -, field⟩ := field_of_mem_fields among
  intro path
  exact not_above_declaration attached declared sound.last_mem
    (Tree.ancestors_trans path (field.above_struck attached))

omit sound attached in
include spaced trim in
theorem pairwise_fields : (s.fields q).Pairwise fun f g =>
    (q.tree.span f.declaration).stop ≤ (q.tree.span g.declaration).start ∧ f ≠ g := by
  have ordered : (s.declarations q).Pairwise fun a b =>
      (q.tree.span a).stop ≤ (q.tree.span b).start := (Tree.pairwise_members spaced s.type).filter _
  have placed : (s.fields q).Pairwise fun f g =>
      (q.tree.span f.declaration).stop ≤ (q.tree.span g.declaration).start := by
    apply List.pairwise_filterMap.mpr
    apply ordered.imp_of_mem
    intro d e first second before f found g other
    rw [(field_of_injectedField? (kind_declaration first) found).1,
      (field_of_injectedField? (kind_declaration second) other).1]
    exact before
  apply placed.imp_of_mem
  intro f g first _ before
  refine ⟨before, ?_⟩
  rintro rfl
  have := (field_of_mem_fields first).2.2.list_within spaced trim
  omega

omit sound in
include spaced trim in
/-- Edits of two fields are about nodes of their own. -/
theorem apart_fields : ((s.fields q).flatMap (·.edits q.tree)).Pairwise q.tree.Apart := by
  have field {f : InjectedField} (among : f ∈ s.fields q) := (field_of_mem_fields among).2.2
  apply List.pairwise_flatMap.mpr
  refine ⟨fun f among => (field among).pairwise_edits, ?_⟩
  apply (pairwise_fields spaced trim).imp_of_mem
  intro f g first second before a inF b inG
  obtain ⟨-, -, -, strikes, hosts⟩ := (field first).edits_about attached inF
  obtain ⟨-, -, about, -, others⟩ := (field second).edits_about attached inG
  refine ⟨?_, ?_⟩
  · intro r gone path
    rw [strikes r gone] at path
    apply before.2
    apply eq_of_above attached first second _ about
    exact List.mem_cons_of_mem _ (Tree.ancestors_trans path ((field first).above_struck attached))
  · intro x left right
    rw [hosts x left] at right
    apply before.2
    apply eq_of_above attached first second ((field first).above_site attached)
    rw [others _ right]
    exact (field second).above_site attached

theorem apart_constructor {f : InjectedField} (among : f ∈ s.fields q) {edit : Edit}
    (here : edit ∈ f.edits q.tree) : q.tree.Apart edit (.insertAfter s.last (.text (s.text q))) := by
  obtain ⟨declared, -, field⟩ := field_of_mem_fields among
  obtain ⟨-, p, host, above, -⟩ := constructor_about sound attached
  obtain ⟨-, -, -, strikes, hosts⟩ := field.edits_about attached here
  refine ⟨?_, ?_⟩
  · intro r gone
    rw [strikes r gone]
    exact struck_not_above_last sound attached among
  · intro x left right
    rw [host] at right
    obtain rfl := Option.some.inj right
    have path := field.above_site attached
    rw [← hosts p left, ← Tree.ancestors_of_parent above] at path
    exact not_above_declaration attached declared sound.last_mem path

omit sound in
theorem apart_import {f : InjectedField} (among : f ∈ s.fields q) {edit late : Edit}
    (here : edit ∈ f.edits q.tree) (member : late ∈ s.imports q) : q.tree.Apart edit late := by
  obtain ⟨declared, -, field⟩ := field_of_mem_fields among
  obtain ⟨-, -, top, -, higher⟩ := import_about attached member
  obtain ⟨-, -, -, strikes, hosts⟩ := field.edits_about attached here
  have positive := root_lt_declaration attached declared
  refine ⟨?_, ?_⟩
  · intro r gone path
    rw [strikes r gone] at path
    have equal := higher _ (Tree.ancestors_trans path (field.above_struck attached))
    omega
  · intro x left right
    rw [top] at right
    obtain rfl := Option.some.inj right
    have path := field.above_site attached
    rw [← hosts _ left] at path
    exact root_not_below attached among path

theorem apart_constructor_import {late : Edit} (member : late ∈ s.imports q) :
    q.tree.Apart (.insertAfter s.last (.text (s.text q))) late := by
  obtain ⟨-, p, host, -, -, deep⟩ := constructor_about sound attached
  obtain ⟨-, -, top, -, -⟩ := import_about attached member
  refine ⟨fun r gone => (by cases gone), ?_⟩
  intro x left right
  rw [top] at right
  rw [host] at left
  obtain rfl := Option.some.inj right
  exact deep (Option.some.inj left)

include spaced trim in
theorem pairwise_edits : (s.edits q).Pairwise q.tree.Apart := by
  have single : (s.imports q).Pairwise q.tree.Apart := by
    unfold Scope.imports
    split
    · exact List.pairwise_singleton _ _
    · exact .nil
  refine List.pairwise_append.mpr ⟨List.pairwise_append.mpr
    ⟨apart_fields attached spaced trim, List.pairwise_singleton _ _, ?_⟩, single, ?_⟩
  · intro a member b only
    obtain ⟨f, among, here⟩ := List.mem_flatMap.mp member
    rw [List.mem_singleton.mp only]
    exact apart_constructor sound attached among here
  · intro a member b late
    rcases List.mem_append.mp member with early | only
    · obtain ⟨f, among, here⟩ := List.mem_flatMap.mp early
      exact apart_import attached among here late
    · rw [List.mem_singleton.mp only]
      exact apart_constructor_import sound attached late

end Edits

end SpringLint.ConstructorInjection
