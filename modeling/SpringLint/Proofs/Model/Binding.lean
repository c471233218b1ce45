import SpringLint.Model.Bindings
import SpringLint.Proofs.Syntax.Traversal

/-! The walk that binds the names of a source. What a node opens is closed when the walk leaves it,
so every annotation is bound in the scope that the nodes above it open. -/

namespace SpringLint

namespace NodeMap

variable {α β : Type}

theorem get?_sized (size id : Nat) : (sized size : NodeMap α).get? id = none := by
  simp only [get?, sized, Array.getElem?_replicate]
  split <;> rfl

theorem get?_of_mem_toList {m : NodeMap α} {entry : Nat × α} (member : entry ∈ m.toList) :
    m.get? entry.1 = some entry.2 := by
  obtain ⟨id, -, found⟩ := List.mem_filterMap.mp member
  obtain ⟨value, here, rfl⟩ := Option.map_eq_some_iff.mp found
  exact here

end NodeMap

namespace Environment

variable {t : Tree} {env : Environment} {calls : Calls} {id : Nat}

def OnlyCalls (t : Tree) (calls : Calls) : Prop :=
  ∀ id callee, calls.get? id = some callee → t.kind id = .methodInvocation

theorem OnlyCalls.sized (size : Nat) : OnlyCalls t (NodeMap.sized size) := by
  intro id callee found
  rw [NodeMap.get?_sized] at found
  cases found

theorem OnlyCalls.set (only : OnlyCalls t calls) (call : t.kind id = .methodInvocation)
    (callee : Option Callee) : OnlyCalls t (calls.set id callee) := by
  intro other found known
  rw [NodeMap.get?_set] at known
  split at known
  · rename_i here
    exact here.1 ▸ call
  · exact only other found known

theorem OnlyCalls.calleeOf (only : OnlyCalls t calls) (call : t.kind id = .methodInvocation)
    (receiver : ∀ c ∈ (t.node id).children, OnlyCalls t (env.typeOf t calls c).2) :
    OnlyCalls t (env.calleeOf t calls id).2 := by
  rw [Environment.calleeOf]
  split
  · exact only
  · split
    · exact only.set call _
    · dsimp only
      split
      · exact (receiver _ (Tree.mem_node_of_childByField ‹_›)).set call _
      · exact only.set call _

theorem OnlyCalls.typeOf (only : OnlyCalls t calls) (id : Nat) :
    OnlyCalls t (env.typeOf t calls id).2 := by
  induction later : t.size - id using Nat.strongRecOn generalizing id with
  | ind _ ih =>
    have below : ∀ c ∈ (t.node id).children, OnlyCalls t (env.typeOf t calls c).2 :=
      fun c child => ih _ (by have := Tree.child_decreases child; omega) c rfl
    rw [Environment.typeOf]
    split
    all_goals try exact only
    · rename_i call
      exact only.calleeOf call below
    · split
      · exact below _ (Tree.mem_node_of_mem_namedChildren (List.mem_of_head? ‹_›))
      · exact only
    · split
      · rename_i object field found _
        have receiver := below object (Tree.mem_node_of_childByField found)
        split
        · rename_i told
          rwa [told] at receiver
        · rename_i told
          rwa [told] at receiver
      · exact only

theorem OnlyCalls.call (only : OnlyCalls t calls) (call : t.kind id = .methodInvocation) :
    OnlyCalls t (env.calleeOf t calls id).2 :=
  only.calleeOf call fun c _ => only.typeOf c

end Environment

namespace BindingWalk

variable {t : Tree} {types : List TypeDecl} {w : BindingWalk} {id : Nat}

/-- What a node changes when it declares variables at most: nothing that annotations depend on. -/
structure Local (t : Tree) (before after : BindingWalk) : Prop where
  types : after.types = before.types
  enclosing : after.enclosing = before.enclosing
  generics : after.generics = before.generics
  bindings : after.bindings = before.bindings
  calls : Environment.OnlyCalls t before.calls → Environment.OnlyCalls t after.calls

namespace Local

theorem refl (t : Tree) (w : BindingWalk) : Local t w w :=
  ⟨rfl, rfl, rfl, rfl, fun only => only⟩

theorem trans {a b c : BindingWalk} (first : Local t a b) (second : Local t b c) : Local t a c where
  types := second.types.trans first.types
  enclosing := second.enclosing.trans first.enclosing
  generics := second.generics.trans first.generics
  bindings := second.bindings.trans first.bindings
  calls := fun only => second.calls (first.calls only)

theorem openFrame (w : BindingWalk) (frame : Frame) : Local t w (w.openFrame frame) :=
  ⟨rfl, rfl, rfl, rfl, fun only => only⟩

theorem declare (w : BindingWalk) (name : Nat) (type : Option String) :
    Local t w (declare t w name type) :=
  ⟨rfl, rfl, rfl, rfl, fun only => only⟩

theorem declaredType (w : BindingWalk) (type value : Option Nat) :
    Local t w (declaredType t w type value).2 := by
  unfold BindingWalk.declaredType
  split
  · exact refl t w
  · split
    · split
      · exact refl t w
      · exact ⟨rfl, rfl, rfl, rfl, fun only => only.typeOf _⟩
    · exact refl t w

theorem declareNamed (w : BindingWalk) (id : Nat) : Local t w (declareNamed t w id) := by
  unfold BindingWalk.declareNamed
  split
  · exact refl t w
  · exact (declaredType w _ none).trans (declare _ _ _)

theorem declareVariable (w : BindingWalk) (id : Nat) : Local t w (declareVariable t w id) := by
  unfold BindingWalk.declareVariable
  split
  · split
    · exact refl t w
    · exact refl t w
    · exact declare w _ _
    · exact (declaredType w _ _).trans (declare _ _ _)
  · exact refl t w

theorem declareLambda (w : BindingWalk) (id : Nat) : Local t w (declareLambda t w id) := by
  unfold BindingWalk.declareLambda
  split
  · exact refl t w
  · rename_i list _
    split
    · exact declare w _ _
    · generalize t.childrenOfKind list .identifier = names
      induction names generalizing w with
      | nil => exact refl t w
      | cons name rest ih => exact (declare w name none).trans (ih _)
    · exact refl t w

theorem declareCaught (w : BindingWalk) (id : Nat) : Local t w (declareCaught t w id) := by
  unfold BindingWalk.declareCaught
  split
  · exact refl t w
  · exact declare w _ _

end Local

/-- Whether a node of a kind declares a method, whose type variables are known inside. -/
def opensMethod : Kind → Bool
  | .methodDeclaration | .constructorDeclaration | .compactConstructorDeclaration => true
  | _ => false

/-- The scope once the walk has entered a node, which may declare a type. -/
def opened (t : Tree) (id : Nat) (declared : Option TypeDecl) (scope : TypeScope) : TypeScope :=
  match declared with
  | some d => if d.isAnonymous then scope else scope.enterType d.name d.typeParameters
  | none =>
    if opensMethod (t.kind id) then scope.enterVariables (methodVariables t id) else scope

/-- What the walk does at a node before it goes on below: a type and a method are remembered with
what they open, and no other node is bound. -/
structure Visited (t : Tree) (id : Nat) (declared : Option TypeDecl) (before after : BindingWalk) :
    Prop where
  types : after.types = opened t id declared before.types
  enclosing : after.enclosing = (declared.map (id, ·)).toList ++ before.enclosing
  generics : after.generics =
    if declared = none ∧ opensMethod (t.kind id) = true then id :: before.generics
    else before.generics
  others : ∀ x, x ≠ id → after.bindings.get? x = before.bindings.get? x
  size : after.bindings.slots.size = before.bindings.slots.size
  use : declared = none → (t.kind id).isAnnotationUse = true →
    after.bindings = (bindUse t before id).bindings
  calls : Environment.OnlyCalls t before.calls → Environment.OnlyCalls t after.calls

namespace Visited

theorem of_local {after : BindingWalk}
    (quiet : (opensMethod (t.kind id) || (t.kind id).isAnnotationUse) = false)
    (inner : Local t w after) : Visited t id none w after := by
  obtain ⟨method, use⟩ := Bool.or_eq_false_iff.mp quiet
  refine ⟨?_, inner.enclosing, ?_, fun x _ => ?_, ?_, fun _ isUse => ?_, inner.calls⟩
  · simp [opened, method, inner.types]
  · simp [method, inner.generics]
  · rw [inner.bindings]
  · rw [inner.bindings]
  · rw [use] at isUse
    cases isUse

theorem of_bind (method : opensMethod (t.kind id) = false) (binding : Binding)
    (use : (t.kind id).isAnnotationUse = true →
      (w.bind id binding).bindings = (bindUse t w id).bindings) :
    Visited t id none w (w.bind id binding) where
  types := by simp [opened, method, bind]
  enclosing := rfl
  generics := by simp [method, bind]
  others := fun x other => by simp [bind, NodeMap.get?_set, Ne.symm other]
  size := NodeMap.size_set ..
  use := fun _ => use
  calls := fun only => only

theorem bindUse (method : opensMethod (t.kind id) = false) :
    Visited t id none w (BindingWalk.bindUse t w id) := by
  cases found : (t.childByField id "name").bind fun name => w.types.resolve (t.text name) with
  | some type =>
    have bound : BindingWalk.bindUse t w id = w.bind id (.type type) := by
      simp only [BindingWalk.bindUse, found]
    rw [bound]
    exact of_bind method _ fun _ => by rw [bound]
  | none =>
    have bound : BindingWalk.bindUse t w id = w := by simp only [BindingWalk.bindUse, found]
    rw [bound]
    refine ⟨?_, rfl, ?_, fun _ _ => rfl, rfl, fun _ _ => by rw [bound], fun only => only⟩
    · simp [opened, method]
    · simp [method]

theorem bindLink (quiet : (opensMethod (t.kind id) || (t.kind id).isAnnotationUse) = false) :
    Visited t id none w (BindingWalk.bindLink t w id) := by
  obtain ⟨method, use⟩ := Bool.or_eq_false_iff.mp quiet
  have unbound : Visited t id none w w := .of_local quiet (.refl t w)
  unfold BindingWalk.bindLink
  dsimp only
  split
  · exact unbound
  · split
    · split
      · exact .of_bind method _ (by simp [use])
      · exact unbound
    · exact unbound

theorem bindName (quiet : (opensMethod (t.kind id) || (t.kind id).isAnnotationUse) = false) :
    Visited t id none w (BindingWalk.bindName t w id) := by
  obtain ⟨method, use⟩ := Bool.or_eq_false_iff.mp quiet
  have unbound : Visited t id none w w := .of_local quiet (.refl t w)
  unfold BindingWalk.bindName
  split
  · split
    · exact .of_bind method _ (by simp [use])
    · exact unbound
  · exact unbound

theorem enterType (d : TypeDecl) : Visited t id (some d) w (w.enterType id d) := by
  unfold BindingWalk.enterType
  dsimp only
  split
  · rename_i nameless
    refine ⟨?_, rfl, rfl, fun x _ => rfl, rfl, nofun, fun only => only⟩
    simp [opened, nameless]
  · rename_i named
    refine ⟨?_, rfl, rfl, fun x other => ?_, NodeMap.size_set .., nofun, fun only => only⟩
    · simp [opened, named, bind]
    · simp [bind, NodeMap.get?_set, Ne.symm other]

theorem enterMethod (method : opensMethod (t.kind id) = true)
    (use : (t.kind id).isAnnotationUse = false) :
    Visited t id none w (BindingWalk.enterMethod t w id) where
  types := by simp [opened, method, BindingWalk.enterMethod]
  enclosing := rfl
  generics := by simp [method, BindingWalk.enterMethod]
  others := fun _ _ => rfl
  size := rfl
  use := fun _ isUse => by simp [use] at isUse
  calls := fun only => only

end Visited

theorem visited (t : Tree) (types : List TypeDecl) (id : Nat) (w : BindingWalk) :
    Visited t id (types.find? fun d => d.node == some id) w (visit t types id w) := by
  unfold visit
  split
  · rename_i found
    rw [found]
    exact .enterType _
  · rename_i plain
    rw [plain]
    split
    all_goals rename_i kind
    · exact .enterMethod (by rw [kind]; rfl) (by rw [kind]; rfl)
    · exact .enterMethod (by rw [kind]; rfl) (by rw [kind]; rfl)
    · exact .enterMethod (by rw [kind]; rfl) (by rw [kind]; rfl)
    · exact .of_local (by rw [kind]; rfl) ((Local.openFrame w _).trans (.declareLambda _ _))
    iterate 7 exact .of_local (by rw [kind]; rfl) (.openFrame w _)
    · exact .of_local (by rw [kind]; rfl) ((Local.openFrame w _).trans (.declareNamed _ _))
    iterate 3 exact .of_local (by rw [kind]; rfl) (.declareNamed w _)
    · exact .of_local (by rw [kind]; rfl) (.declareCaught w _)
    · exact .of_local (by rw [kind]; rfl) (.declareVariable w _)
    · exact .bindUse (by rw [kind]; rfl)
    · exact .bindUse (by rw [kind]; rfl)
    · exact .bindLink (by rw [kind]; rfl)
    · exact .bindName (by rw [kind]; rfl)
    · exact .of_local (by rw [kind]; rfl) ⟨rfl, rfl, rfl, rfl, fun only => only.call kind⟩
    · refine .of_local (Bool.or_eq_false_iff.mpr ⟨?_, ?_⟩) (.refl t w)
      · unfold opensMethod
        split <;> first | rfl | contradiction
      · unfold Kind.isAnnotationUse
        split <;> first | rfl | contradiction

/-- What the walk has opened, it has opened above a node. -/
structure Outside (w : BindingWalk) (id : Nat) : Prop where
  enclosing : ∀ entry ∈ w.enclosing, entry.1 < id
  generics : ∀ owner ∈ w.generics, owner < id

structure Restored (before after : BindingWalk) : Prop where
  types : after.types = before.types
  enclosing : after.enclosing = before.enclosing
  generics : after.generics = before.generics

namespace Restored

theorem refl (w : BindingWalk) : Restored w w :=
  ⟨rfl, rfl, rfl⟩

theorem trans {a b c : BindingWalk} (first : Restored a b) (second : Restored b c) :
    Restored a c where
  types := second.types.trans first.types
  enclosing := second.enclosing.trans first.enclosing
  generics := second.generics.trans first.generics

theorem outside {after : BindingWalk} (restored : Restored w after) (above : w.Outside id) :
    after.Outside id :=
  ⟨restored.enclosing ▸ above.enclosing, restored.generics ▸ above.generics⟩

end Restored

theorem Outside.visit {after : BindingWalk} {declared : Option TypeDecl} (above : w.Outside id)
    (visited : Visited t id declared w after) {c : Nat} (below : id < c) : after.Outside c := by
  constructor
  · rw [visited.enclosing]
    intro entry member
    rcases List.mem_append.mp member with own | old
    · obtain ⟨d, -, rfl⟩ := Option.map_eq_some_iff.mp (Option.mem_toList.mp own)
      exact below
    · exact Nat.lt_trans (above.enclosing entry old) below
  · rw [visited.generics]
    intro owner member
    split at member
    · rcases List.mem_cons.mp member with rfl | old
      · exact below
      · exact Nat.lt_trans (above.generics owner old) below
    · exact Nat.lt_trans (above.generics owner member) below

/-! Leaving a node closes a frame, a method and a type, each if the node has opened it. -/

def closeFrame (id : Nat) (w : BindingWalk) : BindingWalk :=
  if (w.frames.head?.map (·.owner)) == some id then { w with frames := w.frames.tail } else w

def closeMethod (id : Nat) (w : BindingWalk) : BindingWalk :=
  if w.generics.head? == some id then
    { w with generics := w.generics.tail, types := w.types.leaveVariables }
  else w

def closeType (id : Nat) (w : BindingWalk) : BindingWalk :=
  match w.enclosing.head? with
  | some (owner, d) =>
    if owner == id then
      { w with
        enclosing := w.enclosing.tail
        types := if d.isAnonymous then w.types else w.types.leaveType }
    else w
  | none => w

theorem leave_eq (id : Nat) (w : BindingWalk) :
    leave id w = closeType id (closeMethod id (closeFrame id w)) :=
  rfl

theorem closeFrame_restored (id : Nat) (w : BindingWalk) : Restored w (closeFrame id w) := by
  unfold closeFrame
  split <;> exact ⟨rfl, rfl, rfl⟩

theorem closeMethod_of_lt (above : ∀ owner ∈ w.generics, owner < id) : closeMethod id w = w := by
  refine if_neg fun first => ?_
  exact Nat.lt_irrefl id (above id (List.mem_of_head? (beq_iff_eq.mp first)))

theorem closeMethod_own {rest : List Nat} (own : w.generics = id :: rest) :
    closeMethod id w = { w with generics := rest, types := w.types.leaveVariables } := by
  simp [closeMethod, own]

theorem closeType_of_lt (above : ∀ entry ∈ w.enclosing, entry.1 < id) : closeType id w = w := by
  unfold closeType
  split
  · rename_i first
    have other := Nat.ne_of_lt (above _ (List.mem_of_head? first))
    exact if_neg (by simpa using other)
  · rfl

theorem closeType_own {d : TypeDecl} {rest : List (Nat × TypeDecl)}
    (own : w.enclosing = (id, d) :: rest) :
    closeType id w =
      { w with
        enclosing := rest
        types := if d.isAnonymous then w.types else w.types.leaveType } := by
  simp [closeType, own]

theorem bindings_leave (id : Nat) (w : BindingWalk) : (leave id w).bindings = w.bindings := by
  rw [leave_eq, closeType, closeMethod, closeFrame]
  repeat' split
  all_goals rfl

theorem calls_leave (id : Nat) (w : BindingWalk) : (leave id w).calls = w.calls := by
  rw [leave_eq, closeType, closeMethod, closeFrame]
  repeat' split
  all_goals rfl

theorem restored_leave {inner last : BindingWalk} {declared : Option TypeDecl}
    (above : w.Outside id) (visited : Visited t id declared w inner) (same : Restored inner last) :
    Restored w (leave id last) := by
  have kept := same.trans (closeFrame_restored id last)
  rw [leave_eq]
  generalize closeFrame id last = v at kept
  have types := kept.types.trans visited.types
  have enclosing := kept.enclosing.trans visited.enclosing
  have generics := kept.generics.trans visited.generics
  cases declared with
  | some d =>
    rw [closeMethod_of_lt (generics ▸ above.generics), closeType_own enclosing]
    refine ⟨?_, rfl, generics⟩
    rw [types, opened]
    split <;> rfl
  | none =>
    by_cases method : opensMethod (t.kind id) = true
    · rw [if_pos ⟨rfl, method⟩] at generics
      rw [closeMethod_own generics, closeType_of_lt (enclosing ▸ above.enclosing)]
      refine ⟨?_, enclosing, rfl⟩
      rw [types, opened, if_pos method]
      rfl
    · rw [if_neg fun both => method both.2] at generics
      rw [closeMethod_of_lt (generics ▸ above.generics), closeType_of_lt (enclosing ▸ above.enclosing)]
      refine ⟨?_, enclosing, generics⟩
      rw [types, opened, if_neg method]

/-- The scope around a node: what the nodes above it open. -/
def scopeAround (t : Tree) (types : List TypeDecl) (start : TypeScope) (id : Nat) : TypeScope :=
  (t.ancestors id).foldr (fun a => opened t a (types.find? fun d => d.node == some a)) start

variable {start : TypeScope}

theorem scopeAround_child (attached : t.Attached) {c : Nat} (child : c ∈ (t.node id).children) :
    scopeAround t types start c =
      opened t id (types.find? fun d => d.node == some id) (scopeAround t types start id) := by
  rw [scopeAround, Tree.ancestors_of_parent (attached.parent_of_mem child)]
  rfl

theorem index_opened (declared : Option TypeDecl) (scope : TypeScope) :
    (opened t id declared scope).index = scope.index := by
  unfold opened
  split
  · split <;> rfl
  · split <;> rfl

theorem index_scopeAround (types : List TypeDecl) (start : TypeScope) (id : Nat) :
    (scopeAround t types start id).index = start.index := by
  unfold scopeAround
  induction t.ancestors id with
  | nil => rfl
  | cons y above ih => exact (index_opened _ _).trans ih

def useBinding? (t : Tree) (scope : TypeScope) (id : Nat) : Option Binding :=
  ((t.childByField id "name").bind fun name => scope.resolve (t.text name)).map .type

theorem get?_bindUse (inside : id < w.bindings.slots.size) :
    (bindUse t w id).bindings.get? id = (useBinding? t w.types id).or (w.bindings.get? id) := by
  rw [bindUse, useBinding?]
  split
  · rename_i found
    simp [found, bind, NodeMap.get?_set, inside]
  · rename_i found
    simp [found]

def Bound (t : Tree) (types : List TypeDecl) (start : TypeScope) (w : BindingWalk) (use : Nat) : Prop :=
  w.bindings.get? use = useBinding? t (scopeAround t types start use) use

/-- No annotation is bound otherwise than its own scope says. -/
structure Sound (t : Tree) (types : List TypeDecl) (start : TypeScope) (w : BindingWalk) : Prop where
  size : w.bindings.slots.size = t.size
  uses : ∀ a, (t.kind a).isAnnotationUse = true → w.bindings.get? a = none ∨ w.Bound t types start a
  calls : Environment.OnlyCalls t w.calls

/-- What the walk does on its way through nodes `ids`: scopes are as before, bindings stay, and the
annotations among the nodes are bound. -/
structure Passed (t : Tree) (types : List TypeDecl) (start : TypeScope) (ids : List Nat)
    (before after : BindingWalk) : Prop where
  restored : Restored before after
  sound : after.Sound t types start
  kept : ∀ a, (t.kind a).isAnnotationUse = true → before.Bound t types start a →
    after.Bound t types start a
  bound : ∀ a ∈ ids, (t.kind a).isAnnotationUse = true → after.Bound t types start a

theorem Passed.refl (sound : w.Sound t types start) : Passed t types start [] w w :=
  ⟨.refl w, sound, fun _ _ bound => bound, nofun⟩

theorem Passed.append {first second : List Nat} {a b c : BindingWalk}
    (left : Passed t types start first a b) (right : Passed t types start second b c) :
    Passed t types start (first ++ second) a c where
  restored := left.restored.trans right.restored
  sound := right.sound
  kept := fun x use bound => right.kept x use (left.kept x use bound)
  bound := fun x member use => by
    rcases List.mem_append.mp member with early | late
    · exact right.kept x use (left.bound x early use)
    · exact right.bound x late use

theorem lt_size_of_isAnnotationUse (use : (t.kind id).isAnnotationUse = true) : id < t.size := by
  refine Tree.lt_size_of_kind fun unknown => ?_
  rw [unknown] at use
  cases use

section Walk

variable (apart : ∀ id d, types.find? (fun d => d.node == some id) = some d →
  (t.kind id).isAnnotationUse = false)
include apart

/-- An annotation is bound in the scope that the walk is in. -/
theorem bound_visit (sound : w.Sound t types start) (scope : w.types = scopeAround t types start id)
    (use : (t.kind id).isAnnotationUse = true) : (visit t types id w).Bound t types start id := by
  have plain : types.find? (fun d => d.node == some id) = none := by
    cases found : types.find? fun d => d.node == some id with
    | none => rfl
    | some d =>
      rw [apart id d found] at use
      cases use
  have inside : id < w.bindings.slots.size := sound.size ▸ lt_size_of_isAnnotationUse use
  rw [Bound, (visited t types id w).use plain use, get?_bindUse inside, scope]
  rcases sound.uses id use with unbound | before
  · rw [unbound, Option.or_none]
  · rw [before, Option.or_self]

theorem kept_visit (sound : w.Sound t types start) (scope : w.types = scopeAround t types start id)
    {a : Nat} (use : (t.kind a).isAnnotationUse = true) (bound : w.Bound t types start a) :
    (visit t types id w).Bound t types start a := by
  by_cases here : a = id
  · subst here
    exact bound_visit apart sound scope use
  · exact ((visited t types id w).others a here).trans bound

theorem Sound.visit (sound : w.Sound t types start)
    (scope : w.types = scopeAround t types start id) : (visit t types id w).Sound t types start where
  size := (visited t types id w).size.trans sound.size
  uses := fun a use => by
    by_cases here : a = id
    · subst here
      exact .inr (bound_visit apart sound scope use)
    · rw [Bound, (visited t types id w).others a here]
      exact sound.uses a use
  calls := (visited t types id w).calls sound.calls

theorem passed_traverse (attached : t.Attached) (above : w.Outside id)
    (scope : w.types = scopeAround t types start id) (sound : w.Sound t types start) :
    Passed t types start (t.descendants id) w (t.traverse (visitor t types) id w) := by
  induction later : t.size - id using Nat.strongRecOn generalizing id w with
  | ind _ ih =>
    have below : ∀ ids : List Nat, (∀ c ∈ ids, c ∈ t.children id) → ∀ v : BindingWalk,
        v.types = opened t id (types.find? fun d => d.node == some id) (scopeAround t types start id) →
        (∀ c ∈ ids, v.Outside c) → v.Sound t types start →
        Passed t types start (ids.flatMap t.descendants) v
          (ids.foldl (fun v c => t.traverse (visitor t types) c v) v) := by
      intro ids
      induction ids with
      | nil => exact fun _ v _ _ sound => .refl sound
      | cons c rest next =>
        intro members v scope above sound
        obtain ⟨child, others⟩ := List.forall_mem_cons.mp members
        obtain ⟨here, behind⟩ := List.forall_mem_cons.mp above
        have member := Tree.mem_node_of_mem_children child
        have first := ih _ (by have := Tree.child_decreases member; omega) here
          (scope.trans (scopeAround_child attached member).symm) sound rfl
        refine first.append (next others _ (first.restored.types.trans scope) ?_ first.sound)
        exact fun x late => first.restored.outside (behind x late)
    have entered := visited t types id w
    have inner := below (t.children id) (fun _ child => child) (visit t types id w)
      (by rw [entered.types, scope])
      (fun c child => above.visit entered
        (Tree.lt_of_mem_node_children (Tree.mem_node_of_mem_children child)).1)
      (sound.visit apart scope)
    have after : ∀ v : BindingWalk, ∀ a, v.Bound t types start a → (leave id v).Bound t types start a :=
      fun v a bound => by rwa [Bound, bindings_leave]
    rw [Tree.traverse_eq, Tree.descendants_eq]
    refine ⟨restored_leave above entered inner.restored, ?_, ?_, ?_⟩
    · refine ⟨?_, ?_, ?_⟩
      · exact (congrArg (·.slots.size) (bindings_leave id _)).trans inner.sound.size
      · intro a use
        exact (inner.sound.uses a use).imp (congrArg (·.get? a) (bindings_leave id _)).trans (after _ a)
      · exact (calls_leave id _).symm ▸ inner.sound.calls
    · exact fun a use bound => after _ a (inner.kept a use (kept_visit apart sound scope use bound))
    · intro a member use
      rcases List.mem_cons.mp member with rfl | deeper
      · exact after _ a (inner.kept a use (bound_visit apart sound scope use))
      · exact after _ a (inner.bound a deeper use)

end Walk

theorem get?_result (only : Environment.OnlyCalls t w.calls)
    (plain : t.kind id ≠ .methodInvocation) : w.result.get? id = w.bindings.get? id := by
  have other : ∀ entry ∈ w.calls.toList, entry.1 ≠ id := by
    rintro ⟨x, callee⟩ member rfl
    exact plain (only x callee (NodeMap.get?_of_mem_toList member))
  unfold result
  generalize w.calls.toList = entries at other
  generalize w.bindings = bindings
  induction entries generalizing bindings with
  | nil => rfl
  | cons entry rest ih =>
    obtain ⟨here, later⟩ := List.forall_mem_cons.mp other
    obtain ⟨x, callee⟩ := entry
    rw [List.foldl_cons, ih later]
    cases callee with
    | some callee => exact (NodeMap.get?_set ..).trans (if_neg fun same => here same.1)
    | none => rfl

end BindingWalk

theorem Bindings.get?_ofTree {t : Tree} {types : List TypeDecl} (attached : t.Attached)
    (apart : ∀ id d, types.find? (fun d => d.node == some id) = some d →
      (t.kind id).isAnnotationUse = false)
    (header : Header) (index : Index) {use : Nat} (below : use ∈ t.descendants Tree.root)
    (isUse : (t.kind use).isAnnotationUse = true) :
    (ofTree t header types index).get? use =
      BindingWalk.useBinding? t
        (BindingWalk.scopeAround t types (TypeScope.ofHeader index header) use) use := by
  let start : BindingWalk :=
    { types := TypeScope.ofHeader index header
      variableTypes := NodeMap.sized t.size
      calls := NodeMap.sized t.size
      bindings := NodeMap.sized t.size }
  have scope : start.types =
      BindingWalk.scopeAround t types (TypeScope.ofHeader index header) Tree.root := by
    rw [BindingWalk.scopeAround, Tree.ancestors_of_root attached.root_parent]
    rfl
  have sound : start.Sound t types (TypeScope.ofHeader index header) := by
    refine ⟨Array.size_replicate, ?_, .sized t.size⟩
    exact fun a _ => .inl (NodeMap.get?_sized t.size a)
  have above : start.Outside Tree.root := by constructor <;> simp [start]
  have passed := BindingWalk.passed_traverse apart attached above scope sound
  have plain : t.kind use ≠ .methodInvocation := by
    intro call
    rw [call] at isUse
    cases isUse
  change (t.walk _ Tree.root start).result.get? use = _
  rw [Tree.walk_eq, BindingWalk.get?_result passed.sound.calls plain]
  exact passed.bound use below isUse

end SpringLint
