import SpringLint.Syntax.Kind
import SpringLint.Text.Slice

/-! Syntax trees. The nodes of a tree are numbered, each after its parent, and are named by their
numbers. -/

namespace SpringLint

inductive Insertion where
  /-- A modifier keyword, set apart from its neighbours by single spaces. -/
  | keyword (word : String)
  | text (content : String)
  deriving DecidableEq, Repr

inductive Origin where
  | parsed
  | inserted (insertion : Insertion)
  deriving DecidableEq, Repr

structure Node where
  kind : Kind
  span : Span
  /-- The name under which the grammar hangs the node off its parent. -/
  field : Option String := none
  parent : Option Nat := none
  children : List Nat := []
  origin : Origin := .parsed
  removed : Bool := false
  /-- Whether an edit has touched the node or something inside it. -/
  dirty : Bool := false
  parenthesized : Bool := false
  deriving DecidableEq, Repr

namespace Node

def isInserted (n : Node) : Bool :=
  match n.origin with
  | .inserted _ => true
  | .parsed => false

def absent : Node := { kind := .other "", span := ⟨0, 0⟩ }

end Node

/-- Children are numbered after their parent, and a parent before its children. -/
def Linked (nodes : Array Node) : Prop :=
  ∀ (i : Nat) (n : Node), nodes[i]? = some n →
    (∀ c ∈ n.children, i < c ∧ c < nodes.size) ∧ ∀ p, n.parent = some p → p < i

/-- A source text and its nodes; node zero is the root. -/
structure Tree where
  source : String
  nodes : Array Node
  linked : Linked nodes

namespace Tree

def size (t : Tree) : Nat := t.nodes.size

def root : Nat := 0

def node (t : Tree) (id : Nat) : Node :=
  t.nodes[id]?.getD Node.absent

def kind (t : Tree) (id : Nat) : Kind := (t.node id).kind

def span (t : Tree) (id : Nat) : Span := (t.node id).span

def parent (t : Tree) (id : Nat) : Option Nat := (t.node id).parent

def text (t : Tree) (id : Nat) : String :=
  let n := t.node id
  if n.isInserted then "" else Text.slice t.source n.span

theorem lt_of_mem_node_children {t : Tree} {id c : Nat} (member : c ∈ (t.node id).children) :
    id < c ∧ c < t.size := by
  unfold node at member
  cases found : t.nodes[id]? with
  | none => simp [found, Node.absent] at member
  | some n =>
    rw [found] at member
    exact (t.linked id n found).1 c member

theorem parent_lt {t : Tree} {id p : Nat} (above : (t.node id).parent = some p) : p < id := by
  unfold node at above
  cases found : t.nodes[id]? with
  | none => simp [found, Node.absent] at above
  | some n =>
    rw [found] at above
    exact (t.linked id n found).2 p above

theorem child_decreases {t : Tree} {id c : Nat} (member : c ∈ (t.node id).children) :
    t.size - c < t.size - id := by
  have := lt_of_mem_node_children member
  omega

/-- The children that no edit has removed, tokens included. -/
def children (t : Tree) (id : Nat) : List Nat :=
  (t.node id).children.filter fun c => !(t.node c).removed

theorem mem_node_of_mem_children {t : Tree} {id c : Nat} (member : c ∈ t.children id) :
    c ∈ (t.node id).children :=
  (List.mem_filter.mp member).1

def namedChildren (t : Tree) (id : Nat) : List Nat :=
  (t.children id).filter fun c => !(t.kind c).isToken

theorem mem_node_of_mem_namedChildren {t : Tree} {id c : Nat}
    (member : c ∈ t.namedChildren id) : c ∈ (t.node id).children :=
  mem_node_of_mem_children (List.mem_filter.mp member).1

def childrenByField (t : Tree) (id : Nat) (field : String) : List Nat :=
  (t.children id).filter fun c => (t.node c).field == some field

def childByField (t : Tree) (id : Nat) (field : String) : Option Nat :=
  (t.childrenByField id field).head?

theorem mem_node_of_childByField {t : Tree} {id c : Nat} {field : String}
    (found : t.childByField id field = some c) : c ∈ (t.node id).children :=
  mem_node_of_mem_children (List.mem_filter.mp (List.mem_of_head? found)).1

def childrenOfKind (t : Tree) (id : Nat) (kind : Kind) : List Nat :=
  (t.children id).filter fun c => t.kind c == kind

def childOfKind (t : Tree) (id : Nat) (kind : Kind) : Option Nat :=
  (t.childrenOfKind id kind).head?

def hasToken (t : Tree) (id : Nat) (text : String) : Bool :=
  (t.children id).any fun c => t.kind c == .token text

def ancestors (t : Tree) (id : Nat) : List Nat :=
  match _above : (t.node id).parent with
  | some p => p :: t.ancestors p
  | none => []
termination_by id
decreasing_by exact parent_lt ‹_›

def findAncestor (t : Tree) (id : Nat) (p : Kind → Bool) : Option Nat :=
  (t.ancestors id).find? fun a => p (t.kind a)

/-- A node and everything below it that no edit has removed, parents before their children and
children in order. -/
def descendants (t : Tree) (id : Nat) : List Nat :=
  id :: (t.children id).attach.flatMap fun c => t.descendants c.1
termination_by t.size - id
decreasing_by exact child_decreases (mem_node_of_mem_children c.2)

/-- Goes down from a node as long as a named child covers the target, to the first such child. -/
def coverFrom (t : Tree) (target : Span) (id : Nat) : Nat :=
  match _found : (t.namedChildren id).find? fun c => (t.span c).contains target with
  | some c => t.coverFrom target c
  | none => id
termination_by t.size - id
decreasing_by
  exact child_decreases (mem_node_of_mem_namedChildren (List.mem_of_find?_eq_some ‹_›))

/-- The deepest named node that covers the bytes from `start` to `stop`. -/
def coveringNode (t : Tree) (start stop : Nat) : Option Nat :=
  let target : Span := ⟨start, stop⟩
  if (t.span root).contains target then some (t.coverFrom target root) else none

def lineNumber (t : Tree) (offset : Nat) : Nat :=
  Text.lineOf (Text.lineStarts t.source) offset

def lineStart (t : Tree) (offset : Nat) : Nat :=
  Text.lineStart (Text.lineStarts t.source) offset

/-! Changing nodes. -/

def modify (t : Tree) (id : Nat) (f : Node → Node)
    (keeps : ∀ n, (f n).children = n.children ∧ (f n).parent = n.parent) : Tree where
  source := t.source
  nodes := t.nodes.modify id f
  linked := by
    intro i n found
    rw [Array.getElem?_modify] at found
    rw [Array.size_modify]
    split at found
    · obtain ⟨old, here, rfl⟩ := Option.map_eq_some_iff.mp found
      rw [(keeps old).1, (keeps old).2]
      exact t.linked i old here
    · exact t.linked i n found

/-- Adds a node as the child of `parent` that stands at `index` among its children. Its number is
the former size of the tree. -/
def addChild (t : Tree) (parent : Nat) (index : Nat) (node : Node) : Tree :=
  if inside : parent < t.nodes.size then
    { source := t.source
      nodes := (t.nodes.push { node with parent := some parent, children := [] }).modify parent
        fun n => { n with children := n.children.insertIdx index t.nodes.size }
      linked := by
        intro i n found
        rw [Array.getElem?_modify] at found
        rw [Array.size_modify, Array.size_push]
        by_cases target : parent = i
        · subst target
          rw [if_pos rfl] at found
          obtain ⟨old, here, rfl⟩ := Option.map_eq_some_iff.mp found
          rw [Array.getElem?_push_lt inside] at here
          have before := t.linked parent old (by rw [Array.getElem?_eq_getElem inside, here])
          refine ⟨fun c member => ?_, before.2⟩
          by_cases fits : index ≤ old.children.length
          · rcases (List.mem_insertIdx fits).mp member with rfl | earlier
            · omega
            · have := before.1 c earlier
              omega
          · have := before.1 c (by
              rwa [List.insertIdx_of_length_lt (by omega)] at member)
            omega
        · rw [if_neg target] at found
          by_cases last : i = t.nodes.size
          · subst last
            rw [Array.getElem?_push_size] at found
            obtain rfl := Option.some.inj found
            refine ⟨by simp, fun p above => ?_⟩
            obtain rfl := Option.some.inj above
            exact inside
          · have here : t.nodes[i]? = some n := by
              rw [Array.getElem?_push] at found
              simpa [last] using found
            have before := t.linked i n here
            exact ⟨fun c member => by have := before.1 c member; omega, before.2⟩ }
  else t

def appendChild (t : Tree) (parent : Nat) (node : Node) : Tree :=
  t.addChild parent (t.node parent).children.length node

/-- Marks a node and the nodes above it up to the first that is marked already. -/
def markDirty (t : Tree) (id : Nat) : Tree :=
  if (t.node id).dirty then t
  else
    let marked := t.modify id (fun n => { n with dirty := true }) (fun _ => ⟨rfl, rfl⟩)
    match _above : (t.node id).parent with
    | some p => marked.markDirty p
    | none => marked
termination_by id
decreasing_by exact parent_lt ‹_›

def isModified (t : Tree) : Bool := (t.node root).dirty

end Tree

end SpringLint
