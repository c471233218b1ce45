/-! Finite maps from the nodes of a tree. -/

namespace SpringLint

structure NodeMap (α : Type) where
  slots : Array (Option α) := #[]

namespace NodeMap

def sized (size : Nat) : NodeMap α :=
  { slots := Array.replicate size none }

def get? (m : NodeMap α) (id : Nat) : Option α :=
  (m.slots[id]?).join

/-- Gives a node a value in place of any earlier one. A node outside the tree is ignored. -/
def set (m : NodeMap α) (id : Nat) (value : α) : NodeMap α :=
  { slots := m.slots.setIfInBounds id (some value) }

def toList (m : NodeMap α) : List (Nat × α) :=
  (List.range m.slots.size).filterMap fun id => (m.get? id).map fun value => (id, value)

theorem get?_set (m : NodeMap α) (id other : Nat) (value : α) :
    (m.set id value).get? other =
      if id = other ∧ id < m.slots.size then some value else m.get? other := by
  simp only [get?, set, Array.getElem?_setIfInBounds]
  by_cases same : id = other
  · subst same
    by_cases inside : id < m.slots.size
    · simp [inside]
    · simp [inside]
  · simp [same]

theorem size_set (m : NodeMap α) (id : Nat) (value : α) :
    (m.set id value).slots.size = m.slots.size := by
  simp [set]

end NodeMap

end SpringLint
