/-! Finite maps from names, in ascending order of the names. -/

namespace SpringLint

/-- A finite map from names. Its operations keep the entries in ascending order of their names, one
entry a name. -/
structure Table (α : Type) where
  entries : List (String × α) := []
  deriving DecidableEq, Repr

namespace Table

def empty : Table α := {}

def get? (t : Table α) (name : String) : Option α :=
  t.entries.lookup name

def contains (t : Table α) (name : String) : Bool :=
  (t.get? name).isSome

def names (t : Table α) : List String :=
  t.entries.map (·.1)

def values (t : Table α) : List α :=
  t.entries.map (·.2)

def size (t : Table α) : Nat :=
  t.entries.length

/-- Puts an entry before the first one with a greater name, in place of one with the same name. -/
def insertEntry (name : String) (value : α) : List (String × α) → List (String × α)
  | [] => [(name, value)]
  | (other, old) :: rest =>
    if name = other then (name, value) :: rest
    else if name < other then (name, value) :: (other, old) :: rest
    else (other, old) :: insertEntry name value rest

def insert (t : Table α) (name : String) (value : α) : Table α :=
  { entries := insertEntry name value t.entries }

def erase (t : Table α) (name : String) : Table α :=
  { entries := t.entries.filter fun entry => entry.1 ≠ name }

/-- A table of the pairs of a list, the last one of a name taken. -/
def ofList (pairs : List (String × α)) : Table α :=
  pairs.foldl (fun t (name, value) => t.insert name value) empty

theorem lookup_insertEntry (name other : String) (value : α) (entries : List (String × α)) :
    (insertEntry name value entries).lookup other =
      if other = name then some value else entries.lookup other := by
  induction entries with
  | nil =>
    by_cases same : other = name
    · simp [insertEntry, same]
    · simp [insertEntry, List.lookup_cons, beq_eq_false_iff_ne.mpr same, same]
  | cons entry rest ih =>
    obtain ⟨head, old⟩ := entry
    by_cases found : name = head
    · subst found
      by_cases same : other = name
      · simp [insertEntry, same]
      · simp [insertEntry, List.lookup_cons, beq_eq_false_iff_ne.mpr same, same]
    · by_cases before : name < head
      · by_cases same : other = name
        · simp [insertEntry, found, before, same]
        · simp [insertEntry, List.lookup_cons, found, before, beq_eq_false_iff_ne.mpr same, same]
      · by_cases here : other = head
        · subst here
          simp [insertEntry, found, before, Ne.symm found]
        · simp [insertEntry, List.lookup_cons, found, before, beq_eq_false_iff_ne.mpr here, ih]

theorem get?_insert (t : Table α) (name other : String) (value : α) :
    (t.insert name value).get? other = if other = name then some value else t.get? other :=
  lookup_insertEntry name other value t.entries

theorem get?_erase (t : Table α) (name other : String) :
    (t.erase name).get? other = if other = name then none else t.get? other := by
  obtain ⟨entries⟩ := t
  simp only [get?, erase]
  induction entries with
  | nil => simp
  | cons entry rest ih =>
    obtain ⟨head, old⟩ := entry
    by_cases kept : head = name
    · subst kept
      by_cases same : other = head
      · simpa [same] using ih
      · simpa [List.lookup_cons, beq_eq_false_iff_ne.mpr same, same] using ih
    · by_cases here : other = head
      · subst here
        simp [kept]
      · simpa [List.lookup_cons, beq_eq_false_iff_ne.mpr here, kept] using ih

end Table

end SpringLint
