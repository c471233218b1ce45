import SpringLint.Model.Catalogue
import SpringLint.Table

/-! The types known to an analysis, and the relations between them. -/

namespace SpringLint

structure Index where
  /-- The kind of each type. A name may be known before its declaration is. -/
  names : Table TypeKind := {}
  types : Table TypeDecl := {}
  deriving DecidableEq, Repr

namespace Index

def declare (index : Index) (name : String) (kind : TypeKind) : Index :=
  { index with names := index.names.insert name kind }

/-- Makes a type known, in place of an earlier one of the same name. A type without a name cannot be
looked up and is left out. -/
def insert (index : Index) (d : TypeDecl) : Index :=
  if d.isAnonymous then index
  else { names := index.names.insert d.name d.kind, types := index.types.insert d.name d }

def insertAll (index : Index) (ds : List TypeDecl) : Index :=
  ds.foldl insert index

def catalogue : Index :=
  ({} : Index).insertAll Catalogue.types

def contains (index : Index) (name : String) : Bool :=
  index.names.contains name

def kind? (index : Index) (name : String) : Option TypeKind :=
  index.names.get? name

def get? (index : Index) (name : String) : Option TypeDecl :=
  index.types.get? name

def size (index : Index) : Nat :=
  index.types.size

/-! Searches along the names of other types. A search goes through each known type at most once, so
the types not yet seen, weighted by the names they lead to, bound it. -/

/-- What the entries not yet seen count: each one more than its weight. -/
def unseenWeight (weight : TypeDecl → Nat) (seen : List String) : List (String × TypeDecl) → Nat
  | [] => 0
  | (name, d) :: rest =>
    (if seen.contains name then 0 else weight d + 1) + unseenWeight weight seen rest

def remaining (index : Index) (weight : TypeDecl → Nat) (seen : List String) : Nat :=
  unseenWeight weight seen index.types.entries

theorem unseenWeight_cons_le (weight : TypeDecl → Nat) (name : String) (seen : List String)
    (entries : List (String × TypeDecl)) :
    unseenWeight weight (name :: seen) entries ≤ unseenWeight weight seen entries := by
  induction entries with
  | nil => exact Nat.le_refl 0
  | cons entry rest ih =>
    obtain ⟨head, d⟩ := entry
    simp only [unseenWeight, List.contains_cons]
    refine Nat.add_le_add ?_ ih
    cases seen.contains head with
    | true => simp
    | false =>
      split
      · exact Nat.zero_le _
      · exact Nat.le_refl _

theorem remaining_cons_le (index : Index) (weight : TypeDecl → Nat) (name : String)
    (seen : List String) : index.remaining weight (name :: seen) ≤ index.remaining weight seen :=
  unseenWeight_cons_le weight name seen index.types.entries

theorem remaining_cons_lt (weight : TypeDecl → Nat) {index : Index} {name : String}
    {seen : List String} {d : TypeDecl} (known : index.get? name = some d)
    (unseen : ¬seen.contains name = true) :
    index.remaining weight (name :: seen) + weight d < index.remaining weight seen := by
  simp only [get?, Table.get?] at known
  simp only [remaining]
  generalize index.types.entries = entries at known
  induction entries with
  | nil => simp at known
  | cons entry rest ih =>
    obtain ⟨head, first⟩ := entry
    by_cases here : name = head
    · subst here
      simp only [List.lookup_cons_self, Option.some.injEq] at known
      subst known
      have later := unseenWeight_cons_le weight name seen rest
      simp only [unseenWeight, List.contains_cons, BEq.rfl, Bool.true_or, unseen,
        Bool.false_eq_true, ↓reduceIte]
      omega
    · rw [List.lookup_cons, beq_eq_false_iff_ne.mpr here] at known
      have inner := ih known
      have same : (name :: seen).contains head = seen.contains head := by
        simp only [List.contains_cons, beq_eq_false_iff_ne.mpr (Ne.symm here), Bool.false_or]
      simp only [unseenWeight, same]
      omega

/-- The superclasses from `next` on, as long as they are known and not in `seen`. -/
def superclassesFrom (index : Index) (seen : List String) (next : Option String) : List TypeDecl :=
  match next with
  | none => []
  | some name =>
    if _fresh : seen.contains name then []
    else
      match _known : index.get? name with
      | none => []
      | some d => d :: index.superclassesFrom (name :: seen) d.superclass
termination_by index.remaining (fun _ => 0) seen
decreasing_by exact remaining_cons_lt (fun _ => 0) _known _fresh

/-- The superclasses of a type, nearest first, up to the first that is unknown or comes again. -/
def superclasses (index : Index) (d : TypeDecl) : List TypeDecl :=
  index.superclassesFrom [] d.superclass

/-- The known types named in `pending` and, level after level, their supertypes, those in `seen`
left out. -/
def supertypesFrom (index : Index) (seen pending : List String) : List TypeDecl :=
  match pending with
  | [] => []
  | name :: rest =>
    if _fresh : seen.contains name then index.supertypesFrom seen rest
    else
      match _known : index.get? name with
      | none => index.supertypesFrom seen rest
      | some d => d :: index.supertypesFrom (name :: seen) (rest ++ d.parents)
termination_by index.remaining (·.parents.length) seen + pending.length
decreasing_by
  · simp
  · simp
  · have := remaining_cons_lt (·.parents.length) _known _fresh
    simp only [List.length_append, List.length_cons]
    omega

/-- The known supertypes of a type, the nearer first, and among equals the superclass first. -/
def supertypes (index : Index) (d : TypeDecl) : List TypeDecl :=
  index.supertypesFrom [] d.parents

def lacksParent (index : Index) (d : TypeDecl) : Bool :=
  d.hasUnresolved || d.parents.any fun name => (index.get? name).isNone

def hasUnknownSupertypes (index : Index) (d : TypeDecl) : Bool :=
  index.lacksParent d || (index.supertypes d).any index.lacksParent

/-- Whether the type `name` is `target` or a known type below it. -/
def isSubtype (index : Index) (name target : String) : Bool :=
  name == target ||
    match index.get? name with
    | some d => (index.supertypes d).any fun other => other.name == target
    | none => false

/-- The interfaces named in `pending`, each followed by those it extends, that are not in `seen`. An
unknown interface is listed too. -/
def interfacesFrom (index : Index) (seen pending : List String) : List String :=
  match pending with
  | [] => []
  | name :: rest =>
    if _fresh : seen.contains name then index.interfacesFrom seen rest
    else
      match _known : index.get? name with
      | none => name :: index.interfacesFrom (name :: seen) rest
      | some d => name :: index.interfacesFrom (name :: seen) (d.interfaces ++ rest)
termination_by index.remaining (·.interfaces.length) seen + pending.length
decreasing_by
  · simp
  · have := index.remaining_cons_le (·.interfaces.length) name seen
    simp only [List.length_cons]
    omega
  · have := remaining_cons_lt (·.interfaces.length) _known _fresh
    simp only [List.length_append, List.length_cons]
    omega

/-- The interfaces of a type and of its superclasses, and those that they extend. -/
def implementedInterfaces (index : Index) (d : TypeDecl) : List String :=
  index.interfacesFrom [] ((d :: index.superclasses d).flatMap (·.interfaces))

def metas (d : TypeDecl) : List String :=
  (d.annotations.filter (·.isResolved)).map (·.typeName)

/-- Whether `target` is among the annotation types `pending` or the annotations on them, on those,
and so on. -/
def reaches (index : Index) (target : String) (seen pending : List String) : Bool :=
  match pending with
  | [] => false
  | name :: rest =>
    if name == target then true
    else if _fresh : seen.contains name then index.reaches target seen rest
    else
      match _known : index.get? name with
      | none => index.reaches target seen rest
      | some d => index.reaches target (name :: seen) (metas d ++ rest)
termination_by index.remaining (fun d => (metas d).length) seen + pending.length
decreasing_by
  · simp
  · simp
  · have := remaining_cons_lt (fun d => (metas d).length) _known _fresh
    simp only [List.length_append, List.length_cons]
    omega

def carries (index : Index) (d : TypeDecl) (target : String) : Bool :=
  index.reaches target [] (metas d)

def elementDefault? (index : Index) (annotationType element : String) : Option Bool := do
  let d ← index.get? annotationType
  (d.methodsNamed element).findSome? fun m => m.defaultValue.bind ElementValue.bool?

end Index

end SpringLint
