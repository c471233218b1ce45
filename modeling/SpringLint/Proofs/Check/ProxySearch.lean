import SpringLint.Proofs.Check.Proxying

/-! The search of a type and its superclasses for one that has proxying on, as a loop. It counts the
types that it has looked at and gives up when there are more of them than the index has; by then it
has looked at every superclass, wherever it set out and however the superclasses go round. -/

namespace SpringLint

namespace Index

variable {index : Index} {d e : TypeDecl} {seen : List String} {next : Option String} {name : String}

theorem length_superclassesFrom_le (index : Index) (seen : List String) (next : Option String) :
    (index.superclassesFrom seen next).length ≤ index.remaining (fun _ => 0) seen := by
  fun_induction superclassesFrom index seen next with
  | case1 => exact Nat.zero_le _
  | case2 => exact Nat.zero_le _
  | case3 => exact Nat.zero_le _
  | case4 seen name new d known ih =>
    have fewer := remaining_cons_lt (fun _ => 0) known new
    rw [List.length_cons]
    omega

theorem length_superclasses_le_size (index : Index) (d : TypeDecl) :
    (index.superclasses d).length ≤ index.size := by
  have all (entries : List (String × TypeDecl)) :
      unseenWeight (fun _ => 0) [] entries = entries.length := by
    induction entries with
    | nil => rfl
    | cons entry rest ih =>
      simp only [unseenWeight, List.contains_nil, Bool.false_eq_true, ↓reduceIte, ih,
        List.length_cons]
      omega
  have bound := index.length_superclassesFrom_le [] d.superclass
  rwa [remaining, all] at bound

theorem superclassesFrom_of_known (fresh : name ∉ seen) (known : index.get? name = some d) :
    index.superclassesFrom seen (some name) = d :: index.superclassesFrom (name :: seen) d.superclass := by
  have unseen : ¬seen.contains name = true := fun old => fresh (List.contains_iff_mem.mp old)
  rw [superclassesFrom, dif_neg unseen]
  split
  · rename_i unknown
    rw [known] at unknown
    cases unknown
  · rename_i other found
    cases known.symm.trans found
    rfl

theorem mem_superclassesFrom_of_above (listed : d ∈ index.superclassesFrom seen next)
    (named : d.superclass = some name) (known : index.get? name = some e) :
    name ∈ seen ∨ e ∈ index.superclassesFrom seen next := by
  fun_induction superclassesFrom index seen next with
  | case1 => cases listed
  | case2 => cases listed
  | case3 => cases listed
  | case4 seen first new head found ih =>
    have again (old : name ∈ first :: seen) :
        name ∈ seen ∨ e ∈ head :: index.superclassesFrom (first :: seen) head.superclass := by
      rcases List.mem_cons.mp old with rfl | old
      · cases known.symm.trans found
        exact .inr List.mem_cons_self
      · exact .inl old
    rcases List.mem_cons.mp listed with rfl | later
    · by_cases old : name ∈ first :: seen
      · exact again old
      · rw [named, superclassesFrom_of_known old known]
        exact .inr (List.mem_cons_of_mem _ List.mem_cons_self)
    · rcases ih later with old | above
      · exact again old
      · exact .inr (List.mem_cons_of_mem _ above)

theorem mem_superclasses_of_above {s : TypeDecl} (listed : s ∈ d :: index.superclasses d)
    (above : s.superclass.bind index.get? = some e) : e ∈ index.superclasses d := by
  have ⟨name, named, known⟩ := Option.bind_eq_some_iff.mp above
  rcases List.mem_cons.mp listed with rfl | further
  · rw [superclasses, named, superclassesFrom_of_known List.not_mem_nil known]
    exact List.mem_cons_self
  · exact (mem_superclassesFrom_of_above further named known).resolve_left List.not_mem_nil

/-- A type and what comes above it, at most so many types, with repetitions. -/
def climb (index : Index) : Nat → Option TypeDecl → List TypeDecl
  | 0, _ => []
  | _ + 1, none => []
  | steps + 1, some d => d :: index.climb steps (d.superclass.bind index.get?)

theorem climb_none (index : Index) (steps : Nat) : index.climb steps none = [] := by
  cases steps <;> rfl

theorem length_climb_le (index : Index) (steps : Nat) (current : Option TypeDecl) :
    (index.climb steps current).length ≤ steps := by
  induction steps generalizing current with
  | zero => exact Nat.le_refl 0
  | succ steps ih =>
    cases current with
    | none => exact Nat.zero_le _
    | some d => exact Nat.succ_le_succ (ih _)

theorem superclassesFrom_prefix_climb {steps : Nat}
    (enough : (index.superclassesFrom seen next).length ≤ steps) :
    index.superclassesFrom seen next <+: index.climb steps (next.bind index.get?) := by
  fun_induction superclassesFrom index seen next generalizing steps with
  | case1 => exact List.nil_prefix
  | case2 => exact List.nil_prefix
  | case3 => exact List.nil_prefix
  | case4 seen name new d known ih =>
    cases steps with
    | zero => cases enough
    | succ steps =>
      rw [Option.bind_some, known, climb]
      exact List.cons_prefix_cons.mpr ⟨rfl, ih (Nat.le_of_succ_le_succ enough)⟩

theorem superclasses_prefix_climb (index : Index) (d : TypeDecl) :
    d :: index.superclasses d <+: index.climb (index.size + 1) (some d) :=
  List.cons_prefix_cons.mpr ⟨rfl, superclassesFrom_prefix_climb (index.length_superclasses_le_size d)⟩

theorem mem_of_mem_climb {s : TypeDecl} {steps : Nat} (start : s ∈ d :: index.superclasses d) :
    ∀ e ∈ index.climb steps (some s), e ∈ d :: index.superclasses d := by
  induction steps generalizing s with
  | zero => exact fun _ member => nomatch member
  | succ steps ih =>
    rw [climb, List.forall_mem_cons]
    refine ⟨start, ?_⟩
    cases above : s.superclass.bind index.get? with
    | none =>
      rw [climb_none]
      exact fun _ member => nomatch member
    | some f => exact ih (List.mem_cons_of_mem _ (mem_superclasses_of_above start above))

end Index

namespace Check

open Index (climb climb_none)

variable {index : Index} {d : TypeDecl} {current : Option TypeDecl} {visited : Nat}

/-- The rounds of the search from a type, after so many types before: the types that are looked at
and the answer. A round ends the search if the type has proxying on, or if more types have been looked
at than the index has; else it goes on with the superclass. -/
inductive Search (index : Index) : Nat → Option TypeDecl → List TypeDecl → Bool → Prop
  | ended {visited : Nat} : Search index visited none [] false
  | found {visited : Nat} {d : TypeDecl} (on : switchesOn index d = true) :
    Search index visited (some d) [d] true
  | cut {visited : Nat} {d : TypeDecl} (off : switchesOn index d = false)
    (past : index.size < visited + 1) : Search index visited (some d) [d] false
  | next {visited : Nat} {d : TypeDecl} {looked : List TypeDecl} {answer : Bool}
    (off : switchesOn index d = false) (within : visited + 1 ≤ index.size)
    (rest : Search index (visited + 1) (d.superclass.bind index.get?) looked answer) :
    Search index visited (some d) (d :: looked) answer

theorem isProxiedWithin_eq_any (index : Index) (steps : Nat) (d : TypeDecl) :
    isProxiedWithin index steps d = (climb index (steps + 1) (some d)).any (switchesOn index) := by
  induction steps generalizing d with
  | zero => rw [isProxiedWithin_zero, climb, climb, List.any_cons, List.any_nil, Bool.or_false]
  | succ steps ih =>
    rw [isProxiedWithin_succ, climb, List.any_cons]
    cases d.superclass.bind index.get? with
    | none => rw [climb_none, Option.any_none, List.any_nil]
    | some e => rw [Option.any_some, ih]

namespace Search

variable {looked others : List TypeDecl} {answer other : Bool}

theorem unique (first : Search index visited current looked answer)
    (second : Search index visited current others other) : others = looked ∧ other = answer := by
  induction first generalizing others other with
  | ended =>
    cases second
    exact ⟨rfl, rfl⟩
  | found on =>
    cases second with
    | found => exact ⟨rfl, rfl⟩
    | cut off | next off => cases on.symm.trans off
  | cut off past =>
    cases second with
    | found on => cases on.symm.trans off
    | cut => exact ⟨rfl, rfl⟩
    | next _ within => omega
  | next off within _ ih =>
    cases second with
    | found on => cases on.symm.trans off
    | cut _ past => omega
    | next _ _ rest =>
      have ⟨same, agree⟩ := ih rest
      exact ⟨congrArg _ same, agree⟩

theorem climbs (search : Search index visited current looked answer) (inside : visited ≤ index.size) :
    looked <+: climb index (index.size + 1 - visited) current ∧
      answer = (climb index (index.size + 1 - visited) current).any (switchesOn index) ∧
      (answer = false → looked = climb index (index.size + 1 - visited) current) := by
  induction search with
  | ended => simp [climb_none]
  | @found visited d on =>
    have room : index.size + 1 - visited = index.size - visited + 1 := by omega
    rw [room, climb, List.any_cons, on]
    exact ⟨List.cons_prefix_cons.mpr ⟨rfl, List.nil_prefix⟩, rfl, nofun⟩
  | @cut visited d off past =>
    have room : index.size + 1 - visited = 0 + 1 := by omega
    rw [room, climb, climb, List.any_cons, off]
    exact ⟨List.prefix_rfl, rfl, fun _ => rfl⟩
  | @next visited d looked answer off within _ ih =>
    have room : index.size + 1 - visited = index.size + 1 - (visited + 1) + 1 := by omega
    have ⟨ahead, same, all⟩ := ih within
    rw [room, climb, List.any_cons, off, Bool.false_or]
    exact ⟨List.cons_prefix_cons.mpr ⟨rfl, ahead⟩, same, fun none => congrArg _ (all none)⟩

end Search

/-- The search ends. -/
theorem exists_search (index : Index) (visited : Nat) (current : Option TypeDecl) :
    ∃ looked answer, Search index visited current looked answer := by
  induction room : index.size - visited generalizing visited current with
  | zero =>
    cases current with
    | none => exact ⟨_, _, .ended⟩
    | some d =>
      cases flag : switchesOn index d with
      | false => exact ⟨_, _, .cut flag (by omega)⟩
      | true => exact ⟨_, _, .found flag⟩
  | succ room ih =>
    cases current with
    | none => exact ⟨_, _, .ended⟩
    | some d =>
      cases flag : switchesOn index d with
      | false =>
        have ⟨looked, answer, rest⟩ :=
          ih (visited + 1) (d.superclass.bind index.get?) (by omega)
        exact ⟨_, _, .next flag (by omega) rest⟩
      | true => exact ⟨_, _, .found flag⟩

theorem switchesOn_iff : switchesOn index d = true ↔ ∃ use ∈ d.annotations,
    use.isResolved = true ∧ isConfigurationType index use.typeName = true ∧
      proxyFlag index use = true := by
  simp only [switchesOn, isConfigurationUse, List.any_eq_true, Bool.and_eq_true, and_assoc]

/-- The search ends with one answer, which is whether the type or one of its superclasses carries a
configuration annotation that has proxying on. All that it looks at is the type and its superclasses,
and when the answer is no, it has looked at every one of them. -/
theorem isProxied_search (index : Index) (d : TypeDecl) :
    (∃ looked, Search index 0 (some d) looked (isProxied index d) ∧
      (∀ others answer, Search index 0 (some d) others answer →
        others = looked ∧ answer = isProxied index d) ∧
      looked.length ≤ index.size + 1 ∧
      (∀ s ∈ looked, s ∈ d :: index.superclasses d) ∧
      (isProxied index d = false → d :: index.superclasses d <+: looked)) ∧
    (isProxied index d = true ↔ ∃ s ∈ d :: index.superclasses d, ∃ use ∈ s.annotations,
      use.isResolved = true ∧ isConfigurationType index use.typeName = true ∧
        proxyFlag index use = true) := by
  have ⟨looked, answer, search⟩ := exists_search index 0 (some d)
  have ⟨ahead, same, all⟩ := search.climbs (Nat.zero_le _)
  have own : isProxied index d = answer := (isProxiedWithin_eq_any index index.size d).trans same.symm
  have start : d ∈ d :: index.superclasses d := List.mem_cons_self
  refine ⟨⟨looked, own ▸ search, ?_, ?_, ?_, ?_⟩, ?_⟩
  · intro others other second
    rw [own]
    exact search.unique second
  · exact ahead.length_le.trans (index.length_climb_le _ _)
  · exact fun s member => Index.mem_of_mem_climb start s (ahead.subset member)
  · intro none
    rw [all (own.symm.trans none)]
    exact index.superclasses_prefix_climb d
  · simp only [← switchesOn_iff]
    rw [own, same, List.any_eq_true]
    constructor
    · intro ⟨s, climbed, on⟩
      exact ⟨s, Index.mem_of_mem_climb start s climbed, on⟩
    · intro ⟨s, listed, on⟩
      exact ⟨s, (index.superclasses_prefix_climb d).subset listed, on⟩

/-- From a type outside, the search gets to the last of as many superclasses as the index has. -/
example :
    let index := ({} : Index).insertAll [configurationOf "Base" none []]
    isProxied index (Index.childOf "Base" "A") = true := by
  decide +kernel

end Check

end SpringLint
