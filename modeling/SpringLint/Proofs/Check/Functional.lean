import SpringLint.Check.FunctionalInterface
import SpringLint.Proofs.Model.Reordering

/-! Interfaces with a single method to implement. Methods are counted in the order in which they are
come by, and one that repeats an earlier one is left out. The order in which interfaces are listed
makes no difference as long as those at the same distance do not differ on a method. -/

namespace SpringLint.Check

variable {index other : Index} {d e s t : TypeDecl} {m n k : Method} {seen methods rest : List Method}

/-- A method has the name of another one, and parameters that match. -/
def repeats (m other : Method) : Bool :=
  other.name == m.name && Query.isOverrideOf m other

/-- Methods that an interface hands on to those that extend it. -/
def isInstance (m : Method) : Bool :=
  !m.isConstructor && !m.modifiers.isStatic && !m.modifiers.isPrivate

def isRequired (index : Index) (m : Method) : Bool :=
  m.isAbstract && !isObjectMethod index m

theorem sameType_comm (p q : Parameter) : Query.sameType p q = Query.sameType q p := by
  unfold Query.sameType
  rw [Bool.or_comm p.isTypeVariable, Bool.beq_comm (a := p.typeName), Bool.or_comm (!_),
    Bool.beq_comm (a := Text.lastPart '.' p.typeName)]

theorem all_sameType_comm (ps qs : List Parameter) :
    (ps.zip qs).all (fun (p, q) => Query.sameType p q) =
      (qs.zip ps).all fun (p, q) => Query.sameType p q := by
  induction ps generalizing qs with
  | nil => simp
  | cons p ps ih =>
    cases qs with
    | nil => rfl
    | cons q qs => simp only [List.zip_cons_cons, List.all_cons, sameType_comm p q, ih]

theorem repeats_comm (first : isInstance m = true) (second : isInstance n = true) :
    repeats m n = repeats n m := by
  simp only [isInstance, Bool.and_eq_true] at first second
  unfold repeats Query.isOverrideOf
  rw [all_sameType_comm, Bool.beq_comm (a := n.name), Bool.beq_comm (a := n.parameters.length)]
  simp only [first, second]

theorem distinctMethods_cons (seen : List Method) (m : Method) (rest : List Method) :
    distinctMethods seen (m :: rest) =
      if seen.any (repeats m) then distinctMethods seen rest
      else m :: distinctMethods (seen ++ [m]) rest := by
  rw [distinctMethods]
  rfl

theorem distinctMethods_append (seen first second : List Method) :
    distinctMethods seen (first ++ second) =
      distinctMethods seen first ++ distinctMethods (seen ++ distinctMethods seen first) second := by
  induction first generalizing seen with
  | nil => simp [distinctMethods]
  | cons m rest ih =>
    rw [List.cons_append, distinctMethods_cons, distinctMethods_cons]
    split
    · exact ih seen
    · simp [ih]

theorem distinctMethods_seen (seen more methods : List Method) :
    distinctMethods (seen ++ more) methods =
      distinctMethods more (methods.filter fun m => !seen.any (repeats m)) := by
  induction methods generalizing more with
  | nil => rfl
  | cons m rest ih =>
    rw [distinctMethods_cons, List.any_append, List.filter_cons]
    cases seen.any (repeats m)
    · rw [Bool.false_or, Bool.not_false, if_pos rfl, distinctMethods_cons, ih, List.append_assoc, ih]
    · rw [Bool.true_or, if_pos rfl, Bool.not_true, if_neg Bool.false_ne_true, ih]

theorem distinctMethods_congr {seen before : List Method}
    (alike : ∀ m ∈ methods, seen.any (repeats m) = before.any (repeats m)) :
    distinctMethods seen methods = distinctMethods before methods := by
  induction methods generalizing seen before with
  | nil => rfl
  | cons m rest ih =>
    have ⟨own, later⟩ := List.forall_mem_cons.mp alike
    rw [distinctMethods_cons, distinctMethods_cons, own, ih later]
    refine congrArg (ite _ _ <| m :: ·) (ih fun k member => ?_)
    rw [List.any_append, List.any_append, later k member]

/-- How many of the methods of a list are to be implemented, with those left out that repeat an
earlier one or one of `seen`. -/
def countRequired (index : Index) (seen methods : List Method) : Nat :=
  ((distinctMethods seen methods).filter (isRequired index)).length

theorem countRequired_append (index : Index) (seen first second : List Method) :
    countRequired index seen (first ++ second) = countRequired index seen first +
      countRequired index (seen ++ distinctMethods seen first) second := by
  rw [countRequired, distinctMethods_append, List.filter_append, List.length_append]
  rfl

/-- Two methods that may change places ahead of others: if one repeats the other, both or neither are
to be implemented, and what follows repeats both or neither. -/
structure Exchangeable (index : Index) (rest : List Method) (m n : Method) : Prop where
  comm : repeats m n = repeats n m
  alike : repeats m n = true → isRequired index m = isRequired index n
  later : repeats m n = true → ∀ k ∈ rest, repeats k m = repeats k n

theorem Exchangeable.mono {fewer : List Method} (exchange : Exchangeable index rest m n)
    (among : ∀ k ∈ fewer, k ∈ rest) : Exchangeable index fewer m n :=
  ⟨exchange.comm, exchange.alike, fun same k member => exchange.later same k (among k member)⟩

theorem countRequired_swap (exchange : Exchangeable index rest m n) (seen : List Method) :
    countRequired index seen (m :: n :: rest) = countRequired index seen (n :: m :: rest) := by
  simp only [countRequired, distinctMethods_cons, List.any_append, List.any_cons, List.any_nil,
    Bool.or_false]
  cases seen.any (repeats m) <;> cases seen.any (repeats n) <;>
    simp only [Bool.false_eq_true, if_false, if_true, Bool.true_or, Bool.false_or]
  cases same : repeats m n with
  | true =>
    have back := exchange.comm.symm.trans same
    have left : distinctMethods (seen ++ [m]) rest = distinctMethods (seen ++ [n]) rest :=
      distinctMethods_congr fun k member => by
        simp only [List.any_append, List.any_cons, exchange.later same k member]
    simp only [back, if_true, List.filter_cons, exchange.alike same, left]
    split <;> rfl
  | false =>
    have back := exchange.comm.symm.trans same
    have left : distinctMethods (seen ++ [m] ++ [n]) rest =
        distinctMethods (seen ++ [n] ++ [m]) rest :=
      distinctMethods_congr fun k _ => by simp [Bool.or_comm]
    simp only [back, Bool.false_eq_true, if_false, List.filter_cons, left]
    split <;> split <;> rfl

theorem countRequired_prefix {first second : List Method} (methods : List Method)
    (same : ∀ seen, countRequired index seen first = countRequired index seen second)
    (seen : List Method) :
    countRequired index seen (methods ++ first) = countRequired index seen (methods ++ second) := by
  rw [countRequired_append, countRequired_append, same]

theorem countRequired_move (exchange : ∀ m ∈ methods, Exchangeable index (methods ++ rest) m n)
    (seen : List Method) :
    countRequired index seen (methods ++ n :: rest) =
      countRequired index seen (n :: (methods ++ rest)) := by
  induction methods generalizing seen with
  | nil => rfl
  | cons m more ih =>
    have among : ∀ k ∈ more ++ rest, k ∈ m :: more ++ rest := fun k => List.mem_cons_of_mem m
    have ⟨own, others⟩ := List.forall_mem_cons.mp exchange
    calc
      _ = countRequired index seen ([m] ++ n :: (more ++ rest)) :=
        countRequired_prefix [m] (ih fun k member => (others k member).mono among) seen
      _ = _ := countRequired_swap (own.mono among) seen

theorem countRequired_exchange {second : List Method}
    (exchange : ∀ m ∈ methods, ∀ n ∈ second, Exchangeable index (methods ++ (second ++ rest)) m n)
    (seen : List Method) :
    countRequired index seen (methods ++ (second ++ rest)) =
      countRequired index seen (second ++ (methods ++ rest)) := by
  induction second generalizing seen with
  | nil => rfl
  | cons n more ih =>
    have among : ∀ k ∈ methods ++ (more ++ rest), k ∈ methods ++ (n :: more ++ rest) := by
      intro k member
      simp only [List.mem_append, List.mem_cons] at member ⊢
      tauto
    calc
      _ = countRequired index seen (n :: (methods ++ (more ++ rest))) :=
        countRequired_move (fun m listed => (exchange m listed n List.mem_cons_self).mono among) seen
      _ = _ := countRequired_prefix [n] (ih fun m listed k member =>
        (exchange m listed k (List.mem_cons_of_mem n member)).mono among) seen

def declaredMethods (d : TypeDecl) : List Method :=
  distinctMethods [] (d.methods.filter isInstance)

/-- The methods that an interface has from one of its supertypes and does not declare again. -/
def handedDown (d s : TypeDecl) : List Method :=
  if s.kind.isInterface then
    (s.methods.filter isInstance).filter fun m => !(declaredMethods d).any (repeats m)
  else []

/-- Where two interfaces at the same distance hand down methods of which one repeats the other, both or
neither of the methods are to be implemented, and what is handed down from no less far repeats both or
neither. -/
structure Coherent (index : Index) (d : TypeDecl) : Prop where
  alike : ∀ s ∈ index.supertypes d, ∀ t ∈ index.supertypes d, s ≠ t →
    index.distance d s = index.distance d t →
      ∀ m ∈ handedDown d s, ∀ n ∈ handedDown d t, repeats m n = true →
        isRequired index m = isRequired index n
  later : ∀ s ∈ index.supertypes d, ∀ t ∈ index.supertypes d, s ≠ t →
    index.distance d s = index.distance d t →
      ∀ m ∈ handedDown d s, ∀ n ∈ handedDown d t, repeats m n = true →
        ∀ u ∈ index.supertypes d, index.distance d s ≤ index.distance d u →
          ∀ k ∈ handedDown d u, repeats k m = repeats k n

theorem isInstance_of_mem_handedDown (member : m ∈ handedDown d s) :
    isInstance m = true := by
  unfold handedDown at member
  split at member
  · exact (List.mem_filter.mp (List.mem_filter.mp member).1).2
  · cases member

def inheritedMethods (index : Index) (d : TypeDecl) : List Method :=
  (((index.supertypes d).filter fun s => s.kind.isInterface).flatMap (·.methods)).filter isInstance

theorem filter_inheritedMethods (index : Index) (d : TypeDecl) :
    ((inheritedMethods index d).filter fun m => !(declaredMethods d).any (repeats m)) =
      (index.supertypes d).flatMap (handedDown d) := by
  unfold inheritedMethods
  induction index.supertypes d with
  | nil => rfl
  | cons s rest ih =>
    rw [List.flatMap_cons, ← ih, handedDown, List.filter_cons]
    split <;> simp

theorem countRequired_interfaceMethods (index : Index) (d : TypeDecl) :
    countRequired index [] (interfaceMethods index d) =
      countRequired index [] (d.methods.filter isInstance) +
        countRequired index [] ((index.supertypes d).flatMap (handedDown d)) := by
  have parts : interfaceMethods index d =
      d.methods.filter isInstance ++ inheritedMethods index d := by
    rw [interfaceMethods, List.flatMap_cons, List.filter_append]
    rfl
  have seen : distinctMethods (declaredMethods d) (inheritedMethods index d) =
      distinctMethods [] ((index.supertypes d).flatMap (handedDown d)) := by
    rw [← filter_inheritedMethods, ← distinctMethods_seen, List.append_nil]
  rw [parts, countRequired_append, List.nil_append, countRequired, countRequired, countRequired,
    ← seen]
  rfl

theorem Coherent.of_levels (built : index.Built)
    (alike : ∀ a ∈ index.levels d, ∀ b ∈ index.levels d, a.2 ≠ b.2 → a.1 = b.1 →
      ∀ m ∈ handedDown d a.2, ∀ n ∈ handedDown d b.2, repeats m n = true →
        isRequired index m = isRequired index n ∧
          ∀ c ∈ index.levels d, a.1 ≤ c.1 → ∀ k ∈ handedDown d c.2, repeats k m = repeats k n) :
    Coherent index d := by
  have found : ∀ s ∈ index.supertypes d, (index.distance d s, s) ∈ index.levels d := by
    intro s listed
    rw [Index.supertypes_eq] at listed
    have ⟨(n, _), place, same⟩ := List.mem_map.mp listed
    cases same
    rwa [Index.distance_eq built place]
  constructor
  · intro s here t there differ level m first n second same
    exact (alike _ (found s here) _ (found t there) differ level m first n second same).1
  · intro s here t there differ level m first n second same u listed
    exact (alike _ (found s here) _ (found t there) differ level m first n second same).2
      _ (found u listed)

namespace Coherent

variable (coherent : Coherent index d)
include coherent

/-- What interfaces at the same distance hand down may change places. -/
theorem exchangeable {others : List TypeDecl} (here : s ∈ index.supertypes d)
    (there : t ∈ index.supertypes d) (differ : s ≠ t)
    (level : index.distance d s = index.distance d t)
    (further : ∀ u ∈ others, u ∈ index.supertypes d ∧ index.distance d s ≤ index.distance d u)
    (handed : ∀ k ∈ rest, ∃ u ∈ others, k ∈ handedDown d u) :
    ∀ m ∈ handedDown d s, ∀ n ∈ handedDown d t, Exchangeable index rest m n := by
  intro m first n second
  refine ⟨repeats_comm (isInstance_of_mem_handedDown first) (isInstance_of_mem_handedDown second),
    coherent.alike s here t there differ level m first n second, fun same k member => ?_⟩
  have ⟨u, among, down⟩ := handed k member
  have ⟨listed, behind⟩ := further u among
  exact coherent.later s here t there differ level m first n second same u listed behind k down

theorem countRequired_ahead {nearer others : List TypeDecl} (there : t ∈ index.supertypes d)
    (new : t ∉ nearer)
    (level : ∀ s ∈ nearer, s ∈ index.supertypes d ∧ index.distance d s = index.distance d t)
    (further : ∀ u ∈ others, u ∈ index.supertypes d ∧ index.distance d t ≤ index.distance d u)
    (seen : List Method) :
    countRequired index seen ((nearer ++ t :: others).flatMap (handedDown d)) =
      countRequired index seen ((t :: (nearer ++ others)).flatMap (handedDown d)) := by
  induction nearer generalizing seen with
  | nil => rfl
  | cons s more ih =>
    have ⟨⟨here, same⟩, rest⟩ := List.forall_mem_cons.mp level
    have differ : s ≠ t := fun equal => new (equal ▸ List.mem_cons_self)
    have absent : t ∉ more := fun among => new (List.mem_cons_of_mem _ among)
    have all : ∀ u ∈ s :: t :: (more ++ others),
        u ∈ index.supertypes d ∧ index.distance d s ≤ index.distance d u := by
      refine List.forall_mem_cons.mpr ⟨⟨here, Nat.le_refl _⟩,
        List.forall_mem_cons.mpr ⟨⟨there, Nat.le_of_eq same⟩, fun u among => ?_⟩⟩
      rcases List.mem_append.mp among with near | far
      · exact ⟨(rest u near).1, Nat.le_of_eq (same.trans (rest u near).2.symm)⟩
      · exact ⟨(further u far).1, same ▸ (further u far).2⟩
    have exchange := coherent.exchangeable here there differ same all fun _ => List.mem_flatMap.mp
    calc
      _ = countRequired index seen (handedDown d s ++
            (t :: (more ++ others)).flatMap (handedDown d)) :=
        countRequired_prefix _ (ih absent rest) seen
      _ = _ := countRequired_exchange exchange seen

/-- The order of supertypes at the same distance makes no difference to the count. -/
theorem countRequired_perm {first second : List TypeDecl} (perm : first.Perm second)
    (known : ∀ s ∈ first, s ∈ index.supertypes d)
    (ascending : first.Pairwise fun s t => index.distance d s ≤ index.distance d t)
    (sorted : second.Pairwise fun s t => index.distance d s ≤ index.distance d t)
    (seen : List Method) :
    countRequired index seen (first.flatMap (handedDown d)) =
      countRequired index seen (second.flatMap (handedDown d)) := by
  induction first generalizing second seen with
  | nil => rw [perm.nil_eq]
  | cons t rest ih =>
    have ⟨behind, later⟩ := List.pairwise_cons.mp ascending
    have ⟨here, others⟩ := List.forall_mem_cons.mp known
    obtain ⟨nearer, further, rfl, new⟩ := List.eq_append_cons_of_mem (perm.subset List.mem_cons_self)
    have ⟨_, _, ahead⟩ := List.pairwise_append.mp sorted
    have less : rest.Perm (nearer ++ further) := (perm.trans List.perm_middle).cons_inv
    have within : ∀ s ∈ nearer ++ further, s ∈ rest := fun s among => less.symm.subset among
    have level : ∀ s ∈ nearer, s ∈ index.supertypes d ∧ index.distance d s = index.distance d t := by
      intro s near
      have member := within s (List.mem_append_left _ near)
      exact ⟨others s member, Nat.le_antisymm (ahead s near t List.mem_cons_self) (behind s member)⟩
    have far : ∀ u ∈ further, u ∈ index.supertypes d ∧ index.distance d t ≤ index.distance d u := by
      intro u member
      have member := within u (List.mem_append_right _ member)
      exact ⟨others u member, behind u member⟩
    have shorter : (nearer ++ further).Sublist (nearer ++ t :: further) :=
      (List.sublist_cons_self t further).append_left nearer
    calc
      _ = countRequired index seen ((t :: (nearer ++ further)).flatMap (handedDown d)) :=
        countRequired_prefix _ (ih less others later (sorted.sublist shorter)) seen
      _ = _ := (coherent.countRequired_ahead here new level far seen).symm

end Coherent

section Reordered

variable (reordered : index.Reordered other) (same : d.Reordered e)

include reordered in
theorem isRequired_reordered (m : Method) : isRequired other m = isRequired index m := by
  have known : isObjectMethod other m = isObjectMethod index m := by
    unfold isObjectMethod
    cases found : index.get? Catalogue.object with
    | none => rw [reordered.get?_eq_none found]
    | some object =>
      have ⟨again, here, alike⟩ := reordered.exists_of_get? found
      simp only [here, TypeDecl.methodsNamed, alike.methods]
  rw [isRequired, isRequired, known]

include reordered in
theorem countRequired_reordered (seen methods : List Method) :
    countRequired other seen methods = countRequired index seen methods := by
  rw [countRequired, countRequired, funext (isRequired_reordered reordered)]

include same in
theorem declaredMethods_reordered : declaredMethods e = declaredMethods d := by
  rw [declaredMethods, declaredMethods, same.methods]

include same in
theorem handedDown_reordered (alike : s.Reordered t) : handedDown e t = handedDown d s := by
  rw [handedDown, handedDown, declaredMethods_reordered same, alike.kind, alike.methods]

/-- The order in which interfaces are listed, by an interface or by any type, makes no difference to
whether the interface has a single method to implement, if what it inherits is coherent. -/
theorem isFunctional_reordered (built : index.Built) (rebuilt : other.Built)
    (reordered : index.Reordered other) (same : d.Reordered e) (coherent : Coherent index d) :
    isFunctional other e = isFunctional index d := by
  have types := Index.Reordered.perm_map_counterpart built rebuilt reordered same
  have sorted := Index.Reordered.pairwise_map_counterpart built rebuilt reordered same
  have inherited : countRequired index [] ((index.supertypes d).flatMap (handedDown d)) =
      countRequired index [] ((other.supertypes e).flatMap (handedDown e)) := by
    rw [coherent.countRequired_perm types (fun _ => id) (Index.pairwise_supertypes built) sorted,
      List.flatMap_map]
    refine congrArg _ (List.flatMap_congr fun t found => ?_)
    have ⟨_, alike⟩ := Index.Reordered.counterpart_of_mem built reordered same found
    exact (handedDown_reordered same alike).symm
  have counted : countRequired other [] (interfaceMethods other e) =
      countRequired index [] (interfaceMethods index d) := by
    rw [countRequired_interfaceMethods, countRequired_interfaceMethods, inherited, same.methods,
      countRequired_reordered reordered, countRequired_reordered reordered]
  change (!_ && countRequired other [] _ == 1) = (!_ && countRequired index [] _ == 1)
  rw [counted, reordered.hasUnknownSupertypes_eq same]

end Reordered

def interfaceOf (name : String) (parents : List String) (methods : List Method) : TypeDecl where
  name := name
  simpleName := name
  kind := .interfaceType
  interfaces := parents
  methods := methods

def consumer (type : String) (isTypeVariable : Bool) : Method where
  name := "accept"
  parameters := [{ name := "value", typeName := type, isTypeVariable := isTypeVariable }]

def sinks : List TypeDecl := [
  interfaceOf "Sink" [] [consumer "T" true],
  interfaceOf "Log" [] [consumer "java.lang.String" false, { name := "flush", hasBody := true }],
  interfaceOf "Base" [] [{ name := "run" }],
  interfaceOf "Refined" ["Base"] [{ name := "run", hasBody := true, modifiers.isDefault := true }]]

theorem isFunctional_reordered_sinks :
    let index := ({} : Index).insertAll sinks
    index.Built ∧ index.Reordered index ∧
      (interfaceOf "All" ["Sink", "Log", "Refined"] []).Reordered
        (interfaceOf "All" ["Refined", "Log", "Sink"] []) ∧
      Coherent index (interfaceOf "All" ["Sink", "Log", "Refined"] []) ∧
      isFunctional index (interfaceOf "All" ["Refined", "Log", "Sink"] []) = true := by
  intro index
  have built : index.Built := Index.Built.empty.insertAll _
  have reordered : index.Reordered index := .refl index
  have same : (interfaceOf "All" ["Sink", "Log", "Refined"] []).Reordered
      (interfaceOf "All" ["Refined", "Log", "Sink"] []) := ⟨by decide, rfl⟩
  have coherent : Coherent index (interfaceOf "All" ["Sink", "Log", "Refined"] []) :=
    .of_levels built (by decide +kernel)
  refine ⟨built, reordered, same, coherent, ?_⟩
  rw [isFunctional_reordered built built reordered same coherent]
  decide +kernel

/-- Without coherence the order may decide. An interface that extends `Base` and `Refined` has
nothing to implement, but if `Base` is listed first, its method is counted. -/
theorem not_isFunctional_reordered :
    ¬∀ (index other : Index) (d e : TypeDecl), index.Built → other.Built → index.Reordered other →
      d.Reordered e → isFunctional other e = isFunctional index d := by
  intro always
  have built : (({} : Index).insertAll sinks).Built := Index.Built.empty.insertAll _
  have same : (interfaceOf "Both" ["Base", "Refined"] []).Reordered
      (interfaceOf "Both" ["Refined", "Base"] []) := ⟨.swap .., rfl⟩
  have equal := always _ _ _ _ built built (.refl _) same
  revert equal
  decide +kernel

end SpringLint.Check
