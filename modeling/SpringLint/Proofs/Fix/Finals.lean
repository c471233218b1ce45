import SpringLint.Fix.ConstructorInjection
import SpringLint.Proofs.Check.Members
import SpringLint.Proofs.Syntax.Revision

/-! How a field is made final: the edits, the node at which they are made, and the cuts that printing
makes of them. -/

namespace SpringLint

/-- What the grammar promises of classes and fields: the body of a class encloses the members, a field
does not end in its modifiers, and what follows an annotation or a list of modifiers is not empty and
does not start with a blank. -/
structure Tree.Regular (t : Tree) : Prop where
  encloses : ∀ type, type < t.size → t.kind type = .classDeclaration →
    ∀ body ∈ t.childByField type "body", ∀ m ∈ t.members type,
      (t.span body).start < (t.span m).start ∧ (t.span m).stop < (t.span body).stop
  ends : ∀ d, d < t.size → t.kind d = .fieldDeclaration →
    ∀ c ∈ (t.node d).children.getLast?, t.kind c ≠ .modifiers
  starts : ∀ p, p < t.size → ∀ pair ∈ (t.node p).children.zip (t.node p).children.tail,
    (t.kind pair.1).isAnnotationUse = true ∨ t.kind pair.1 = .modifiers → t.Starts pair.2

/-- The part of it that is about what follows modifiers. -/
structure Tree.Trim (t : Tree) : Prop where
  ends : ∀ d, d < t.size → t.kind d = .fieldDeclaration →
    ∀ c ∈ (t.node d).children.getLast?, t.kind c ≠ .modifiers
  starts : ∀ p, p < t.size → ∀ pair ∈ (t.node p).children.zip (t.node p).children.tail,
    (t.kind pair.1).isAnnotationUse = true ∨ t.kind pair.1 = .modifiers → t.Starts pair.2

theorem Tree.Regular.trim {t : Tree} (regular : t.Regular) : t.Trim :=
  ⟨regular.ends, regular.starts⟩

theorem mem_zip_tail {α : Type} {items before after : List α} {a b : α}
    (split : items = before ++ a :: b :: after) : (a, b) ∈ items.zip items.tail := by
  subst split
  induction before with
  | nil => exact List.mem_cons_self
  | cons first rest ih =>
    cases rest with
    | nil => exact List.mem_cons_of_mem _ ih
    | cons second more => exact List.mem_cons_of_mem _ ih

theorem text_of_mem_strokes {source : String} {span removed : Span} {before after : List Span}
    {word : Option String} {cut : Cut} (member : cut ∈ strokes source span removed before after word) :
    cut.text = "" ∨ ∃ w ∈ word, cut.text = w ∨ cut.text = " " ++ w := by
  have bare {start stop : Nat} (settled : cut ∈ Cut.settled { start := start, stop := stop }) :
      cut.text = "" := by
    rw [Trace.mem_settled settled]
  have keyword {x : Nat} (written : cut ∈ word.toList.map fun w =>
      ({ start := x, stop := x, text := " " ++ w } : Cut)) :
      ∃ w ∈ word, cut.text = w ∨ cut.text = " " ++ w := by
    obtain ⟨w, among, rfl⟩ := List.mem_map.mp written
    exact ⟨w, Option.mem_toList.mp among, .inr rfl⟩
  unfold strokes at member
  split at member
  · cases member
  · exact (List.mem_append.mp member).imp bare keyword
  · exact (List.mem_append.mp member).imp bare keyword
  · rename_i w _ _
    rw [Trace.mem_settled member]
    exact .inr ⟨w, rfl, .inl rfl⟩
  · exact .inl (bare member)

namespace ConstructorInjection

namespace InjectedField

variable (t : Tree) (f : InjectedField)

def list : Nat :=
  (t.childOfKind f.declaration .modifiers).getD Tree.root

def isAlone : Bool :=
  !(t.children (f.list t)).any fun c => c != f.mark && !(t.kind c).isComment

def edits : List Edit :=
  if f.isAlone t then [.remove (f.list t), .prepend f.declaration (.keyword "final")]
  else .remove f.mark ::
    if t.hasModifier f.declaration "final" then [] else [.append (f.list t) (.keyword "final")]

def site : Nat :=
  if f.isAlone t then f.declaration else f.list t

def struck : Nat :=
  if f.isAlone t then f.list t else f.mark

/-- The cuts among the modifiers when the annotation goes and others stay. -/
def listCuts : List Cut :=
  strokes t.source (t.span (f.list t)) (t.span f.mark)
    (((t.children (f.list t)).takeWhile (· != f.mark)).map t.span)
    ((((t.children (f.list t)).dropWhile (· != f.mark)).tail).map t.span)
    (if t.hasModifier f.declaration "final" then none else some "final")

/-- The cut that takes the modifiers away. -/
def listCut : Cut where
  start := (t.span (f.list t)).start
  stop := Text.skipBlankBytes t.source (t.span (f.list t)).stop (t.span f.declaration).stop

def cuts : List Cut :=
  if f.isAlone t then
    if (t.span f.declaration).start = (t.span (f.list t)).start then
      [{ f.listCut t with text := "final " }]
    else
      { start := (t.span f.declaration).start, stop := (t.span f.declaration).start,
        text := "final " } :: (f.listCut t).settled
  else f.listCuts t

/-- The cuts as they are made: the keyword comes ahead of the modifiers that go, even where nothing
stands between them. -/
def seams : List Cut :=
  if f.isAlone t then
    { start := (t.span f.declaration).start, stop := (t.span f.declaration).start,
      text := "final " } :: (f.listCut t).settled
  else f.listCuts t

end InjectedField

/-- What is known of an injected field. -/
structure Field (t : Tree) (f : InjectedField) : Prop where
  kind : t.kind f.declaration = .fieldDeclaration
  modifiers : t.childOfKind f.declaration .modifiers = some (f.list t)
  mark : f.mark ∈ (t.node (f.list t)).children
  annotation : (t.kind f.mark).isAnnotationUse = true

variable {t : Tree} {f : InjectedField}

theorem field_of_injectedField? {q : Query} {d : Nat} (kind : q.tree.kind d = .fieldDeclaration)
    (found : injectedField? q d = some f) : f.declaration = d ∧ Field q.tree f := by
  unfold injectedField? at found
  simp only [Option.bind_eq_bind, Option.bind_eq_some_iff] at found
  obtain ⟨use, marked, declarator, -, name, -, type, -, made⟩ := found
  obtain rfl := Option.some.inj made
  refine ⟨rfl, ?_⟩
  have among := List.mem_of_find?_eq_some marked
  unfold Query.annotations at among
  cases held : q.tree.childOfKind d .modifiers with
  | none =>
    rw [held] at among
    cases among
  | some list =>
    rw [held] at among
    obtain ⟨child, use⟩ := List.mem_filter.mp among
    have same : (q.tree.childOfKind d .modifiers).getD Tree.root = list := by
      rw [held]
      rfl
    refine ⟨kind, ?_, ?_, use⟩
    · unfold InjectedField.list
      rw [same]
      exact held
    · unfold InjectedField.list
      rw [same]
      exact Tree.mem_node_of_mem_children child

namespace Field

variable (field : Field t f)

include field

theorem listed : f.list t ∈ (t.node f.declaration).children :=
  Tree.mem_node_of_mem_children (List.mem_filter.mp (List.mem_of_head? field.modifiers)).1

theorem kind_list : t.kind (f.list t) = .modifiers :=
  eq_of_beq (List.mem_filter.mp (List.mem_of_head? field.modifiers)).2

theorem ordered : f.declaration < f.list t ∧ f.list t < f.mark ∧ f.mark < t.size := by
  have first := Tree.lt_of_mem_node_children field.listed
  have second := Tree.lt_of_mem_node_children field.mark
  omega

theorem site_lt_size : f.site t < t.size := by
  have order := field.ordered
  unfold InjectedField.site
  split
  · omega
  · omega

theorem makeFinal?_eq : makeFinal? t f = some (f.edits t) := by
  unfold makeFinal? InjectedField.edits InjectedField.isAlone
  rw [field.modifiers]
  cases others : (t.children (f.list t)).any fun c => c != f.mark && !(t.kind c).isComment with
  | true =>
    simp only [Option.bind_eq_bind, Option.bind_some, others, if_true, Bool.not_true,
      Bool.false_eq_true, if_false]
    rfl
  | false =>
    simp only [Option.bind_eq_bind, Option.bind_some, others, if_true, Bool.not_false,
      Bool.false_eq_true, if_false]
    rfl

variable (attached : t.Attached)

include attached

theorem parent_list : (t.node (f.list t)).parent = some f.declaration :=
  attached.parent_of_mem field.listed

theorem parent_struck : (t.node (f.struck t)).parent = some (f.site t) := by
  unfold InjectedField.struck InjectedField.site
  split
  · exact field.parent_list attached
  · exact attached.parent_of_mem field.mark

theorem above_site : f.declaration ∈ f.site t :: t.ancestors (f.site t) := by
  unfold InjectedField.site
  split
  · exact List.mem_cons_self
  · rw [Tree.ancestors_of_parent (field.parent_list attached)]
    exact List.mem_cons_of_mem _ List.mem_cons_self

theorem above_struck : f.declaration ∈ t.ancestors (f.struck t) := by
  rw [Tree.ancestors_of_parent (field.parent_struck attached)]
  exact field.above_site attached

/-- The edits of a field are about the field, remove one node and add to one node at most. -/
theorem edits_about {edit : Edit} (member : edit ∈ f.edits t) :
    t.Targets edit ∧ (∀ id, edit ≠ .parenthesize id) ∧
      f.declaration ∈ edit.target :: t.ancestors edit.target ∧
        (∀ r ∈ edit.strikes, r = f.struck t) ∧ ∀ p, t.host? edit = some p → p = f.site t := by
  obtain ⟨first, second, inside⟩ := field.ordered
  have list : f.declaration ∈ f.list t :: t.ancestors (f.list t) := by
    rw [Tree.ancestors_of_parent (field.parent_list attached)]
    exact List.mem_cons_of_mem _ List.mem_cons_self
  have mark : f.declaration ∈ f.mark :: t.ancestors f.mark := by
    rw [Tree.ancestors_of_parent (attached.parent_of_mem field.mark)]
    exact List.mem_cons_of_mem _ list
  have bounds : f.list t < t.size ∧ f.declaration < t.size := by omega
  unfold InjectedField.edits at member
  unfold InjectedField.struck InjectedField.site
  cases alone : f.isAlone t with
  | true =>
    simp only [alone, if_true, List.mem_cons, List.not_mem_nil, or_false] at member
    rcases member with rfl | rfl
    · refine ⟨⟨bounds.1, fun _ => ?_⟩, by simp, list, ?_, ?_⟩
      · exact Nat.ne_of_gt (Nat.lt_of_le_of_lt (Nat.zero_le _) first)
      · simp [Edit.strikes]
      · simp [Tree.host?]
    · refine ⟨⟨bounds.2, by simp [Edit.needsParent]⟩, by simp, List.mem_cons_self, ?_, ?_⟩
      · simp [Edit.strikes]
      · simp [Tree.host?]
  | false =>
    rw [alone, if_neg Bool.false_ne_true] at member
    rw [if_neg Bool.false_ne_true, if_neg Bool.false_ne_true]
    rcases List.mem_cons.mp member with rfl | later
    · refine ⟨⟨inside, fun _ => ?_⟩, by simp, mark, ?_, ?_⟩
      · exact Nat.ne_of_gt (Nat.lt_of_le_of_lt (Nat.zero_le _) second)
      · simp [Edit.strikes]
      · simp [Tree.host?]
    · split at later
      · cases later
      · rw [List.mem_singleton.mp later]
        refine ⟨⟨bounds.1, by simp [Edit.needsParent]⟩, by simp, list, ?_, ?_⟩
        · simp [Edit.strikes]
        · simp [Tree.host?]

omit attached field in
theorem remove_struck_mem : .remove (f.struck t) ∈ f.edits t := by
  unfold InjectedField.edits InjectedField.struck
  split
  · exact List.mem_cons_self
  · exact List.mem_cons_self

omit attached in
theorem pairwise_edits : (f.edits t).Pairwise t.Apart := by
  obtain ⟨first, second, -⟩ := field.ordered
  have past {r id : Nat} (less : id < r) : r ∉ id :: t.ancestors id := by
    intro path
    have := Tree.le_of_mem_ancestors path
    omega
  unfold InjectedField.edits
  split
  · apply List.pairwise_pair.mpr
    refine ⟨?_, ?_⟩
    · intro r struck
      rw [List.mem_singleton.mp struck]
      exact past first
    · simp [Tree.host?]
  · split
    · exact List.pairwise_singleton _ _
    · apply List.pairwise_pair.mpr
      refine ⟨?_, ?_⟩
      · intro r struck
        rw [List.mem_singleton.mp struck]
        exact past second
      · simp [Tree.host?]

end Field

section Place

variable (field : Field t f) (spaced : t.Spaced) (trim : t.Trim)

include field trim

theorem Field.followed : ∃ before next after,
    (t.node f.declaration).children = before ++ f.list t :: next :: after ∧ t.Starts next := by
  obtain ⟨first, second, inside⟩ := field.ordered
  have within : f.declaration < t.size := by omega
  obtain ⟨before, rest, split⟩ := List.append_of_mem field.listed
  cases rest with
  | nil =>
    have last : (t.node f.declaration).children.getLast? = some (f.list t) := by
      rw [split, List.getLast?_concat]
    exact absurd field.kind_list (trim.ends _ within field.kind _ last)
  | cons next after =>
    refine ⟨before, next, after, split, ?_⟩
    exact trim.starts _ within _ (mem_zip_tail split) (.inr field.kind_list)

theorem Field.split (attached : t.Attached) (untouched : t.Untouched) : ∃ before after,
    (t.node (f.list t)).children = before ++ f.mark :: after ∧
      (∀ d ∈ after.head?, t.Starts d) ∧
        f.listCuts t = strokes t.source (t.span (f.list t)) (t.span f.mark) (before.map t.span)
          (after.map t.span) (if t.hasModifier f.declaration "final" then none else some "final") := by
  obtain ⟨first, second, inside⟩ := field.ordered
  obtain ⟨before, after, split⟩ := List.append_of_mem field.mark
  have once := attached.nodup_children (f.list t)
  rw [split] at once
  have absent : f.mark ∉ before := by
    intro member
    exact (List.nodup_append.mp once).2.2 f.mark member f.mark List.mem_cons_self rfl
  refine ⟨before, after, split, ?_, ?_⟩
  · intro d head
    cases after with
    | nil => cases head
    | cons next rest =>
      obtain rfl := Option.some.inj head
      exact trim.starts _ (Nat.lt_trans second inside) _ (mem_zip_tail split) (.inl field.annotation)
  · unfold InjectedField.listCuts
    rw [Tree.children_of_untouched untouched, split, takeWhile_ne absent, dropWhile_ne absent]
    rfl

include spaced

theorem Field.list_within : (t.span f.declaration).start ≤ (t.span (f.list t)).start ∧
    (t.span (f.list t)).start ≤ (t.span (f.list t)).stop ∧
      (t.span (f.list t)).stop < (t.span f.declaration).stop := by
  obtain ⟨before, next, after, split, room, -⟩ := field.followed trim
  have row := spaced f.declaration
  rw [split, List.map_append, List.map_cons, List.map_cons] at row
  obtain ⟨middle, left, place, proper, behind, -, later⟩ := InRow.append_iff.mp row
  have := left.le
  have := later.le
  omega

theorem Field.listCut_within (characters : t.OnCharacters) :
    (f.listCut t).start ≤ (f.listCut t).stop ∧ (f.listCut t).stop < (t.span f.declaration).stop ∧
      Text.Boundary t.source (f.listCut t).start ∧ Text.Boundary t.source (f.listCut t).stop := by
  obtain ⟨before, next, after, split, starts⟩ := field.followed trim
  have free := Tree.inRow_skipped spaced characters split (fun d head => by
    obtain rfl := Option.some.inj head
    exact starts)
  have bounds := field.list_within spaced trim
  have limit := Nat.le_of_lt bounds.2.2
  have skipped := Text.le_skipBlankBytes (characters (f.list t)).2 limit
  have boundary := Text.boundary_skipBlankBytes (characters (f.list t)).2 limit
  obtain ⟨upper, -, later⟩ := free
  have room := starts.1
  have whole := later.le
  refine ⟨?_, ?_, (characters (f.list t)).1, boundary⟩
  · exact Nat.le_trans bounds.2.1 skipped
  · show Text.skipBlankBytes t.source (t.span (f.list t)).stop (t.span f.declaration).stop < _
    omega

variable (attached : t.Attached) (untouched : t.Untouched) (characters : t.OnCharacters)

include attached untouched characters

theorem Field.fitting_listCuts :
    Fitting t.source (t.span (f.list t)).start (t.span (f.list t)).stop (f.listCuts t) := by
  obtain ⟨before, after, split, starts, same⟩ := field.split trim attached untouched
  have free := Tree.inRow_skipped spaced characters split starts
  have row := spaced (f.list t)
  rw [split, List.map_append, List.map_cons] at row
  obtain ⟨middle, left, place, proper, later⟩ := InRow.append_iff.mp row
  rw [same]
  apply fitting_strokes (left.widen (Nat.le_refl _) place) proper later.le free
  · intro s head
    rw [List.head?_map] at head
    obtain ⟨d, here, rfl⟩ := Option.map_eq_some_iff.mp head
    exact (starts d here).1
  · intro s member
    rw [← List.map_append, ← List.map_cons, ← List.map_cons] at member
    obtain ⟨id, -, rfl⟩ := List.mem_map.mp member
    exact characters id

theorem Field.fitting_cuts : ∃ stop, stop < (t.span f.declaration).stop ∧
    Fitting t.source (t.span f.declaration).start stop (f.cuts t) := by
  obtain ⟨lower, proper, upper⟩ := field.list_within spaced trim
  obtain ⟨forward, below, first, second⟩ := field.listCut_within spaced trim characters
  have start : (f.listCut t).start = (t.span (f.list t)).start := rfl
  unfold InjectedField.cuts
  split
  · refine ⟨(f.listCut t).stop, below, ?_⟩
    have boundary := (characters f.declaration).1
    split
    · have filled : "final " ≠ "" := by decide
      exact @Fitting.singleton _ _ _ { f.listCut t with text := "final " } first second lower forward
        (Nat.le_refl _) fun empty => absurd empty filled
    · rename_i different
      have keyword : Fitting t.source (t.span f.declaration).start (t.span f.declaration).start
          [{ start := (t.span f.declaration).start, stop := (t.span f.declaration).start,
             text := "final " }] :=
        .insertion boundary (Nat.le_refl _) (Nat.le_refl _) (by decide)
      have removal : Fitting t.source (f.listCut t).start (f.listCut t).stop (f.listCut t).settled :=
        .settled first second (Nat.le_refl _) forward (Nat.le_refl _)
      exact keyword.append removal (by omega) (by omega) (by omega)
  · refine ⟨(t.span (f.list t)).stop, upper, ?_⟩
    exact (field.fitting_listCuts spaced trim attached untouched characters).widen lower
      (Nat.le_refl _)

theorem Field.seams_within : ∃ stop, stop < (t.span f.declaration).stop ∧
    (∀ cut ∈ f.seams t, (t.span f.declaration).start ≤ cut.start ∧ cut.start ≤ cut.stop ∧
      cut.stop ≤ stop) ∧ (f.seams t).Pairwise Cut.Before := by
  obtain ⟨lower, proper, upper⟩ := field.list_within spaced trim
  obtain ⟨forward, below, first, second⟩ := field.listCut_within spaced trim characters
  have start : (f.listCut t).start = (t.span (f.list t)).start := rfl
  unfold InjectedField.seams
  split
  · have removal : Fitting t.source (f.listCut t).start (f.listCut t).stop (f.listCut t).settled :=
      .settled first second (Nat.le_refl _) forward (Nat.le_refl _)
    refine ⟨(f.listCut t).stop, below, ?_, ?_⟩
    · intro cut member
      rcases List.mem_cons.mp member with rfl | later
      · simp only
        omega
      · have := removal.within cut later
        omega
    · refine List.pairwise_cons.mpr ⟨?_, removal.before⟩
      intro cut later
      have plain : cut = f.listCut t := Trace.mem_settled later
      have bounds := removal.within cut later
      have longer := removal.real cut later (by rw [plain]; rfl)
      constructor
      · show (t.span f.declaration).start ≤ cut.start
        omega
      · show (t.span f.declaration).start < cut.stop
        omega
  · have fitting := field.fitting_listCuts spaced trim attached untouched characters
    refine ⟨(t.span (f.list t)).stop, upper, ?_, fitting.before⟩
    intro cut member
    have := fitting.within cut member
    omega

end Place

theorem length_of_mem_seams {cut : Cut} (member : cut ∈ f.seams t) : cut.text.length ≤ 6 := by
  unfold InjectedField.seams at member
  split at member
  · rcases List.mem_cons.mp member with rfl | removal
    · show "final ".length ≤ 6
      decide
    · rw [Trace.mem_settled removal]
      exact Nat.zero_le _
  · have word (w : String) (among : w ∈ if t.hasModifier f.declaration "final" then none
        else some "final") : w = "final" := by
      split at among
      · cases among
      · exact (Option.some.inj among).symm
    rcases text_of_mem_strokes member with empty | ⟨w, among, same | same⟩
    · rw [empty]
      decide
    · rw [same, word w among]
      decide
    · rw [same, word w among]
      decide

theorem spliced_seams (s : String) (start stop : Nat) (before after : List Cut) :
    Text.spliced s start stop (before ++ f.seams t ++ after) =
      Text.spliced s start stop (before ++ f.cuts t ++ after) := by
  unfold InjectedField.seams InjectedField.cuts
  split
  · split
    · rename_i same
      unfold Cut.settled
      split
      · rename_i trivial
        have place : (f.listCut t).start = (t.span (f.list t)).start := rfl
        have close : (f.listCut t).stop = (t.span f.declaration).start := by
          rw [← trivial.1, place, same]
        rw [same] at close ⊢
        unfold InjectedField.listCut at close ⊢
        simp only at close ⊢
        rw [close]
      · rw [same, List.append_assoc, List.append_assoc]
        exact Text.spliced_fuse before after (t.span (f.list t)).start "final "
    · rfl
  · rfl

end ConstructorInjection

end SpringLint
