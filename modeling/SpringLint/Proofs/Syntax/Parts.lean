import SpringLint.Proofs.Syntax.Words

/-! What a grammar fixes about the parts of a node: what hangs under some of its fields, and that some
nodes start with a sign of their own. Reading documentation changes none of it. -/

namespace SpringLint

namespace Kind

/-- Whether nodes of this kind come from reading documentation. -/
def isDocumentation : Kind → Bool
  | .javadoc | .javadocLink | .javadocReference | .javadocText => true
  | _ => false

/-- Whether the name of a node of this kind is a single word. -/
def isPlainlyNamed : Kind → Bool
  | .classDeclaration | .interfaceDeclaration | .methodInvocation => true
  | _ => false

/-- Whether a node of this kind starts with a sign or a keyword of its own. -/
def isOpened : Kind → Bool
  | .annotationUse | .bareAnnotationUse | .superclass => true
  | _ => false

/-- What hangs under a field of a node, as far as it is fixed. -/
def ofField? (kind : Kind) (field : String) : Option Kind :=
  if kind.isPlainlyNamed = true ∧ field = "name" then some .identifier
  else if kind = .classDeclaration ∧ field = "body" then some .classBody
  else if kind = .classDeclaration ∧ field = "superclass" then some .superclass
  else none

/-- The parts are what a grammar gives to a node of this kind. -/
structure Fits (kind : Kind) (parts : List (Kind × Span × Option String)) : Prop where
  fields : ∀ part ∈ parts, ∀ field ∈ part.2.2, ∀ fixed ∈ kind.ofField? field, part.1 = fixed
  opening : kind.isOpened = true → (parts.head?.any fun part => part.1.isToken) = true

instance (kind : Kind) (parts : List (Kind × Span × Option String)) : Decidable (kind.Fits parts) :=
  decidable_of_iff
    ((∀ part ∈ parts, ∀ field ∈ part.2.2, ∀ fixed ∈ kind.ofField? field, part.1 = fixed) ∧
      (kind.isOpened = true → (parts.head?.any fun part => part.1.isToken) = true))
    ⟨fun ⟨fields, opening⟩ => ⟨fields, opening⟩, fun fits => ⟨fits.fields, fits.opening⟩⟩

variable {kind : Kind}

theorem ne_comment_of_ofField? {field : String} {fixed : Kind}
    (found : kind.ofField? field = some fixed) : fixed ≠ .blockComment := by
  unfold ofField? at found
  split at found
  · cases found
    decide
  · split at found
    · cases found
      decide
    · split at found
      · cases found
        decide
      · cases found

theorem fits_of_free (parts : List (Kind × Span × Option String))
    (named : kind.isPlainlyNamed = false) (opened : kind.isOpened = false) : kind.Fits parts where
  fields part _ field _ fixed found := by
    have other : kind ≠ .classDeclaration := by
      rintro rfl
      cases named
    simp [ofField?, named, other] at found
  opening starts := by
    rw [opened] at starts
    cases starts

theorem fits_of_isDocumentation (parts : List (Kind × Span × Option String))
    (documentation : kind.isDocumentation = true) : kind.Fits parts := by
  apply fits_of_free
  · cases kind <;> first | rfl | cases documentation
  · cases kind <;> first | rfl | cases documentation

theorem Fits.congr {ids : List Nat} {before after : Nat → Kind × Span × Option String}
    (fits : kind.Fits (ids.map before))
    (same : ∀ id ∈ ids, (after id).2.2 = (before id).2.2 ∧
      ((after id).1 = (before id).1 ∨ (before id).1 = .blockComment)) :
    kind.Fits (ids.map after) where
  fields part member field under fixed found := by
    have ⟨id, among, here⟩ := List.mem_map.mp member
    have ⟨fields, kinds⟩ := same id among
    rw [← here] at under ⊢
    rw [fields] at under
    have expected := fits.fields (before id) (List.mem_map_of_mem among) field under fixed found
    rcases kinds with still | comment
    · exact still.trans expected
    · exact absurd (expected.symm.trans comment) (ne_comment_of_ofField? found)
  opening starts := by
    have opening := fits.opening starts
    cases ids with
    | nil => exact opening
    | cons first rest =>
      have token : (before first).1.isToken = true := opening
      rcases (same first List.mem_cons_self).2 with still | comment
      · exact (congrArg Kind.isToken still).trans token
      · rw [comment] at token
        cases token

end Kind

namespace ParseTree

/-- Every node has the parts that its kind asks for, and documentation is still to be read. -/
def Formed (tree : ParseTree) : Prop :=
  tree.All fun kind named _ children =>
    (Kind.ofGrammar kind named).isDocumentation = false ∧
      (Kind.ofGrammar kind named).Fits (children.map face)

instance (tree : ParseTree) : Decidable tree.Formed := decidableAll tree

end ParseTree

namespace Tree

variable {t : Tree} {a b id : Nat}

/-- Every node has the parts that its kind asks for. -/
def Formed (t : Tree) : Prop :=
  ∀ id, (t.kind id).Fits ((t.node id).children.map fun c => (t.node c).face)

theorem Formed.kind_of_childByField (formed : t.Formed) {field : String} {c : Nat} {fixed : Kind}
    (found : t.childByField id field = some c) (given : (t.kind id).ofField? field = some fixed) :
    t.kind c = fixed := by
  have ⟨child, under⟩ := List.mem_filter.mp (List.mem_of_head? found)
  have part := List.mem_map_of_mem (f := fun c => (t.node c).face) (mem_node_of_mem_children child)
  exact (formed id).fields _ part field (eq_of_beq under) fixed given

theorem Formed.kind_name (formed : t.Formed) {c : Nat} (plain : (t.kind id).isPlainlyNamed = true)
    (found : t.childByField id "name" = some c) : t.kind c = .identifier :=
  formed.kind_of_childByField found (by simp [Kind.ofField?, plain])

theorem not_mem_ancestors_of_leaf (attached : t.Attached) (inside : b < t.size)
    (leaf : (t.node a).children = []) : a ∉ t.ancestors b := by
  intro above
  have ⟨c, child, _⟩ := exists_child_above attached inside above
  rw [leaf] at child
  cases child

theorem LeafWords.not_mem_ancestors (words : t.LeafWords) (attached : t.Attached)
    (inside : b < t.size) (word : (t.kind a).isWord = true) : a ∉ t.ancestors b :=
  not_mem_ancestors_of_leaf attached inside (words a word)

theorem Spaced.start_lt_of_isOpened (spaced : t.Spaced) (attached : t.Attached) (words : t.LeafWords)
    (formed : t.Formed) (opened : (t.kind a).isOpened = true) (inside : b < t.size)
    (above : a ∈ t.ancestors b) (named : (t.kind b).isToken = false)
    (proper : ∀ c ∈ (t.node a).children, (t.span c).start < (t.span c).stop) :
    (t.span a).start < (t.span b).start := by
  have ⟨c, child, path⟩ := exists_child_above attached inside above
  have opening := (formed a).opening opened
  have row := pairwise_children spaced a
  have within := (spaced.within_ancestor attached inside path).1
  have outer := fun c member => (spaced a).contains (List.mem_map_of_mem (f := t.span) (a := c) member)
  generalize (t.node a).children = ids at child opening row proper outer
  cases ids with
  | nil => cases child
  | cons sign rest =>
    have token : (t.kind sign).isToken = true := opening
    have ⟨behind, _⟩ := List.pairwise_cons.mp row
    have first := (outer sign List.mem_cons_self).1
    have wide := proper sign List.mem_cons_self
    rcases List.mem_cons.mp child with same | later
    · -- nothing else stands in the sign
      exfalso
      rw [same] at path
      rcases List.mem_cons.mp path with itself | further
      · rw [itself, named] at token
        cases token
      · exact words.not_mem_ancestors attached inside (Kind.isWord_of_isToken token) further
    · have := behind c later
      omega

end Tree

namespace ParseTree

theorem formed_toTree {tree : ParseTree} (formed : tree.Formed) (text : String) :
    (tree.toTree text).Formed ∧ ∀ id, ((tree.toTree text).kind id).isDocumentation = false := by
  have both (id : Nat) : ((tree.toTree text).kind id).isDocumentation = false ∧
      ((tree.toTree text).kind id).Fits
        (((tree.toTree text).node id).children.map fun c => ((tree.toTree text).node c).face) := by
    by_cases inside : id < tree.size
    · have ⟨kind, named, span, field, up, children, ⟨plain, fits⟩, made, faces⟩ :=
        node_toTree_from formed text inside
      unfold Tree.kind
      rw [made]
      exact ⟨plain, faces ▸ fits⟩
    · unfold Tree.kind
      rw [Tree.node_of_size_le (by rw [size_toTree]; omega)]
      exact ⟨rfl, Kind.fits_of_free _ rfl rfl⟩
  exact ⟨fun id => (both id).2, fun id => (both id).1⟩

end ParseTree

namespace Javadoc

/-- What reading comments makes of a tree: comments may become documentation, and what is added are
links below comments, and the parts of links. -/
structure Reads (t u : Tree) : Prop where
  size_le : t.size ≤ u.size
  field : ∀ id, id < t.size → (u.node id).field = (t.node id).field
  kind : ∀ id, id < t.size → u.kind id = t.kind id ∨ t.kind id = .blockComment ∧ u.kind id = .javadoc
  children : ∀ id, id < t.size → t.kind id ≠ .blockComment →
    (u.node id).children = (t.node id).children
  added : ∀ id, t.size ≤ id → id < u.size → (u.kind id).isDocumentation = true
  links : ∀ id, t.size ≤ id → u.kind id = .javadocLink →
    ∃ comment < t.size, (u.node id).parent = some comment

namespace Reads

variable {t u : Tree}

theorem refl (t : Tree) : Reads t t where
  size_le := Nat.le_refl _
  field _ _ := rfl
  kind _ _ := .inl rfl
  children _ _ _ := rfl
  added _ outside inside := absurd inside (Nat.not_lt.mpr outside)
  links id outside link := by
    unfold Tree.kind at link
    rw [Tree.node_of_size_le outside] at link
    cases link

theorem named (reads : Reads t u) {comment : Nat} (inside : comment < t.size)
    (old : t.kind comment = .blockComment) : Reads t (named u comment) := by
  have bound : comment < u.size := Nat.lt_of_lt_of_le inside reads.size_le
  have size : (Javadoc.named u comment).size = u.size := size_named
  have kinds := kind_named bound
  have elsewhere {id : Nat} (outside : t.size ≤ id) : id ≠ comment := by omega
  refine ⟨by rw [size]; exact reads.size_le, ?_, ?_, ?_, ?_, ?_⟩
  · intro id early
    rw [node_named bound]
    exact reads.field id early
  · intro id early
    rw [kinds]
    split
    · rename_i same
      exact .inr ⟨same ▸ old, rfl⟩
    · exact reads.kind id early
  · intro id early other
    rw [node_named bound]
    exact reads.children id early other
  · intro id outside early
    rw [kinds, if_neg (elsewhere outside)]
    exact reads.added id outside (size ▸ early)
  · intro id outside link
    rw [kinds, if_neg (elsewhere outside)] at link
    rw [node_named bound]
    exact reads.links id outside link

theorem appendChild (reads : Reads t u) {p : Nat} (added : Node) (inside : p < u.size)
    (documentation : added.kind.isDocumentation = true)
    (place : p < t.size ∧ t.kind p = .blockComment ∨ t.size ≤ p ∧ added.kind ≠ .javadocLink) :
    Reads t (u.appendChild p added) := by
  have grown := Tree.size_appendChild added inside
  have whole := reads.size_le
  have fresh := Tree.kind_appendChild_size added inside
  have old {id : Nat} (other : id ≠ u.size) := Tree.node_appendChild added inside other
  have kinds {id : Nat} (other : id ≠ u.size) := Tree.kind_appendChild added inside other
  refine ⟨by omega, ?_, ?_, ?_, ?_, ?_⟩
  · intro id early
    rw [old (by omega)]
    exact reads.field id early
  · intro id early
    rw [kinds (by omega)]
    exact reads.kind id early
  · intro id early other
    have away : id ≠ p := by
      rintro rfl
      rcases place with ⟨_, comment⟩ | ⟨late, _⟩
      · exact other comment
      · omega
    rw [Tree.children_appendChild_of_ne added inside (by omega) away]
    exact reads.children id early other
  · intro id outside early
    by_cases last : id = u.size
    · rw [last, fresh]
      exact documentation
    · rw [kinds last]
      exact reads.added id outside (by omega)
  · intro id outside link
    by_cases last : id = u.size
    · rw [last, fresh] at link
      have ⟨early, _⟩ := place.resolve_right fun both => both.2 link
      exact ⟨p, early, by rw [last, Tree.node_appendChild_size added inside]⟩
    · rw [kinds last] at link
      rw [old last]
      exact reads.links id outside link

theorem addLink (reads : Reads t u) {comment : Nat} (inside : comment < t.size)
    (old : t.kind comment = .blockComment) (link : Link) : Reads t (addLink comment u link) := by
  have whole := reads.size_le
  have bound : comment < u.size := by omega
  have first := reads.appendChild { kind := .javadocLink, span := link.span } bound rfl
    (.inl ⟨inside, old⟩)
  have grown := Tree.size_appendChild { kind := .javadocLink, span := link.span } bound
  rw [addLink_eq]
  generalize u.appendChild comment { kind := .javadocLink, span := link.span } = v at first grown
  have there : u.size < v.size := by omega
  have second := first.appendChild
    { kind := .javadocReference, span := link.reference, field := some "name" } there rfl
    (.inr ⟨whole, nofun⟩)
  have more := Tree.size_appendChild
    { kind := .javadocReference, span := link.reference, field := some "name" } there
  cases link.label with
  | none => exact second
  | some span =>
    exact second.appendChild { kind := .javadocText, span := span, field := some "text" } (by omega) rfl
      (.inr ⟨whole, nofun⟩)

theorem readComment (reads : Reads t u) {comment : Nat} (inside : comment < t.size)
    (old : t.kind comment = .blockComment) : Reads t (readComment u comment) := by
  rw [readComment_eq]
  have links : ∀ (links : List Link) (v : Tree), Reads t v →
      Reads t (links.foldl (Javadoc.addLink comment) v) := by
    intro links
    induction links with
    | nil => exact fun _ reads => reads
    | cons link rest ih => exact fun v reads => ih _ (reads.addLink inside old link)
  exact links _ _ (reads.named inside old)

theorem formed (reads : Reads t u) (formed : t.Formed) : u.Formed := by
  intro id
  by_cases inside : id < t.size
  · by_cases comment : t.kind id = .blockComment
    · rcases reads.kind id inside with same | ⟨_, read⟩
      · rw [same, comment]
        exact Kind.fits_of_free _ rfl rfl
      · rw [read]
        exact Kind.fits_of_free _ rfl rfl
    · have same := (reads.kind id inside).resolve_right fun both => comment both.1
      rw [same, reads.children id inside comment]
      refine (formed id).congr fun c child => ?_
      have early := (Tree.lt_of_mem_node_children child).2
      exact ⟨reads.field c early, (reads.kind c early).imp_right fun both => both.1⟩
  · by_cases late : id < u.size
    · exact Kind.fits_of_isDocumentation _ (reads.added id (by omega) late)
    · unfold Tree.kind
      rw [Tree.node_of_size_le (by omega)]
      exact Kind.fits_of_free _ rfl rfl

theorem links_apart (reads : Reads t u) (plain : ∀ id, (t.kind id).isDocumentation = false)
    {a b : Nat} (first : u.kind a = .javadocLink) (second : u.kind b = .javadocLink) :
    a ∉ u.ancestors b := by
  have late {id : Nat} (link : u.kind id = .javadocLink) : t.size ≤ id := by
    by_contra early
    rcases reads.kind id (by omega) with same | ⟨_, read⟩
    · have := plain id
      rw [← same, link] at this
      cases this
    · rw [link] at read
      cases read
  intro above
  have ⟨comment, early, parent⟩ := reads.links b (late second) second
  rw [Tree.ancestors_of_parent parent] at above
  have low := Tree.le_of_mem_ancestors above
  have high := late first
  omega

end Reads

theorem reads_read (t : Tree) : Reads t (read t) := by
  have comments : ∀ (ids : List Nat), (∀ id ∈ ids, id < t.size ∧ t.kind id = .blockComment) →
      ∀ u, Reads t u → Reads t (ids.foldl readComment u) := by
    intro ids
    induction ids with
    | nil => exact fun _ _ reads => reads
    | cons id rest ih =>
      intro all u reads
      have ⟨⟨inside, comment⟩, others⟩ := List.forall_mem_cons.mp all
      exact ih others _ (reads.readComment inside comment)
  exact comments _ (fun _ member => mem_comments member) t (.refl t)

end Javadoc

namespace Source

variable (text : String) {parse : Parse} (formed : parse.tree.Formed)

include formed

theorem formed_ofParse : (ofParse text parse).tree.Formed :=
  (Javadoc.reads_read _).formed (ParseTree.formed_toTree formed text).1

theorem links_apart_ofParse {a b : Nat} (first : (ofParse text parse).tree.kind a = .javadocLink)
    (second : (ofParse text parse).tree.kind b = .javadocLink) :
    a ∉ (ofParse text parse).tree.ancestors b :=
  (Javadoc.reads_read _).links_apart (ParseTree.formed_toTree formed text).2 first second

end Source

end SpringLint
