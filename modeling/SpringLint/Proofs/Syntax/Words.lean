import SpringLint.Proofs.Syntax.Covering

/-! Words: identifiers and tokens. A grammar gives them no parts, and reading documentation adds none,
so that named nodes lead to every other live node, and a word that is not empty is itself the lowest
node at its place. -/

namespace SpringLint

namespace Kind

/-- Whether a node of this kind is a single word or sign of the text. -/
def isWord : Kind → Bool
  | .identifier => true
  | kind => kind.isToken

theorem isWord_of_isToken {kind : Kind} (token : kind.isToken = true) : kind.isWord = true := by
  cases kind with
  | token text => rfl
  | _ => cases token

end Kind

namespace ParseTree

/-- Words have no parts. -/
def LeafWords (tree : ParseTree) : Prop :=
  tree.All fun kind named _ children => (Kind.ofGrammar kind named).isWord = true → children = []

instance (tree : ParseTree) : Decidable tree.LeafWords := decidableAll tree

end ParseTree

namespace Tree

variable {t : Tree} {id p : Nat}

/-- Words have no parts. -/
def LeafWords (t : Tree) : Prop :=
  ∀ id, (t.kind id).isWord = true → (t.node id).children = []

theorem kind_appendChild (added : Node) (inside : p < t.size) (old : id ≠ t.size) :
    (t.appendChild p added).kind id = t.kind id := by
  unfold kind
  rw [node_appendChild added inside old]

theorem kind_appendChild_size (added : Node) (inside : p < t.size) :
    (t.appendChild p added).kind t.size = added.kind := by
  unfold kind
  rw [node_appendChild_size added inside]

theorem LeafWords.appendChild (words : t.LeafWords) (added : Node) (inside : p < t.size)
    (wide : (t.kind p).isWord = false) : (t.appendChild p added).LeafWords := by
  intro id word
  by_cases fresh : id = t.size
  · rw [fresh]
    exact children_appendChild_size added inside
  · rw [kind_appendChild added inside fresh] at word
    have away : id ≠ p := by
      intro same
      rw [same, wide] at word
      cases word
    rw [children_appendChild_of_ne added inside fresh away]
    exact words id word

theorem LeafWords.leadsTo (words : t.LeafWords) (attached : t.Attached) (live : id ∈ t.descendants root)
    (named : (t.kind id).isToken = false) : t.LeadsTo root id := by
  induction id using Nat.strongRecOn with
  | ind id ih =>
    rcases of_mem_descendants attached live with same | ⟨stays, p, above, path⟩
    · rw [same]
      exact .refl
    · have member := attached.mem_of_parent (lt_of_mem_descendants attached.nonempty live) above
      have child : id ∈ t.namedChildren p :=
        List.mem_filter.mpr ⟨List.mem_filter.mpr ⟨member, by simp [stays]⟩, by simp [named]⟩
      have outer : (t.kind p).isToken = false := by
        by_contra token
        rw [Bool.not_eq_false] at token
        rw [words p (Kind.isWord_of_isToken token)] at member
        cases member
      exact .tail (ih p (parent_lt above) path outer) child

theorem Spaced.coveringNode_of_leaf (spaced : t.Spaced) (path : t.LeadsTo root id)
    (leaf : (t.node id).children = []) (proper : (t.span id).start < (t.span id).stop) :
    t.coveringNode (t.span id).start (t.span id).stop = some id := by
  have covers := Span.contains_self (t.span id)
  have top := spaced.contains_of_leadsTo path covers
  have below := spaced.leadsTo_coverFrom_of_contains proper path covers
  rw [coveringNode_eq_some_iff]
  refine ⟨top, ?_⟩
  rcases below.cases_head with same | ⟨c, child, -⟩
  · exact same.symm
  · have member := mem_node_of_mem_namedChildren child
    rw [leaf] at member
    cases member

end Tree

namespace ParseTree

theorem leafWords_toTree {tree : ParseTree} (words : tree.LeafWords) (text : String) :
    (tree.toTree text).LeafWords :=
  childless_toTree (fun kind => kind.isWord = true) words text

end ParseTree

namespace Javadoc

section

variable {t : Tree} {comment : Nat}

theorem leafWords_addLink (link : Link) (inside : comment < t.size) (words : t.LeafWords)
    (documentation : t.kind comment = .javadoc) :
    (addLink comment t link).LeafWords ∧ (addLink comment t link).kind comment = .javadoc := by
  have first := words.appendChild { kind := .javadocLink, span := link.span } inside
    (by rw [documentation]; rfl)
  have grown := Tree.size_appendChild { kind := .javadocLink, span := link.span } inside
  have still := (Tree.kind_appendChild { kind := .javadocLink, span := link.span } inside
    (Nat.ne_of_lt inside)).trans documentation
  have here := Tree.kind_appendChild_size { kind := .javadocLink, span := link.span } inside
  rw [addLink_eq]
  generalize t.appendChild comment { kind := .javadocLink, span := link.span } = u at *
  have below : t.size < u.size := by omega
  have part {v : Tree} (added : Node) (there : t.size < v.size) (words : v.LeafWords)
      (linked : v.kind t.size = .javadocLink) (documentation : v.kind comment = .javadoc) :
      (v.appendChild t.size added).LeafWords ∧
        (v.appendChild t.size added).kind t.size = .javadocLink ∧
          (v.appendChild t.size added).kind comment = .javadoc := by
    refine ⟨words.appendChild added there (by rw [linked]; rfl), ?_, ?_⟩
    · rw [Tree.kind_appendChild added there (by omega), linked]
    · rw [Tree.kind_appendChild added there (by omega), documentation]
  have ⟨second, linked, further⟩ := part
    { kind := .javadocReference, span := link.reference, field := some "name" } below first here still
  have more := Tree.size_appendChild
    { kind := .javadocReference, span := link.reference, field := some "name" } below
  cases link.label with
  | none => exact ⟨second, further⟩
  | some span =>
    have ⟨third, _, last⟩ := part { kind := .javadocText, span := span, field := some "text" }
      (by omega) second linked further
    exact ⟨third, last⟩

theorem leafWords_addLinks (links : List Link) (inside : comment < t.size) (words : t.LeafWords)
    (documentation : t.kind comment = .javadoc) : (links.foldl (addLink comment) t).LeafWords := by
  induction links generalizing t with
  | nil => exact words
  | cons link rest ih =>
    have ⟨first, still⟩ := leafWords_addLink link inside words documentation
    have grown := (addLink_grows link inside (Nat.le_refl _)).size_le
    exact ih (by omega) first still

theorem leafWords_readComment (inside : comment < t.size) (words : t.LeafWords) :
    (readComment t comment).LeafWords := by
  rw [readComment_eq]
  apply leafWords_addLinks _ (by rwa [size_named])
  · intro id word
    rw [kind_named inside] at word
    rw [node_named inside]
    split at word
    · cases word
    · exact words id word
  · rw [kind_named inside, if_pos rfl]

theorem leafWords_read (words : t.LeafWords) : (read t).LeafWords := by
  have early : ∀ id ∈ (List.range t.size).filter fun id =>
      t.kind id = .blockComment && isDocumentation (t.text id), id < t.size :=
    fun _ member => (mem_comments member).1
  unfold read
  generalize (List.range t.size).filter _ = ids at early
  induction ids generalizing t with
  | nil => exact words
  | cons id rest ih =>
    have ⟨inside, later⟩ := List.forall_mem_cons.mp early
    have grown := (readComment_grows inside (Nat.le_refl _)).size_le
    exact ih (leafWords_readComment inside words) fun other member =>
      Nat.lt_of_lt_of_le (later other member) grown

end

end Javadoc

theorem Source.leafWords_ofParse (text : String) {parse : Parse} (words : parse.tree.LeafWords) :
    (ofParse text parse).tree.LeafWords :=
  Javadoc.leafWords_read (ParseTree.leafWords_toTree words text)

end SpringLint
