import Mathlib.Data.List.Forall2
import SpringLint.Proofs.Syntax.Javadoc
import SpringLint.Syntax.ParseTree

/-! The nodes that the links of a documentation comment become. -/

namespace SpringLint.Javadoc

open Text

/-- How a link hangs below its comment: the node of the link, then those of its parts. -/
structure Hangs (u : Tree) (comment : Nat) (link : Link) (id : Nat) : Prop where
  whole : u.node id =
    { kind := .javadocLink, span := link.span, parent := some comment
      children := (id + 1) :: link.label.toList.map fun _ => id + 2 }
  reference : u.node (id + 1) =
    { kind := .javadocReference, span := link.reference, field := some "name", parent := some id }
  label : ∀ span ∈ link.label, u.node (id + 2) =
    { kind := .javadocText, span := span, field := some "text", parent := some id }

namespace Hangs

variable {u v : Tree} {comment id : Nat} {link : Link}

theorem lt_size (hangs : Hangs u comment link id) :
    id + 1 < u.size ∧ ∀ span ∈ link.label, id + 2 < u.size := by
  have below (c : Nat) (member : c ∈ (id + 1) :: link.label.toList.map fun _ => id + 2) :
      c < u.size := by
    have listed : c ∈ (u.node id).children := by
      rw [hangs.whole]
      exact member
    exact (Tree.lt_of_mem_node_children listed).2
  refine ⟨below _ List.mem_cons_self, ?_⟩
  intro span labelled
  rw [Option.mem_def.mp labelled] at below
  exact below (id + 2) (by simp)

theorem congr (hangs : Hangs u comment link id)
    (same : ∀ other, id ≤ other → other < u.size → v.node other = u.node other) :
    Hangs v comment link id := by
  have ⟨inside, last⟩ := hangs.lt_size
  refine ⟨?_, ?_, ?_⟩
  · rw [same id (by omega) (by omega), hangs.whole]
  · rw [same (id + 1) (by omega) inside, hangs.reference]
  · intro span labelled
    rw [same (id + 2) (by omega) (last span labelled), hangs.label span labelled]

end Hangs

section Comment

variable {t : Tree} {comment : Nat}

theorem hangs_addLink (link : Link) (inside : comment < t.size) :
    Hangs (addLink comment t link) comment link t.size := by
  have grown := Tree.size_appendChild { kind := .javadocLink, span := link.span } inside
  have first := Tree.node_appendChild_size { kind := .javadocLink, span := link.span } inside
  rw [addLink_eq]
  generalize t.appendChild comment { kind := .javadocLink, span := link.span } = u at *
  have below : t.size < u.size := by omega
  have further := Tree.size_appendChild
    { kind := .javadocReference, span := link.reference, field := some "name" } below
  have top := Tree.node_appendChild
    { kind := .javadocReference, span := link.reference, field := some "name" } below
    (Nat.ne_of_lt below)
  have reference := Tree.node_appendChild_size
    { kind := .javadocReference, span := link.reference, field := some "name" } below
  generalize u.appendChild t.size
    { kind := .javadocReference, span := link.reference, field := some "name" } = v at *
  rw [grown] at top reference further
  rw [if_pos rfl, first, List.nil_append] at top
  cases labelled : link.label with
  | none => exact ⟨by rw [top, labelled]; rfl, reference, by simp [labelled]⟩
  | some span =>
    have room : t.size < v.size := by omega
    have whole := Tree.node_appendChild
      { kind := .javadocText, span := span, field := some "text" } room (Nat.ne_of_lt room)
    have kept := Tree.node_appendChild { kind := .javadocText, span := span, field := some "text" } room
      (show t.size + 1 ≠ v.size by omega)
    have label := Tree.node_appendChild_size
      { kind := .javadocText, span := span, field := some "text" } room
    rw [further] at label whole
    rw [if_pos rfl, top] at whole
    rw [if_neg (by omega), reference] at kept
    refine ⟨?_, kept, ?_⟩
    · rw [whole, labelled]
      rfl
    · intro other same
      rw [labelled] at same
      obtain rfl := Option.some.inj same
      exact label

/-- The links of a comment become its last children, in order. -/
theorem addLinks_hang (links : List Link) (inside : comment < t.size) :
    ∃ ids, (links.foldl (addLink comment) t).node comment =
        { t.node comment with children := (t.node comment).children ++ ids } ∧
      List.Forall₂
        (fun link id => t.size ≤ id ∧ Hangs (links.foldl (addLink comment) t) comment link id)
        links ids := by
  induction links generalizing t with
  | nil => exact ⟨[], by simp, .nil⟩
  | cons link rest ih =>
    have here := hangs_addLink link inside
    have grown := (addLink_grows link inside (Nat.le_refl _)).size_le
    have below : comment < (addLink comment t link).size := by omega
    have ⟨ids, node, hang⟩ := ih below
    have later := addLinks_grows rest below (Nat.le_refl _)
    refine ⟨t.size :: ids, ?_, .cons ⟨Nat.le_refl _, ?_⟩ (hang.imp ?_)⟩
    · rw [List.foldl_cons, node, node_addLink link inside inside, if_pos rfl]
      simp
    · apply here.congr
      intro other above early
      exact later.others other early (by omega)
    · rintro _ id ⟨fresh, hangs⟩
      exact ⟨Nat.le_trans grown fresh, hangs⟩

theorem readComment_hangs (inside : comment < t.size) :
    ∃ ids, (readComment t comment).node comment =
        { t.node comment with kind := .javadoc, children := (t.node comment).children ++ ids } ∧
      List.Forall₂ (fun link id => t.size ≤ id ∧ Hangs (readComment t comment) comment link id)
        (linksFrom 0 (t.span comment).start (t.text comment).toList) ids := by
  have there : comment < (named t comment).size := by rwa [size_named]
  have ⟨ids, node, hang⟩ := addLinks_hang
    (linksFrom 0 (t.span comment).start (t.text comment).toList) there
  rw [← readComment_eq, size_named] at *
  refine ⟨ids, ?_, hang⟩
  rw [node, node_named inside, if_pos rfl]

theorem readComments_node {ids : List Nat} (inside : ∀ id ∈ ids, id < t.size) :
    ∀ id, id < t.size → id ∉ ids → (ids.foldl readComment t).node id = t.node id := by
  induction ids generalizing t with
  | nil => exact fun _ _ _ => rfl
  | cons first rest ih =>
    have grows := readComment_grows (inside first List.mem_cons_self) (Nat.le_refl _)
    have grown := grows.size_le
    intro id early fresh
    have ⟨other, later⟩ := not_or.mp (mt List.mem_cons.mpr fresh)
    have still := ih (t := readComment t first) (by
      intro other member
      exact Nat.lt_of_lt_of_le (inside other (List.mem_cons_of_mem _ member)) grown)
    rw [List.foldl_cons, still id (by omega) later, grows.others id early other]

/-- A comment is read once: what is read before leaves its text alone, and what is read later its
links. -/
theorem readComments_hang {ids : List Nat} (inside : ∀ id ∈ ids, id < t.size) (distinct : ids.Nodup)
    (member : comment ∈ ids) :
    ∃ links, (ids.foldl readComment t).node comment =
        { t.node comment with kind := .javadoc, children := (t.node comment).children ++ links } ∧
      List.Forall₂ (Hangs (ids.foldl readComment t) comment)
        (linksFrom 0 (t.span comment).start (t.text comment).toList) links := by
  induction ids generalizing t with
  | nil => cases member
  | cons first rest ih =>
    have ⟨early, others⟩ := List.forall_mem_cons.mp inside
    have ⟨apart, distinct⟩ := List.nodup_cons.mp distinct
    have grows := readComment_grows early (Nat.le_refl _)
    have grown := grows.size_le
    have below : ∀ id ∈ rest, id < (readComment t first).size :=
      fun id member => Nat.lt_of_lt_of_le (others id member) grown
    rw [List.foldl_cons]
    rcases List.mem_cons.mp member with rfl | later
    · have ⟨links, node, hang⟩ := readComment_hangs early
      have still := readComments_node below
      refine ⟨links, ?_, hang.imp ?_⟩
      · rw [still comment (by omega) apart, node]
      · rintro link id ⟨fresh, hangs⟩
        apply hangs.congr
        intro other above bound
        exact still other bound fun member => by
          have := others other member
          omega
    · have other : comment ≠ first := fun same => apart (same ▸ later)
      have node := grows.others comment (others comment later) other
      have span : (readComment t first).span comment = t.span comment := congrArg Node.span node
      have text : (readComment t first).text comment = t.text comment := by
        unfold Tree.text
        rw [node, grows.source]
      have hang := ih below distinct later
      rwa [node, span, text] at hang

theorem read_hangs (block : t.kind comment = .blockComment)
    (documentation : isDocumentation (t.text comment) = true) :
    ∃ links, (read t).node comment =
        { t.node comment with kind := .javadoc, children := (t.node comment).children ++ links } ∧
      List.Forall₂ (Hangs (read t) comment)
        (linksFrom 0 (t.span comment).start (t.text comment).toList) links := by
  have inside : comment < t.size := Tree.lt_size_of_kind (by simp [block])
  apply readComments_hang
  · exact fun _ member => (mem_comments member).1
  · exact List.Pairwise.filter _ List.nodup_range
  · simp [block, documentation, inside]

end Comment

section Link

variable {u : Tree} {comment id pos start : Nat} {tag : Tag} {part : List Char}

/-- A node below `parent` that was read off the source at `start`, where `part` stands. -/
structure Shows (u : Tree) (parent id : Nat) (kind : Kind) (field : Option String) (start : Nat)
    (part : List Char) (children : List Nat) : Prop where
  node : u.node id =
    { kind := kind, span := ⟨start, start + byteLength part⟩, field := field, parent := some parent
      children := children }
  text : (u.text id).toList = part

theorem Shows.of_part {parent : Nat} {kind : Kind} {field : Option String} {children : List Nat}
    (stands : Part 0 u.source.toList start part)
    (node : u.node id =
      { kind := kind, span := ⟨start, start + byteLength part⟩, field := field, parent := some parent
        children := children }) :
    Shows u parent id kind field start part children := by
  refine ⟨node, ?_⟩
  simp [Tree.text, Text.slice, node, Node.isInserted, stands.slice?]

/-- The text node of a label that stands at `start`: none if the label is all margin, else one that
shows what is left of the label between its margins. -/
inductive Labelled (u : Tree) (link start : Nat) (label : List Char) : List Nat → Prop
  | bare (margin : ∀ c ∈ label, isMargin c = true) : Labelled u link start label []
  | text (id : Nat) (lead trimmed trail : List Char) (split : label = lead ++ trimmed ++ trail)
    (margin : ∀ c ∈ lead ++ trail, isMargin c = true) (visible : trimmed ≠ [])
    (first : ∀ c ∈ trimmed.head?, isMargin c = false)
    (last : ∀ c ∈ trimmed.getLast?, isMargin c = false)
    (shows : Shows u link id .javadocText (some "text") (start + byteLength lead) trimmed []) :
    Labelled u link start label [id]

/-- The nodes of a link that stands at `pos`: the link itself, its name inside it, and behind the
name what is left of its label. -/
structure LinkNodes (u : Tree) (comment pos : Nat) (tag : Tag) (id reference : Nat)
    (labels : List Nat) : Prop where
  link : Shows u comment id .javadocLink none pos tag.text (reference :: labels)
  closes : ∃ inner, tag.text = opening ++ inner ++ [closing] ∧ closing ∉ opening ++ inner
  name : Shows u id reference .javadocReference (some "name")
    (pos + byteLength (opening ++ tag.blanks)) tag.name []
  named : tag.name ≠ [] ∧ ∀ c ∈ tag.name, isBlank c = false ∧ c ≠ closing
  label : Labelled u id (pos + byteLength (opening ++ tag.blanks ++ tag.name)) tag.label labels
  row : InRow (u.span id).start (u.span id).stop ((reference :: labels).map u.span)

namespace Hangs

theorem labelled (hangs : Hangs u comment (tag.link pos) id)
    (stands : Part 0 u.source.toList pos tag.text) :
    Labelled u id (tag.link pos).reference.stop tag.label
      ((tag.link pos).label.toList.map fun _ => id + 2) := by
  have place : (tag.link pos).label = labelSpan (tag.link pos).reference.stop tag.label := rfl
  have within := stands.trans (tag.label_part pos)
  have found := labelSpan_eq (tag.link pos).reference.stop tag.label
  rw [← place] at found
  have ⟨trail, split, margin⟩ := trimBoth_split isMargin tag.label
  split at found
  · rename_i nothing
    rw [found]
    exact .bare (trimBoth_eq_nil_iff.mp (List.isEmpty_iff.mp nothing))
  · rename_i visible
    have node := hangs.label _ found
    have inner : Part 0 u.source.toList _ (trimBoth isMargin tag.label) :=
      within.trans ⟨_, trail, split, rfl⟩
    rw [found]
    refine .text (id + 2) _ _ trail split ?_ ?_ head?_trimBoth getLast?_trimBoth (.of_part inner node)
    · intro c member
      rcases List.mem_append.mp member with ahead | behind
      · exact List.all_eq_true.mp List.all_takeWhile c ahead
      · exact margin c behind
    · simpa using visible

theorem linkNodes (hangs : Hangs u comment (tag.link pos) id)
    (stands : Part 0 u.source.toList pos tag.text) :
    LinkNodes u comment pos tag id (id + 1) ((tag.link pos).label.toList.map fun _ => id + 2) := by
  have spans : ((id + 1) :: (tag.link pos).label.toList.map fun _ => id + 2).map u.span =
      (tag.link pos).parts := by
    unfold Link.parts Tree.span
    cases labelled : (tag.link pos).label with
    | none => simp [hangs.reference]
    | some span => simp [hangs.reference, hangs.label span labelled]
  refine ⟨.of_part stands hangs.whole, tag.closes, ?_, ⟨tag.named.1, ?_⟩, hangs.labelled stands, ?_⟩
  · apply Shows.of_part (stands.trans (tag.name_part pos))
    rw [hangs.reference]
    simp [Tag.link, Nat.add_assoc]
  · intro c member
    simpa [isNameChar] using tag.named.2 c member
  · have row := tag.parts_inRow pos
    rw [spans]
    unfold Tree.span
    rwa [hangs.whole]

end Hangs

end Link

/-- The links of a comment and the nodes that stand for them: there is one way to find the leftmost
links of its text, and each has become a node, in order, behind what the comment had below it. -/
structure LinksRead (t u : Tree) (comment : Nat) (found : List (Nat × Tag)) (links : List Nat) :
    Prop where
  leftmost : ∀ other,
    Leftmost (t.span comment).start (t.text comment).toList other ↔ other = found
  documented : u.node comment =
    { t.node comment with kind := .javadoc, children := (t.node comment).children ++ links }
  nodes : List.Forall₂
    (fun place id => ∃ reference labels, LinkNodes u comment place.1 place.2 id reference labels)
    found links

/-- Reading the comments of a tree makes a node of every link of a documentation comment. -/
theorem read_links {t : Tree} {comment : Nat} (block : t.kind comment = .blockComment)
    (documentation : isDocumentation (t.text comment) = true) :
    ∃ found links, LinksRead t (read t) comment found links := by
  have ⟨found, leftmost⟩ := exists_leftmost (t.span comment).start (t.text comment).toList
  have ⟨links, node, hang⟩ := read_hangs block documentation
  have filled : t.text comment ≠ "" := by
    intro empty
    rw [empty] at documentation
    revert documentation
    decide
  refine ⟨found, links, ?_, node, ?_⟩
  · intro other
    constructor
    · exact fun second => second.unique leftmost
    · exact fun same => same ▸ leftmost
  · rw [leftmost.linksFrom_eq, List.forall₂_map_left_iff] at hang
    have stands : ∀ place ∈ found, Part 0 (read t).source.toList place.1 place.2.text := by
      intro place member
      rw [(read_extends t).1]
      exact (part_text filled).trans (leftmost.part place member)
    apply ((List.forall₂_and_left found links).mpr ⟨stands, hang⟩).imp
    rintro place id ⟨here, hangs⟩
    exact ⟨_, _, hangs.linkNodes here⟩

/-- Two links in one comment, of which the first has a label whose characters come twice. -/
theorem read_links_repeated :
    let tree : ParseTree := .node "program" true ⟨0, 45⟩ none
      [.node "block_comment" true ⟨0, 45⟩ none []]
    let t := tree.toTree "/** See \x7b@link A *a*a*\x7d and\n * \x7b@link \n B\x7d */"
    t.kind 1 = .blockComment ∧ isDocumentation (t.text 1) = true ∧
      ∃ found links, LinksRead t (read t) 1 found links := by
  refine ⟨by decide +kernel, by decide +kernel, ?_⟩
  exact read_links (by decide +kernel) (by decide +kernel)

end SpringLint.Javadoc
