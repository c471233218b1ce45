import SpringLint.Proofs.Syntax.Change
import SpringLint.Proofs.Syntax.Links

/-! What reading the documentation comments of a tree adds to it. -/

namespace SpringLint.Tree

variable {t : Tree} {p : Nat}

theorem node_appendChild (added : Node) (inside : p < t.size) {id : Nat} (old : id ≠ t.size) :
    (t.appendChild p added).node id =
      { t.node id with
        children := if id = p then (t.node id).children ++ [t.size] else (t.node id).children } := by
  have found := node_addChild_old added inside (List.append_nil (t.node p).children).symm old
  unfold appendChild
  rw [found]
  by_cases same : id = p
  · rw [if_pos same, if_pos same, same]
  · rw [if_neg same, if_neg same]

theorem span_appendChild (added : Node) (inside : p < t.size) {id : Nat} (old : id ≠ t.size) :
    (t.appendChild p added).span id = t.span id := by
  unfold span
  rw [node_appendChild added inside old]

theorem node_appendChild_size (added : Node) (inside : p < t.size) :
    (t.appendChild p added).node t.size = { added with parent := some p, children := [] } := by
  unfold appendChild
  rw [node_addChild_size added inside (List.append_nil _).symm]

theorem span_appendChild_size (added : Node) (inside : p < t.size) :
    (t.appendChild p added).span t.size = added.span := by
  unfold span
  rw [node_appendChild_size added inside]

theorem children_appendChild_self (added : Node) (inside : p < t.size) :
    ((t.appendChild p added).node p).children = (t.node p).children ++ [t.size] := by
  rw [node_appendChild added inside (Nat.ne_of_lt inside)]
  exact if_pos rfl

theorem children_appendChild_of_ne (added : Node) (inside : p < t.size) {id : Nat}
    (old : id ≠ t.size) (other : id ≠ p) :
    ((t.appendChild p added).node id).children = (t.node id).children := by
  rw [node_appendChild added inside old]
  exact if_neg other

theorem children_appendChild_size (added : Node) (inside : p < t.size) :
    ((t.appendChild p added).node t.size).children = [] := by
  rw [node_appendChild_size added inside]

theorem size_appendChild (added : Node) (inside : p < t.size) :
    (t.appendChild p added).size = t.size + 1 :=
  size_addChild t p _ added inside

theorem source_appendChild (added : Node) : (t.appendChild p added).source = t.source :=
  source_addChild ..

theorem OnCharacters.appendChild (characters : t.OnCharacters) (added : Node) (inside : p < t.size)
    (first : Text.Boundary t.source added.span.start)
    (last : Text.Boundary t.source added.span.stop) : (t.appendChild p added).OnCharacters :=
  characters.addChild added inside (List.append_nil _).symm ⟨first, last⟩

theorem Spaced.appendChild (spaced : t.Spaced) (added : Node) (inside : p < t.size)
    (row : InRow (t.span p).start (t.span p).stop
      ((t.node p).children.map t.span ++ [added.span])) : (t.appendChild p added).Spaced := by
  obtain ⟨middle, ahead, first, proper, last⟩ := InRow.append_iff.mp row
  exact spaced.addChild added inside (List.append_nil _).symm
    (ahead.widen (Nat.le_refl _) first) proper last

end SpringLint.Tree

namespace SpringLint.Javadoc

open Text

/-- A step of reading a comment in a tree that had `base` nodes: nodes are added, below the comment
or below nodes added before, and nothing else changes. -/
structure Grows (base comment : Nat) (t u : Tree) : Prop where
  size_le : t.size ≤ u.size
  source : u.source = t.source
  attached : t.Attached → u.Attached
  untouched : t.Untouched → u.Untouched
  others : ∀ id, id < base → id ≠ comment → u.node id = t.node id
  spans : ∀ id, id < t.size → u.span id = t.span id

namespace Grows

theorem refl (base comment : Nat) (t : Tree) : Grows base comment t t :=
  ⟨Nat.le_refl _, rfl, id, id, fun _ _ _ => rfl, fun _ _ => rfl⟩

theorem trans {base comment : Nat} {t u v : Tree} (first : Grows base comment t u)
    (second : Grows base comment u v) : Grows base comment t v where
  size_le := Nat.le_trans first.size_le second.size_le
  source := second.source.trans first.source
  attached hung := second.attached (first.attached hung)
  untouched fresh := second.untouched (first.untouched fresh)
  others id inside other := by rw [second.others id inside other, first.others id inside other]
  spans id inside := by
    rw [second.spans id (Nat.lt_of_lt_of_le inside first.size_le), first.spans id inside]

theorem appendChild {base comment p : Nat} {t : Tree} (kind : Kind) (span : Span)
    (field : Option String) (inside : p < t.size) (whole : base ≤ t.size)
    (place : p = comment ∨ base ≤ p) :
    Grows base comment t
      (t.appendChild p { kind := kind, span := span, field := field }) where
  size_le := by
    rw [Tree.size_appendChild _ inside]
    omega
  source := Tree.source_appendChild _
  attached hung := hung.addChild _ inside (List.append_nil _).symm
  untouched fresh := fresh.addChild _ inside (List.append_nil _).symm ⟨rfl, rfl, rfl, rfl⟩
  others id early other := by
    rw [Tree.node_appendChild _ inside (by omega), if_neg (by omega)]
  spans id early := Tree.span_appendChild _ inside (by omega)

end Grows

section AddLink

variable {comment : Nat} {t : Tree} (link : Link)

theorem addLink_eq :
    addLink comment t link =
      match link.label with
      | some span =>
        ((t.appendChild comment { kind := .javadocLink, span := link.span }).appendChild t.size
          { kind := .javadocReference, span := link.reference, field := some "name" }).appendChild
            t.size { kind := .javadocText, span := span, field := some "text" }
      | none =>
        (t.appendChild comment { kind := .javadocLink, span := link.span }).appendChild t.size
          { kind := .javadocReference, span := link.reference, field := some "name" } := rfl

variable (inside : comment < t.size)

include inside

theorem addLink_grows_below {base : Nat} (whole : base ≤ t.size) :
    Grows base comment (t.appendChild comment { kind := .javadocLink, span := link.span })
      (addLink comment t link) := by
  have grown := Tree.size_appendChild { kind := .javadocLink, span := link.span } inside
  have first : Grows base comment (t.appendChild comment { kind := .javadocLink, span := link.span })
      _ := .appendChild .javadocReference link.reference (some "name")
        (p := t.size) (by omega) (by omega) (.inr whole)
  have further := Tree.size_appendChild
    { kind := .javadocReference, span := link.reference, field := some "name" }
    (t := t.appendChild comment { kind := .javadocLink, span := link.span }) (p := t.size) (by omega)
  rw [addLink_eq]
  cases link.label with
  | none => exact first
  | some span =>
    exact first.trans
      (.appendChild .javadocText span (some "text") (by omega) (by omega) (.inr whole))

theorem addLink_grows {base : Nat} (whole : base ≤ t.size) :
    Grows base comment t (addLink comment t link) := by
  have first : Grows base comment t
      (t.appendChild comment { kind := .javadocLink, span := link.span }) :=
    .appendChild .javadocLink link.span none inside whole (.inl rfl)
  exact first.trans (addLink_grows_below link inside whole)

theorem span_addLink_size : (addLink comment t link).span t.size = link.span := by
  have grown := Tree.size_appendChild { kind := .javadocLink, span := link.span } inside
  rw [(addLink_grows_below link inside (Nat.le_refl _)).spans t.size (by omega)]
  exact Tree.span_appendChild_size _ inside

theorem node_addLink {id : Nat} (old : id < t.size) :
    (addLink comment t link).node id =
      { t.node id with
        children := if id = comment then (t.node id).children ++ [t.size] else (t.node id).children } := by
  have grown := Tree.size_appendChild { kind := .javadocLink, span := link.span } inside
  have first := Tree.node_appendChild { kind := .javadocLink, span := link.span } inside
    (show id ≠ t.size by omega)
  rw [addLink_eq]
  generalize t.appendChild comment { kind := .javadocLink, span := link.span } = u at *
  have further := Tree.size_appendChild
    { kind := .javadocReference, span := link.reference, field := some "name" }
    (t := u) (p := t.size) (by omega)
  have second := Tree.node_appendChild
    { kind := .javadocReference, span := link.reference, field := some "name" }
    (t := u) (p := t.size) (by omega) (show id ≠ u.size by omega)
  generalize u.appendChild t.size
    { kind := .javadocReference, span := link.reference, field := some "name" } = v at *
  rw [if_neg (by omega), first] at second
  cases link.label with
  | none => exact second
  | some span =>
    dsimp only
    rw [Tree.node_appendChild _ (by omega) (by omega), if_neg (by omega), second]

theorem children_addLink :
    ((addLink comment t link).node comment).children = (t.node comment).children ++ [t.size] := by
  rw [node_addLink link inside inside, if_pos rfl]

theorem spaced_addLink (spaced : t.Spaced)
    (row : InRow (t.span comment).start (t.span comment).stop
      ((t.node comment).children.map t.span ++ [link.span]))
    (parts : InRow link.span.start link.span.stop link.parts) :
    (addLink comment t link).Spaced := by
  have first := spaced.appendChild { kind := .javadocLink, span := link.span } inside row
  have grown := Tree.size_appendChild { kind := .javadocLink, span := link.span } inside
  have place := Tree.span_appendChild_size { kind := .javadocLink, span := link.span } inside
  have leaf := Tree.children_appendChild_size { kind := .javadocLink, span := link.span } inside
  rw [addLink_eq]
  generalize t.appendChild comment { kind := .javadocLink, span := link.span } = u at *
  have below : t.size < u.size := by omega
  have second := first.appendChild
    { kind := .javadocReference, span := link.reference, field := some "name" } below (by
      rw [place, leaf]
      exact ⟨parts.1, parts.2.1, parts.2.2.le⟩)
  have further := Tree.size_appendChild
    { kind := .javadocReference, span := link.reference, field := some "name" } below
  have listed := Tree.children_appendChild_self
    { kind := .javadocReference, span := link.reference, field := some "name" } below
  have here := Tree.span_appendChild
    { kind := .javadocReference, span := link.reference, field := some "name" } below
    (show t.size ≠ u.size by omega)
  have behind := Tree.span_appendChild_size
    { kind := .javadocReference, span := link.reference, field := some "name" } below
  generalize u.appendChild t.size
    { kind := .javadocReference, span := link.reference, field := some "name" } = v at *
  unfold Link.parts at parts
  cases labelled : link.label with
  | none => exact second
  | some span =>
    rw [labelled] at parts
    refine second.appendChild _ (show t.size < v.size by omega) ?_
    rw [listed, leaf, List.nil_append, List.map_singleton, behind, here, place]
    exact parts

theorem onCharacters_addLink (characters : t.OnCharacters)
    (edges : ∀ span ∈ link.span :: link.parts,
      Boundary t.source span.start ∧ Boundary t.source span.stop) :
    (addLink comment t link).OnCharacters := by
  have whole := edges link.span List.mem_cons_self
  have first := characters.appendChild { kind := .javadocLink, span := link.span } inside
    whole.1 whole.2
  have grown := Tree.size_appendChild { kind := .javadocLink, span := link.span } inside
  rw [← Tree.source_appendChild (p := comment) { kind := .javadocLink, span := link.span }] at edges
  rw [addLink_eq]
  generalize t.appendChild comment { kind := .javadocLink, span := link.span } = u at *
  have below : t.size < u.size := by omega
  have name := edges link.reference (by simp [Link.parts])
  have second := first.appendChild
    { kind := .javadocReference, span := link.reference, field := some "name" } below name.1 name.2
  have further := Tree.size_appendChild
    { kind := .javadocReference, span := link.reference, field := some "name" } below
  rw [← Tree.source_appendChild (p := t.size)
    { kind := .javadocReference, span := link.reference, field := some "name" }] at edges
  generalize u.appendChild t.size
    { kind := .javadocReference, span := link.reference, field := some "name" } = v at *
  cases labelled : link.label with
  | none => exact second
  | some span =>
    have label := edges span (by simp [Link.parts, labelled])
    exact second.appendChild _ (show t.size < v.size by omega) label.1 label.2

end AddLink

section AddLinks

variable {comment : Nat}

theorem addLinks_grows (links : List Link) {t : Tree} {base : Nat} (inside : comment < t.size)
    (whole : base ≤ t.size) : Grows base comment t (links.foldl (addLink comment) t) := by
  induction links generalizing t with
  | nil => exact .refl base comment t
  | cons link rest ih =>
    have first := addLink_grows link inside whole
    have grown := first.size_le
    exact first.trans (ih (by omega) (by omega))

theorem spaced_addLinks (links : List Link) {t : Tree} (inside : comment < t.size)
    (spaced : t.Spaced)
    (row : InRow (t.span comment).start (t.span comment).stop
      ((t.node comment).children.map t.span ++ links.map (·.span)))
    (parts : ∀ link ∈ links, InRow link.span.start link.span.stop link.parts) :
    (links.foldl (addLink comment) t).Spaced := by
  induction links generalizing t with
  | nil => exact spaced
  | cons link rest ih =>
    have grows := addLink_grows link inside (Nat.le_refl _)
    have grown := grows.size_le
    rw [List.map_cons, ← List.singleton_append, ← List.append_assoc] at row
    have places : ((addLink comment t link).node comment).children.map (addLink comment t link).span =
        (t.node comment).children.map t.span ++ [link.span] := by
      have old : (t.node comment).children.map (addLink comment t link).span =
          (t.node comment).children.map t.span := by
        apply List.map_congr_left
        intro id member
        exact grows.spans id (Tree.lt_of_mem_node_children member).2
      rw [children_addLink link inside, List.map_append, List.map_singleton, old,
        span_addLink_size link inside]
    apply ih (by omega)
    · obtain ⟨middle, ahead, behind⟩ := InRow.append_iff.mp row
      exact spaced_addLink link inside spaced (ahead.widen (Nat.le_refl _) behind.le)
        (parts link List.mem_cons_self)
    · rw [grows.spans comment inside, places]
      exact row
    · intro other member
      exact parts other (List.mem_cons_of_mem _ member)

theorem onCharacters_addLinks (links : List Link) {t : Tree} (inside : comment < t.size)
    (characters : t.OnCharacters)
    (edges : ∀ link ∈ links, ∀ span ∈ link.span :: link.parts,
      Boundary t.source span.start ∧ Boundary t.source span.stop) :
    (links.foldl (addLink comment) t).OnCharacters := by
  induction links generalizing t with
  | nil => exact characters
  | cons link rest ih =>
    have grows := addLink_grows link inside (Nat.le_refl _)
    have grown := grows.size_le
    apply ih (by omega)
    · exact onCharacters_addLink link inside characters (edges link List.mem_cons_self)
    · intro other member
      rw [grows.source]
      exact edges other (List.mem_cons_of_mem _ member)

end AddLinks

section Read

variable {t : Tree} {comment : Nat}

theorem javadoc_keeps_place (n : Node) :
    { n with kind := .javadoc }.children = n.children ∧
      { n with kind := .javadoc }.parent = n.parent :=
  ⟨rfl, rfl⟩

def named (t : Tree) (comment : Nat) : Tree :=
  t.modify comment (fun n => { n with kind := .javadoc }) javadoc_keeps_place

theorem readComment_eq :
    readComment t comment =
      (linksFrom 0 (t.span comment).start (t.text comment).toList).foldl (addLink comment)
        (named t comment) := rfl

theorem size_named : (named t comment).size = t.size :=
  Tree.size_modify ..

theorem node_named (inside : comment < t.size) (id : Nat) :
    (named t comment).node id =
      { t.node id with kind := if id = comment then .javadoc else (t.node id).kind } := by
  unfold named
  rw [Tree.node_modify t comment _ _ inside]
  by_cases same : id = comment
  · rw [if_pos same, if_pos same, same]
  · rw [if_neg same, if_neg same]

theorem kind_named (inside : comment < t.size) (id : Nat) :
    (named t comment).kind id = if id = comment then .javadoc else t.kind id := by
  unfold Tree.kind
  rw [node_named inside]

theorem span_named (inside : comment < t.size) (id : Nat) :
    (named t comment).span id = t.span id := by
  unfold Tree.span
  rw [node_named inside]

theorem named_grows {base : Nat} (inside : comment < t.size) :
    Grows base comment t (named t comment) where
  size_le := Nat.le_of_eq size_named.symm
  source := rfl
  attached hung := hung.modify inside
  untouched fresh id := by
    rw [node_named inside]
    exact fresh id
  others id _ other := by rw [node_named inside, if_neg other]
  spans id _ := span_named inside id

theorem readComment_grows {base : Nat} (inside : comment < t.size) (whole : base ≤ t.size) :
    Grows base comment t (readComment t comment) := by
  have first : Grows base comment t (named t comment) := named_grows inside
  have grown := first.size_le
  rw [readComment_eq]
  exact first.trans (addLinks_grows _ (by omega) (by omega))

theorem text_cases (t : Tree) (id : Nat) :
    t.text id = "" ∨ slice? t.source (t.span id).start (t.span id).stop = some (t.text id) := by
  unfold Tree.text Text.slice
  by_cases inserted : (t.node id).isInserted = true
  · exact .inl (if_pos inserted)
  · rw [if_neg inserted]
    cases cut : slice? t.source (t.span id).start (t.span id).stop with
    | none => exact .inl (congrArg (·.getD "") cut)
    | some text => exact .inr (congrArg (fun x => some (x.getD "")) cut).symm

theorem text_within (proper : (t.span comment).start ≤ (t.span comment).stop) :
    (t.span comment).start + byteLength (t.text comment).toList ≤ (t.span comment).stop := by
  rcases text_cases t comment with empty | cut
  · rw [empty]
    exact proper
  · rw [byteLength_toList]
    exact Nat.le_of_eq (size_of_slice? cut)

theorem spaced_readComment (inside : comment < t.size) (spaced : t.Spaced)
    (leaf : (t.node comment).children = []) : (readComment t comment).Spaced := by
  have grows : Grows t.size comment t (named t comment) := named_grows inside
  have grown := grows.size_le
  have children : ((named t comment).node comment).children = [] := by
    unfold named
    rw [Tree.node_modify t comment _ _ inside, if_pos rfl]
    exact leaf
  have proper := (spaced comment).le
  have row := linksFrom_inRow (t.span comment).start (t.text comment).toList
  rw [readComment_eq]
  apply spaced_addLinks _ (by omega)
  · exact spaced.modify inside fun _ => rfl
  · rw [grows.spans comment inside, children]
    exact row.widen (Nat.le_refl _) (text_within proper)
  · intro link member
    have ⟨start, tag, same, _⟩ := exists_tag_of_mem_linksFrom member
    rw [same]
    exact tag.parts_inRow start

theorem part_text {id : Nat} (filled : t.text id ≠ "") :
    Part 0 t.source.toList (t.span id).start (t.text id).toList := by
  rcases text_cases t id with empty | cut
  · exact absurd empty filled
  · have ⟨before, after, whole, place⟩ := slice?_eq_some cut filled
    exact ⟨before, after, whole, by rw [place, Nat.zero_add]⟩

theorem onCharacters_readComment (inside : comment < t.size) (characters : t.OnCharacters) :
    (readComment t comment).OnCharacters := by
  have grows : Grows t.size comment t (named t comment) := named_grows inside
  have grown := grows.size_le
  rw [readComment_eq]
  apply onCharacters_addLinks _ (by omega)
  · intro id
    rw [grows.source, span_named inside]
    exact characters id
  · intro link member span listed
    have ⟨start, tag, same, stands⟩ := exists_tag_of_mem_linksFrom member
    have filled : t.text comment ≠ "" := by
      intro empty
      rw [empty] at member
      cases member
    have ⟨part, within, stops⟩ := tag.spans_part start span (same ▸ listed)
    rw [grows.source, stops]
    exact ((part_text filled).trans (stands.trans within)).boundary

/-- Reading comments one after the other only adds nodes. -/
theorem readComments_extends {ids : List Nat} (inside : ∀ id ∈ ids, id < t.size) :
    (ids.foldl readComment t).source = t.source ∧
      (t.Attached → (ids.foldl readComment t).Attached) ∧
        (t.Untouched → (ids.foldl readComment t).Untouched) := by
  induction ids generalizing t with
  | nil => exact ⟨rfl, id, id⟩
  | cons id rest ih =>
    have grows := readComment_grows (inside id List.mem_cons_self) (Nat.le_refl _)
    have later : ∀ other ∈ rest, other < (readComment t id).size := by
      intro other member
      exact Nat.lt_of_lt_of_le (inside other (List.mem_cons_of_mem _ member)) grows.size_le
    obtain ⟨source, attached, untouched⟩ := ih later
    exact ⟨source.trans grows.source, fun hung => attached (grows.attached hung),
      fun fresh => untouched (grows.untouched fresh)⟩

theorem readComments_spaced {ids : List Nat} {base : Nat} (distinct : ids.Nodup)
    (early : ∀ id ∈ ids, id < base) (whole : base ≤ t.size)
    (leaves : ∀ id ∈ ids, (t.node id).children = []) (spaced : t.Spaced) :
    (ids.foldl readComment t).Spaced ∧
      (t.OnCharacters → (ids.foldl readComment t).OnCharacters) := by
  induction ids generalizing t with
  | nil => exact ⟨spaced, id⟩
  | cons id rest ih =>
    obtain ⟨fresh, distinct⟩ := List.nodup_cons.mp distinct
    have first := early id List.mem_cons_self
    have inside : id < t.size := by omega
    have grows := readComment_grows inside whole
    have rowed := spaced_readComment inside spaced (leaves id List.mem_cons_self)
    have still : ∀ other ∈ rest, ((readComment t id).node other).children = [] := by
      intro other member
      have different : other ≠ id := by
        rintro rfl
        exact fresh member
      rw [grows.others other (early other (List.mem_cons_of_mem _ member)) different]
      exact leaves other (List.mem_cons_of_mem _ member)
    obtain ⟨row, characters⟩ := ih distinct
      (fun other member => early other (List.mem_cons_of_mem _ member))
      (Nat.le_trans whole grows.size_le) still rowed
    exact ⟨row, fun ends => characters (onCharacters_readComment inside ends)⟩

theorem mem_comments {id : Nat}
    (member : id ∈ (List.range t.size).filter fun id =>
      t.kind id = .blockComment && isDocumentation (t.text id)) :
    id < t.size ∧ t.kind id = .blockComment := by
  rw [List.mem_filter, List.mem_range, Bool.and_eq_true, decide_eq_true_eq] at member
  exact ⟨member.1, member.2.1⟩

theorem read_extends (t : Tree) :
    (read t).source = t.source ∧ (t.Attached → (read t).Attached) ∧
      (t.Untouched → (read t).Untouched) :=
  readComments_extends fun _ member => (mem_comments member).1

theorem read_spaced (spaced : t.Spaced)
    (leaves : ∀ id, t.kind id = .blockComment → (t.node id).children = []) :
    (read t).Spaced ∧ (t.OnCharacters → (read t).OnCharacters) := by
  have distinct : ((List.range t.size).filter fun id =>
      t.kind id = .blockComment && isDocumentation (t.text id)).Nodup :=
    List.Pairwise.filter _ List.nodup_range
  exact readComments_spaced distinct (fun _ member => (mem_comments member).1) (Nat.le_refl _)
    (fun id member => leaves id (mem_comments member).2) spaced

end Read

end SpringLint.Javadoc
