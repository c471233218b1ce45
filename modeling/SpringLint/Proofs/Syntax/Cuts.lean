import SpringLint.Proofs.Syntax.Shape
import SpringLint.Proofs.Syntax.Trace

/-! The cuts of a whole tree: what is printed is the source with the cuts of the root. -/

namespace SpringLint

theorem mapM_eq_some {α β : Type} {f : α → Option β} {g : α → β} {items : List α}
    (each : ∀ item ∈ items, f item = some (g item)) : items.mapM f = some (items.map g) := by
  induction items with
  | nil => rfl
  | cons item rest ih =>
    have later := ih fun other member => each other (List.mem_cons_of_mem _ member)
    rw [List.mapM_cons, each item List.mem_cons_self, later]
    rfl

theorem mapM_eq_none {α β : Type} {f : α → Option β} {items : List α} {item : α}
    (member : item ∈ items) (fails : f item = none) : items.mapM f = none := by
  induction items with
  | nil => cases member
  | cons first rest ih =>
    rw [List.mapM_cons]
    rcases List.mem_cons.mp member with rfl | later
    · rw [fails]
      rfl
    · rw [ih later]
      cases f first <;> rfl

namespace Tree

def isKept (t : Tree) (id : Nat) : Bool :=
  !(t.node id).isInserted && !(t.node id).removed

def wrapCuts (parent child : Node) (cuts : List Cut) : List Cut :=
  if isWrapped parent child then
    { start := child.span.start, stop := child.span.start, text := "(" } ::
      (cuts ++ [{ start := child.span.stop, stop := child.span.stop, text := ")" }])
  else cuts

/-- What a child gives, when `cuts` are its own. -/
def partOf (parent child : Node) (cuts : List Cut) : Part :=
  match child.origin with
  | .inserted (.keyword word) => .keyword word child.span.start
  | .inserted (.text content) => .text content child.span.start
  | .parsed =>
    if child.removed then .removed child.span else .kept child.span (wrapCuts parent child cuts)

/-- The cuts that printing a node makes. There are none when blanks that are dropped with a removed
child reach into what follows it. -/
def cuts? (t : Tree) (id : Nat) : Option (List Cut) :=
  if (t.node id).dirty then do
    let parts ← (t.node id).children.attach.mapM fun c => do
      let cuts ← if t.isKept c.1 then t.cuts? c.1 else some []
      some (partOf (t.node id) (t.node c.1) cuts)
    Trace.run t.source (t.span id) parts
  else some []
termination_by t.size - id
decreasing_by exact child_decreases c.2

def cuts (t : Tree) (id : Nat) : List Cut :=
  (t.cuts? id).getD []

def parts (t : Tree) (id : Nat) : List Part :=
  (t.node id).children.map fun c => partOf (t.node id) (t.node c) (t.cuts c)

variable {t : Tree} {id : Nat}

theorem isKept_iff : t.isKept id = true ↔
    (t.node id).isInserted = false ∧ (t.node id).removed = false := by
  unfold isKept
  rw [Bool.and_eq_true, Bool.not_eq_true', Bool.not_eq_true']

theorem cuts?_eq_cuts (found : (t.cuts? id).isSome = true) : t.cuts? id = some (t.cuts id) := by
  obtain ⟨inner, same⟩ := Option.isSome_iff_exists.mp found
  rw [cuts, same, Option.getD_some]

theorem cuts?_of_clean (clean : (t.node id).dirty = false) : t.cuts? id = some [] := by
  rw [cuts?, if_neg (by rw [clean]; exact Bool.false_ne_true)]

theorem partOf_of_not_kept {parent : Node} {c : Nat} (gone : t.isKept c = false)
    (cuts other : List Cut) :
    partOf parent (t.node c) cuts = partOf parent (t.node c) other := by
  unfold partOf
  unfold isKept Node.isInserted at gone
  cases origin : (t.node c).origin with
  | inserted insertion => cases insertion <;> rfl
  | parsed =>
    have removed : (t.node c).removed = true := by simpa [origin] using gone
    simp only [removed, if_true]

theorem cuts?_of_dirty (dirt : (t.node id).dirty = true) :
    t.cuts? id =
      if ∀ c ∈ (t.node id).children, t.isKept c = true → (t.cuts? c).isSome = true then
        Trace.run t.source (t.span id) (t.parts id)
      else none := by
  have unfolded : t.cuts? id = ((t.node id).children.mapM fun c => do
      let cuts ← if t.isKept c then t.cuts? c else some []
      some (partOf (t.node id) (t.node c) cuts)).bind (Trace.run t.source (t.span id)) := by
    rw [cuts?, if_pos dirt, List.mapM_subtype (g := fun c => do
      let cuts ← if t.isKept c then t.cuts? c else some []
      some (partOf (t.node id) (t.node c) cuts)) (fun _ _ => rfl), List.unattach_attach]
    rfl
  rw [unfolded]
  by_cases printable : ∀ c ∈ (t.node id).children, t.isKept c = true → (t.cuts? c).isSome = true
  · rw [if_pos printable, mapM_eq_some (g := fun c => partOf (t.node id) (t.node c) (t.cuts c))]
    · rfl
    · intro c member
      cases kept : t.isKept c with
      | true =>
        simp only [if_true, cuts?_eq_cuts (printable c member kept)]
        rfl
      | false =>
        simp only [Bool.false_eq_true, if_false]
        exact congrArg some (partOf_of_not_kept kept _ _)
  · rw [if_neg printable]
    simp only [Classical.not_forall, exists_prop, Bool.not_eq_true, Option.isSome_eq_false_iff,
      Option.isNone_iff_eq_none] at printable
    obtain ⟨c, member, kept, fails⟩ := printable
    rw [mapM_eq_none member (by simp only [kept, if_true, fails]; rfl)]
    rfl

theorem render_of_clean (clean : (t.node id).dirty = false) (parsed : (t.node id).isInserted = false) :
    t.render id = Text.slice? t.source (t.span id).start (t.span id).stop := by
  rw [render]
  simp only [clean, parsed, Bool.false_eq_true, if_false]
  rfl

theorem render_of_dirty (dirt : (t.node id).dirty = true) :
    t.render id = ((t.node id).children.mapM fun c =>
      pieceOf (t.node id) (t.node c) fun _ => t.render c).bind (assemble t.source (t.span id)) := by
  rw [render]
  simp only [dirt, if_true]
  rw [List.mapM_subtype (g := fun c => pieceOf (t.node id) (t.node c) fun _ => t.render c)
    (fun _ _ => rfl), List.unattach_attach]
  rfl

/-- A child's own place is where it gives its part; an added child takes no room. -/
theorem span_partOf (parent child : Node) (cuts : List Cut)
    (proper : child.span.start ≤ child.span.stop) :
    (partOf parent child cuts).span.start = child.span.start ∧
      child.span.start ≤ (partOf parent child cuts).span.stop ∧
        (partOf parent child cuts).span.stop ≤ child.span.stop := by
  unfold partOf
  split
  · exact ⟨rfl, Nat.le_refl _, proper⟩
  · exact ⟨rfl, Nat.le_refl _, proper⟩
  · split
    · exact ⟨rfl, proper, Nat.le_refl _⟩
    · exact ⟨rfl, proper, Nat.le_refl _⟩

theorem inRow_parts {parent : Node} {ids : List Nat} {start stop : Nat} {cuts : Nat → List Cut}
    (row : InRow start stop (ids.map t.span)) :
    InRow start stop ((ids.map fun c => partOf parent (t.node c) (cuts c)).map Part.span) := by
  induction ids generalizing start with
  | nil => exact row
  | cons c rest ih =>
    obtain ⟨behind, proper, later⟩ := row
    obtain ⟨same, lower, upper⟩ := span_partOf parent (t.node c) (cuts c) proper
    refine ⟨by rw [same]; exact behind, by rw [same]; exact lower, ?_⟩
    exact (ih later).widen upper (Nat.le_refl _)

theorem inRow_wrapCuts {parent child : Node} {cuts : List Cut}
    (row : InRow child.span.start child.span.stop (cuts.map Cut.toSpan)) :
    InRow child.span.start child.span.stop ((wrapCuts parent child cuts).map Cut.toSpan) := by
  unfold wrapCuts
  split
  · refine ⟨Nat.le_refl _, Nat.le_refl _, ?_⟩
    rw [List.map_append]
    exact InRow.append_iff.mpr ⟨_, row, Nat.le_refl _, Nat.le_refl _, Nat.le_refl _⟩
  · exact row

theorem text_wrapCuts {parent child : Node} {cuts : List Cut} {source : String}
    (row : InRow child.span.start child.span.stop (cuts.map Cut.toSpan)) :
    Glyph.text (Text.spliced source child.span.start child.span.stop (wrapCuts parent child cuts)) =
      if isWrapped parent child then
        "(" ++ Glyph.text (Text.spliced source child.span.start child.span.stop cuts) ++ ")"
      else Glyph.text (Text.spliced source child.span.start child.span.stop cuts) := by
  unfold wrapCuts
  by_cases wrapped : isWrapped parent child = true
  · rw [if_pos wrapped, if_pos wrapped]
    have close : InRow child.span.stop child.span.stop
        ([({ start := child.span.stop, stop := child.span.stop, text := ")" } : Cut)].map
          Cut.toSpan) := ⟨Nat.le_refl _, Nat.le_refl _, Nat.le_refl _⟩
    rw [Text.spliced, Text.spliced_append row close, Text.spliced, Text.spliced,
      Text.copied_self, Text.copied_self]
    simp only [Glyph.text_append, Cut.text_glyphs, String.append_assoc]
    rfl
  · rw [if_neg wrapped, if_neg wrapped]

theorem fits_partOf {parent child : Node} {cuts : List Cut} {source : String}
    (first : Text.Boundary source child.span.start) (second : Text.Boundary source child.span.stop)
    (row : child.isInserted = false → child.removed = false →
      InRow child.span.start child.span.stop (cuts.map Cut.toSpan)) :
    (partOf parent child cuts).Fits source := by
  unfold partOf
  unfold Node.isInserted at row
  cases origin : child.origin with
  | inserted insertion =>
    cases insertion with
    | keyword word => exact ⟨first, first, fun _ _ impossible => by cases impossible⟩
    | text content => exact ⟨first, first, fun _ _ impossible => by cases impossible⟩
  | parsed =>
    simp only [origin, forall_const] at row
    cases removed : child.removed with
    | true => exact ⟨first, second, fun _ _ impossible => by cases impossible⟩
    | false =>
      refine ⟨first, second, ?_⟩
      intro span inner same
      cases same
      exact inRow_wrapCuts (row removed)

theorem pieceOf_eq {parent child : Node} {cuts : List Cut} {source : String}
    {printed : Unit → Option String}
    (row : child.isInserted = false → child.removed = false →
      InRow child.span.start child.span.stop (cuts.map Cut.toSpan))
    (same : child.isInserted = false → child.removed = false → printed () =
      some (Glyph.text (Text.spliced source child.span.start child.span.stop cuts))) :
    pieceOf parent child printed = some ((partOf parent child cuts).piece source) := by
  unfold partOf pieceOf
  unfold Node.isInserted at row same
  cases origin : child.origin with
  | inserted insertion => cases insertion <;> rfl
  | parsed =>
    simp only [origin, forall_const] at row same
    cases removed : child.removed with
    | true => rfl
    | false =>
      simp only [Bool.false_eq_true, if_false, same removed, Part.piece, text_wrapCuts (row removed)]
      rfl

theorem pieceOf_eq_none {parent child : Node} {printed : Unit → Option String}
    (parsed : child.isInserted = false) (stays : child.removed = false) (silent : printed () = none) :
    pieceOf parent child printed = none := by
  unfold pieceOf
  cases origin : child.origin with
  | inserted insertion => simp [Node.isInserted, origin] at parsed
  | parsed =>
    simp only [stays, Bool.false_eq_true, if_false, silent]
    rfl

/-- What a node prints is its source with its cuts. -/
theorem render_eq (spaced : t.Spaced) (characters : t.OnCharacters) (id : Nat) :
    (∀ cuts, t.cuts? id = some cuts →
      InRow (t.span id).start (t.span id).stop (cuts.map Cut.toSpan)) ∧
    ((t.node id).isInserted = false → t.render id = (t.cuts? id).map fun cuts =>
      Glyph.text (Text.spliced t.source (t.span id).start (t.span id).stop cuts)) := by
  induction measure : t.size - id using Nat.strongRecOn generalizing id with
  | ind n ih =>
    subst measure
    cases dirt : (t.node id).dirty with
    | false =>
      rw [cuts?_of_clean dirt]
      refine ⟨?_, ?_⟩
      · intro cuts found
        obtain rfl := Option.some.inj found
        exact (spaced id).le
      · intro parsed
        rw [render_of_clean dirt parsed]
        exact Text.text_copied (characters id).1 (characters id).2 (spaced id).le
    | true =>
      have below (c : Nat) (member : c ∈ (t.node id).children) :=
        ih (t.size - c) (child_decreases member) c rfl
      rw [cuts?_of_dirty dirt, render_of_dirty dirt]
      by_cases printable : ∀ c ∈ (t.node id).children, t.isKept c = true → (t.cuts? c).isSome = true
      · rw [if_pos printable]
        have known (c : Nat) (member : c ∈ (t.node id).children)
            (parsed : (t.node c).isInserted = false) (stays : (t.node c).removed = false) :=
          cuts?_eq_cuts (printable c member (isKept_iff.mpr ⟨parsed, stays⟩))
        have row (c : Nat) (member : c ∈ (t.node id).children)
            (parsed : (t.node c).isInserted = false) (stays : (t.node c).removed = false) :=
          (below c member).1 _ (known c member parsed stays)
        have fits : ∀ part ∈ t.parts id, part.Fits t.source := by
          intro part member
          obtain ⟨c, child, rfl⟩ := List.mem_map.mp member
          exact fits_partOf (characters c).1 (characters c).2 (row c child)
        have agrees := Trace.run_agrees (inRow_parts (spaced id)) fits (characters id).1
          (characters id).2
        refine ⟨agrees.1, fun _ => ?_⟩
        rw [mapM_eq_some (g := fun c =>
          (partOf (t.node id) (t.node c) (t.cuts c)).piece t.source)]
        · have whole := agrees.2
          rw [List.map_map] at whole
          exact whole
        · intro c member
          apply pieceOf_eq (row c member)
          intro parsed stays
          rw [(below c member).2 parsed, known c member parsed stays]
          rfl
      · rw [if_neg printable]
        refine ⟨fun cuts found => (by cases found), fun _ => ?_⟩
        simp only [Classical.not_forall, exists_prop, Bool.not_eq_true, Option.isSome_eq_false_iff,
          Option.isNone_iff_eq_none] at printable
        obtain ⟨c, member, kept, fails⟩ := printable
        have ⟨parsed, stays⟩ := isKept_iff.mp kept
        have silent : t.render c = none := by
          rw [(below c member).2 parsed, fails]
          rfl
        rw [mapM_eq_none member (pieceOf_eq_none parsed stays silent)]
        rfl

theorem print_of_render (characters : t.OnCharacters) {cuts : List Cut}
    (row : InRow (t.span root).start (t.span root).stop (cuts.map Cut.toSpan))
    (rendered : t.render root = some (Glyph.text
      (Text.spliced t.source (t.span root).start (t.span root).stop cuts))) :
    t.print = some (Glyph.text (Text.spliced t.source 0 t.source.utf8ByteSize cuts)) := by
  have first : Text.Boundary t.source 0 := ⟨[], _, rfl, rfl⟩
  have last : Text.Boundary t.source t.source.utf8ByteSize :=
    ⟨t.source.toList, [], by rw [List.append_nil], Javadoc.byteLength_toList _⟩
  have before := Text.text_copied first (characters root).1 (Nat.zero_le _)
  have after := Text.text_copied (characters root).2 last (characters root).2.le
  have ahead : InRow 0 (t.span root).start [] := Nat.zero_le _
  have behind : InRow (t.span root).stop t.source.utf8ByteSize [] := (characters root).2.le
  have inner : Text.spliced t.source _ _ (cuts ++ []) = _ := Text.spliced_append row behind
  have outer : Text.spliced t.source _ _ ([] ++ cuts) = _ :=
    Text.spliced_append ahead (row.widen (Nat.le_refl _) behind)
  rw [List.append_nil] at inner
  rw [List.nil_append] at outer
  unfold print
  simp only [before, after, rendered, Option.bind_eq_bind, Option.bind_some, outer, inner,
    Glyph.text_append, String.append_assoc]
  rfl

theorem print_eq (spaced : t.Spaced) (characters : t.OnCharacters)
    (parsed : (t.node root).isInserted = false) :
    t.print = (t.cuts? root).map fun cuts =>
      Glyph.text (Text.spliced t.source 0 t.source.utf8ByteSize cuts) := by
  obtain ⟨rows, rendered⟩ := render_eq spaced characters root
  cases found : t.cuts? root with
  | none => simp [print, rendered parsed, found]
  | some cuts =>
    apply print_of_render characters (rows cuts found)
    rw [rendered parsed, found, Option.map_some]

end Tree

end SpringLint
