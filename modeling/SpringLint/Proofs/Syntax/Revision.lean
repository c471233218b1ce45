import SpringLint.Proofs.Syntax.Hosts
import SpringLint.Proofs.Syntax.Removal
import SpringLint.Proofs.Syntax.Strokes
import SpringLint.Proofs.Text.Joints

/-! What printing makes of a batch of removals and insertions, node by node. -/

namespace SpringLint

def Insertion.part : Insertion → Nat → Part
  | .keyword word, offset => .keyword word offset
  | .text content, offset => .text content offset

namespace Tree

variable {t u : Tree}

theorem dirty_of_seams (marked : t.Marked) (spaced : t.Spaced) {d : Nat} {own : List Cut} {cut : Cut}
    (seam : t.seams? d = some own) (member : cut ∈ own) : (t.node d).dirty = true := by
  cases dirt : (t.node d).dirty with
  | true => rfl
  | false =>
    have kept : t.bareParts d = keeps ((t.node d).children.map t.span) := by
      unfold bareParts keeps
      rw [List.map_map]
      apply List.map_congr_left
      intro c child
      have plain : ¬((t.node c).removed = true ∨ (t.node c).isInserted = true) := by
        intro touched
        rw [marked.child d c child touched] at dirt
        cases dirt
      unfold partOf
      cases origin : (t.node c).origin with
      | inserted insertion =>
        exact absurd (.inr (by unfold Node.isInserted; rw [origin])) plain
      | parsed =>
        have stays : (t.node c).removed = false := by
          cases removed : (t.node c).removed with
          | false => rfl
          | true => exact absurd (.inl removed) plain
        simp only [stays, Bool.false_eq_true, if_false]
        rfl
    unfold seams? at seam
    rw [kept, Trace.run_keeps _ (spaced d)] at seam
    obtain rfl := Option.some.inj seam
    cases member

/-- What a table of nodes and cuts has to say for the cuts of a tree to be those of the table, in some
order: the nodes of the table make just their cuts, no other printed node makes any, and no cut is
made twice. -/
theorem exists_cuts_of_table (attached : t.Attached) (marked : t.Marked) (spaced : t.Spaced)
    (unwrapped : ∀ id, (t.node id).parenthesized = false) {table : List (Nat × List Cut)}
    (made : ∀ entry ∈ table, t.Shows root entry.1 ∧ t.seams? entry.1 = some entry.2)
    (others : ∀ d, t.Shows root d → (∃ own, (d, own) ∈ table) ∨ t.seams? d = some [])
    (once : (table.flatMap Prod.snd).Nodup) :
    ∃ cuts, t.cuts? root = some cuts ∧ cuts.Perm (table.flatMap Prod.snd) := by
  have entry {d : Nat} {own : List Cut} (shown : t.Shows root d) (seam : t.seams? d = some own) :
      (d, own) ∈ table ∨ own = [] := by
    rcases others d shown with ⟨theirs, member⟩ | none
    · have same := (made _ member).2
      rw [seam] at same
      obtain rfl := Option.some.inj same
      exact .inl member
    · rw [seam] at none
      exact .inr (Option.some.inj none)
  obtain ⟨within, across⟩ := List.pairwise_flatMap.mp once
  cases found : t.cuts? root with
  | none =>
    obtain ⟨d, shown, -, fails⟩ := (cuts?_eq_none_iff attached marked root).mp found
    rcases others d shown with ⟨own, member⟩ | none
    · rw [(made _ member).2] at fails
      cases fails
    · rw [none] at fails
      cases fails
  | some cuts =>
    have single : cuts.Nodup := by
      apply nodup_cuts attached marked unwrapped ?_ ?_ (.here root) found
      · intro d own shown seam
        rcases entry shown seam with member | rfl
        · exact within _ member
        · exact List.nodup_nil
      · intro d e ours theirs showsD showsE seamD seamE cut left right
        rcases entry showsD seamD with memberD | rfl
        · rcases entry showsE seamE with memberE | rfl
          · rcases eq_or_of_pairwise across memberD memberE with same | apart | apart
            · exact congrArg Prod.fst same
            · exact absurd rfl (apart cut left cut right)
            · exact absurd rfl (apart cut right cut left)
          · cases right
        · cases left
    refine ⟨cuts, rfl, (List.perm_ext_iff_of_nodup single once).mpr fun cut => ?_⟩
    rw [mem_cuts_iff attached marked unwrapped found, List.mem_flatMap]
    constructor
    · rintro ⟨d, shown, -, own, seam, member⟩
      rcases entry shown seam with listed | rfl
      · exact ⟨(d, own), listed, member⟩
      · cases member
    · rintro ⟨⟨d, own⟩, listed, member⟩
      obtain ⟨shown, seam⟩ := made _ listed
      exact ⟨d, shown, dirty_of_seams marked spaced seam member, own, seam, member⟩

theorem cuts_eq_of_perm (spaced : t.Spaced) (characters : t.OnCharacters) {id : Nat}
    {cuts row : List Cut} (found : t.cuts? id = some cuts) (same : cuts.Perm row)
    (ordered : row.Pairwise Cut.Before) : cuts = row := by
  have sorted := List.pairwise_map.mp ((render_eq spaced characters id).1 cuts found).pairwise
  refine same.eq_of_pairwise ?_ sorted (ordered.imp fun before => before.1)
  intro c d memberC memberD left right
  rcases eq_or_of_pairwise ordered (same.mem_iff.mp memberC) memberD with equal | before | before
  · exact equal
  · have := before.2
    omega
  · have := before.2
    omega

section Run

variable {edits : List Edit} (attached : t.Attached) (untouched : t.Untouched) (run : t.Run edits u)

include untouched run

theorem Run.isKept_iff {id : Nat} (inside : id < t.size) :
    u.isKept id = true ↔ id ∉ edits.flatMap Edit.strikes := by
  obtain ⟨stays, -, -, parsed⟩ := untouched id
  unfold isKept Node.isInserted
  rw [run.follows.node id inside]
  simp only [parsed, stays, Bool.not_false, Bool.true_and, Bool.false_or, Bool.not_eq_true',
    List.contains_eq_mem, decide_eq_false_iff_not]

theorem Run.unwrapped (id : Nat) : (u.node id).parenthesized = false := by
  by_cases old : id < t.size
  · rw [run.follows.node id old]
    exact (untouched id).2.2.1
  · by_cases inside : id < u.size
    · exact (run.follows.fresh id (by omega) inside).2
    · rw [node_of_size_le (by omega)]
      rfl

omit untouched in
theorem Run.lt_of_shows {first last : Nat} (shows : u.Shows first last) (inside : first < t.size) :
    last < t.size := by
  induction shows with
  | here => exact inside
  | @child _ c _ member kept _ ih =>
    apply ih
    apply Classical.byContradiction
    intro new
    have inserted := (run.follows.fresh c (by omega) (lt_of_mem_node_children member).2).1
    unfold isKept at kept
    rw [inserted] at kept
    cases kept

include attached in
theorem Run.shows_of_spared {id : Nat} (inside : id < t.size)
    (spared : t.Spared (edits.flatMap Edit.strikes) id) : u.Shows root id := by
  induction id using Nat.strongRecOn with
  | ind id ih =>
    by_cases top : id = root
    · rw [top]
      exact .here root
    · obtain ⟨p, below, above⟩ := attached.parent_inside id inside top
      obtain ⟨stays, rest⟩ := (spared_of_parent above).mp spared
      apply (ih p (parent_lt above) below rest).snoc
      · apply run.attached.mem_of_parent (Nat.lt_of_lt_of_le inside run.follows.size)
        rw [run.follows.parent inside]
        exact above
      · exact (run.isKept_iff untouched inside).mpr stays

theorem Run.bare_old (parent : Node) {c : Nat} (inside : c < t.size) :
    (partOf parent (u.node c) []).bare = t.removalPart (edits.flatMap Edit.strikes) c := by
  obtain ⟨stays, -, -, parsed⟩ := untouched c
  rw [run.follows.node c inside]
  unfold partOf removalPart
  simp only [parsed, stays, Bool.false_or, List.contains_eq_mem, decide_eq_true_eq]
  split <;> rfl

theorem Run.bareParts_still {id : Nat} (inside : id < t.size)
    (away : ∀ edit ∈ edits, t.host? edit ≠ some id) :
    u.bareParts id = (t.node id).children.map (t.removalPart (edits.flatMap Edit.strikes)) := by
  unfold Tree.bareParts
  rw [run.still id inside away]
  apply List.map_congr_left
  intro c member
  exact run.bare_old untouched _ (lt_of_mem_node_children member).2

omit untouched run in
theorem bare_inserted {parent : Node} {n offset : Nat} {insertion : Insertion}
    (origin : (u.node n).origin = .inserted insertion) (span : (u.node n).span = ⟨offset, offset⟩) :
    (partOf parent (u.node n) []).bare = insertion.part offset := by
  unfold partOf
  rw [origin, span]
  cases insertion <;> rfl

end Run

theorem map_removalPart_kept {gone ids : List Nat} (away : ∀ c ∈ ids, c ∉ gone) :
    ids.map (t.removalPart gone) = keeps (ids.map t.span) := by
  unfold keeps
  rw [List.map_map]
  apply List.map_congr_left
  intro c member
  unfold removalPart
  rw [if_neg (away c member)]
  rfl

/-- A node loses one of its children. -/
structure Loses (t : Tree) (gone : List Nat) (p c : Nat) (before after : List Nat) : Prop where
  split : (t.node p).children = before ++ c :: after
  removed : c ∈ gone
  ahead : ∀ b ∈ before, b ∉ gone
  behind : ∀ d ∈ after, d ∉ gone

theorem Loses.parts {gone before after : List Nat} {p c : Nat} (loses : t.Loses gone p c before after) :
    (t.node p).children.map (t.removalPart gone) =
      keeps (before.map t.span) ++ .removed (t.span c) :: keeps (after.map t.span) := by
  rw [loses.split, List.map_append, List.map_cons, map_removalPart_kept loses.ahead,
    map_removalPart_kept loses.behind, removalPart, if_pos loses.removed]

theorem Loses.row {gone before after : List Nat} {p c : Nat} (loses : t.Loses gone p c before after)
    (spaced : t.Spaced) :
    InRow (t.span p).start (t.span c).start (before.map t.span) ∧
      (t.span c).start ≤ (t.span c).stop ∧ (t.span c).stop ≤ (t.span p).stop := by
  have row := spaced p
  rw [loses.split, List.map_append, List.map_cons] at row
  obtain ⟨middle, left, place, proper, later⟩ := InRow.append_iff.mp row
  exact ⟨left.widen (Nat.le_refl _) place, proper, later.le⟩

/-- A node that is not empty and does not start with a blank. -/
def Starts (t : Tree) (id : Nat) : Prop :=
  (t.span id).start < (t.span id).stop ∧
    (Text.charAt? t.source (t.span id).start).any Text.isSpacing = false

instance (t : Tree) (id : Nat) : Decidable (t.Starts id) :=
  inferInstanceAs (Decidable (_ ∧ _))

theorem inRow_skipped (spaced : t.Spaced) (characters : t.OnCharacters) {p c : Nat}
    {before after : List Nat} (split : (t.node p).children = before ++ c :: after)
    (starts : ∀ d ∈ after.head?, t.Starts d) :
    InRow (Text.skipBlankBytes t.source (t.span c).stop (t.span p).stop) (t.span p).stop
      (after.map t.span) := by
  have row := spaced p
  rw [split, List.map_append, List.map_cons] at row
  obtain ⟨-, -, -, -, later⟩ := InRow.append_iff.mp row
  cases after with
  | nil => exact Text.skipBlankBytes_le (characters c).2 later
  | cons d rest =>
    obtain ⟨behind, proper, further⟩ := later
    obtain ⟨filled, solid⟩ := starts d rfl
    refine ⟨?_, proper, further⟩
    have first : ∀ c, Text.charAt? t.source (t.span d).start = some c → Text.isSpacing c = false := by
      intro c found
      rw [found] at solid
      exact solid
    apply Text.skipBlankBytes_le_of_charAt (characters c).2 _ (characters d).1 behind _ first
    · exact Nat.le_trans behind (Nat.le_trans proper further.le)
    · exact Nat.lt_of_lt_of_le filled (characters d).2.le

/-- A batch prints as the source with the cuts that it comes to. -/
theorem Run.print_eq {edits : List Edit} (attached : t.Attached) (untouched : t.Untouched)
    (spaced : t.Spaced) (characters : t.OnCharacters) (run : t.Run edits u) :
    u.print = (u.cuts? root).map fun cuts =>
      Glyph.text (Text.spliced u.source 0 u.source.utf8ByteSize cuts) := by
  apply Tree.print_eq (run.spaced spaced) (run.follows.characters characters)
  unfold Node.isInserted
  rw [run.follows.node root attached.nonempty]
  simp only [(untouched root).2.2.2]

section Seams

variable {edits : List Edit} (untouched : t.Untouched) (run : t.Run edits u)

include untouched run

omit untouched in
theorem Run.seams?_eq {id : Nat} (inside : id < t.size) :
    u.seams? id = Trace.run t.source (t.span id) (u.bareParts id) := by
  unfold seams?
  rw [run.follows.source, run.follows.span inside]

theorem Run.seams_still (spaced : t.Spaced) {id : Nat} (inside : id < t.size)
    (away : ∀ edit ∈ edits, t.host? edit ≠ some id)
    (stay : ∀ c ∈ (t.node id).children, c ∉ edits.flatMap Edit.strikes) :
    u.seams? id = some [] := by
  rw [run.seams?_eq inside, run.bareParts_still untouched inside away, map_removalPart_kept stay]
  exact Trace.run_keeps _ (spaced id)

theorem Run.seams_removed (spaced : t.Spaced) {p c : Nat} {before after : List Nat} (inside : p < t.size)
    (away : ∀ edit ∈ edits, t.host? edit ≠ some p)
    (loses : t.Loses (edits.flatMap Edit.strikes) p c before after)
    (free : InRow (Text.skipBlankBytes t.source (t.span c).stop (t.span p).stop) (t.span p).stop
      (after.map t.span)) (others : before ≠ [] ∨ after ≠ []) :
    u.seams? p = some (strokes t.source (t.span p) (t.span c) (before.map t.span)
      (after.map t.span) none) := by
  obtain ⟨ahead, proper, within⟩ := loses.row spaced
  have made := Trace.run_removed t.source ahead proper within free none 0
    (others.imp (mt List.map_eq_nil_iff.mp) (mt List.map_eq_nil_iff.mp))
  rw [Option.toList_none, List.map_nil, List.append_nil] at made
  rw [run.seams?_eq inside, run.bareParts_still untouched inside away, loses.parts]
  exact made

variable (attached : t.Attached) (targets : ∀ edit ∈ edits, t.Targets edit)
  (plain : ∀ edit ∈ edits, ∀ id, edit ≠ .parenthesize id) (apart : edits.Pairwise t.Apart)

include attached targets plain apart

theorem Run.bareParts_added {edit : Edit} (member : edit ∈ edits) {p offset : Nat}
    {before after : List Nat} {insertion : Insertion}
    (adds : t.Adds edit p before after offset insertion) :
    u.bareParts p = before.map (t.removalPart (edits.flatMap Edit.strikes)) ++
      insertion.part offset :: after.map (t.removalPart (edits.flatMap Edit.strikes)) := by
  obtain ⟨front, back, listed⟩ := List.append_of_mem member
  obtain ⟨n, -, children, origin, span⟩ : ∃ n, t.size ≤ n ∧ (u.node p).children = before ++ n :: after ∧
      (u.node n).origin = .inserted insertion ∧ (u.node n).span = ⟨offset, offset⟩ := by
    subst listed
    obtain ⟨-, rest, across⟩ := List.pairwise_append.mp apart
    obtain ⟨later, -⟩ := List.pairwise_cons.mp rest
    apply run.added attached untouched.marked targets plain adds
    · intro other early host
      exact (across other early edit List.mem_cons_self).hosts p host adds.host
    · intro other late
      exact (later other late).hosts p adds.host
  have old {ids : List Nat} (among : ∀ c ∈ ids, c ∈ (t.node p).children) :
      (ids.map fun c => (partOf (u.node p) (u.node c) []).bare) =
        ids.map (t.removalPart (edits.flatMap Edit.strikes)) := by
    apply List.map_congr_left
    intro c here
    exact run.bare_old untouched _ (lt_of_mem_node_children (among c here)).2
  unfold Tree.bareParts
  rw [children, List.map_append, List.map_cons, bare_inserted origin span, old, old]
  · intro c late
    rw [adds.split]
    exact List.mem_append_right _ late
  · intro c early
    rw [adds.split]
    exact List.mem_append_left _ early

theorem Run.seams_text (spaced : t.Spaced) {edit : Edit} (member : edit ∈ edits) {p offset : Nat}
    {before after : List Nat} {content : String}
    (adds : t.Adds edit p before after offset (.text content))
    (stay : ∀ c ∈ (t.node p).children, c ∉ edits.flatMap Edit.strikes) :
    u.seams? p = some (Cut.settled { start := offset, stop := offset, text := content }) := by
  have row := spaced p
  rw [adds.split] at row stay
  obtain ⟨ahead, behind⟩ := adds.placed.inRow row
  rw [run.seams?_eq (adds.inside (targets edit member)),
    run.bareParts_added untouched attached targets plain apart member adds,
    map_removalPart_kept fun c early => stay c (List.mem_append_left _ early),
    map_removalPart_kept fun c late => stay c (List.mem_append_right _ late)]
  exact Trace.run_text _ content ahead behind

theorem Run.seams_removed_append (spaced : t.Spaced) {p c : Nat} {before after : List Nat}
    {word : String} (member : .append p (.keyword word) ∈ edits)
    (loses : t.Loses (edits.flatMap Edit.strikes) p c before after)
    (free : InRow (Text.skipBlankBytes t.source (t.span c).stop (t.span p).stop) (t.span p).stop
      (after.map t.span)) (others : before ≠ [] ∨ after ≠ []) :
    u.seams? p = some (strokes t.source (t.span p) (t.span c) (before.map t.span)
      (after.map t.span) (some word)) := by
  obtain ⟨ahead, proper, within⟩ := loses.row spaced
  have adds : t.Adds (.append p (.keyword word)) p (t.node p).children [] (t.span p).stop
    (.keyword word) := .append p (.keyword word)
  have made := Trace.run_removed t.source ahead proper within free (some word) (t.span p).stop
    (others.imp (mt List.map_eq_nil_iff.mp) (mt List.map_eq_nil_iff.mp))
  rw [run.seams?_eq (adds.inside (targets _ member)),
    run.bareParts_added untouched attached targets plain apart member adds, loses.parts,
    List.append_assoc]
  exact made

theorem Run.seams_removed_prepend (spaced : t.Spaced) {p c : Nat} {before after : List Nat}
    {word : String} (member : .prepend p (.keyword word) ∈ edits)
    (loses : t.Loses (edits.flatMap Edit.strikes) p c before after)
    (free : InRow (Text.skipBlankBytes t.source (t.span c).stop (t.span p).stop) (t.span p).stop
      (after.map t.span)) (filled : after ≠ []) :
    u.seams? p = some ({ start := (t.span p).start, stop := (t.span p).start, text := word ++ " " } ::
      Cut.settled { start := (t.span c).start,
                    stop := Text.skipBlankBytes t.source (t.span c).stop (t.span p).stop }) := by
  obtain ⟨ahead, proper, within⟩ := loses.row spaced
  have adds : t.Adds (.prepend p (.keyword word)) p [] (t.node p).children (t.span p).start
    (.keyword word) := .prepend p (.keyword word)
  have made := Trace.run_keyword_removed t.source ahead proper within free word (t.span p).start
    (mt List.map_eq_nil_iff.mp filled)
  rw [run.seams?_eq (adds.inside (targets _ member)),
    run.bareParts_added untouched attached targets plain apart member adds, loses.parts]
  exact made

end Seams

end Tree

end SpringLint
