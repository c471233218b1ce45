import SpringLint.Proofs.Syntax.Batch
import SpringLint.Proofs.Syntax.Dropped
import SpringLint.Proofs.Syntax.Nesting
import SpringLint.Proofs.Syntax.Seams

/-! What printing keeps when nodes are only removed. -/

namespace SpringLint

theorem map_filter_eq_iff {α β : Type} {f : α → β} {p q : α → Bool} {items : List α}
    (within : ∀ x ∈ items, p x = true → q x = true) :
    (items.filter p).map f = (items.filter q).map f ↔ ∀ x ∈ items, q x = true → p x = true := by
  constructor
  · intro same
    have lengths := congrArg List.length same
    rw [List.length_map, List.length_map] at lengths
    have sub : (items.filter p).Sublist (items.filter q) := by
      have both : (items.filter q).filter p = items.filter p := by
        rw [List.filter_filter]
        apply List.filter_congr
        intro x member
        cases chosen : p x with
        | false => rfl
        | true => rw [within x member chosen]; rfl
      rw [← both]
      exact List.filter_sublist
    have equal := sub.eq_of_length lengths
    intro x member chosen
    have among : x ∈ items.filter q := List.mem_filter.mpr ⟨member, chosen⟩
    rw [← equal] at among
    exact (List.mem_filter.mp among).2
  · intro back
    congr 1
    apply List.filter_congr
    intro x member
    rw [Bool.eq_iff_iff]
    exact ⟨within x member, back x member⟩

namespace Tree

variable {t u : Tree}

/-- The tree with some more nodes removed, up to marks. -/
structure Struck (t u : Tree) (gone : List Nat) : Prop where
  source : u.source = t.source
  size : u.size = t.size
  node : ∀ id, u.node id =
    { t.node id with
      removed := (t.node id).removed || gone.contains id
      dirty := (u.node id).dirty }

theorem performAll_remove (attached : t.Attached) (marked : t.Marked) {gone : List Nat}
    (targets : ∀ id ∈ gone, t.Targets (.remove id)) :
    ∃ u, t.performAll (gone.map .remove) = (u, .ok ()) ∧ t.Struck u gone ∧ u.Attached ∧ u.Marked := by
  induction gone generalizing t with
  | nil => exact ⟨t, rfl, ⟨rfl, rfl, fun id => by simp⟩, attached, marked⟩
  | cons id rest ih =>
    have inside : id < t.size := (targets id List.mem_cons_self).1
    have deep : id ≠ root := (targets id List.mem_cons_self).2 rfl
    obtain ⟨p, -, above⟩ := attached.parent_inside id inside deep
    have size : (t.strike id).size = t.size := size_modify ..
    have lower := parent_lt above
    have performed := perform_remove above
    have missing := marked.strike attached inside above
    obtain ⟨same, -, -⟩ := markDirty_spec (t.strike id) p (by rw [size]; exact Nat.lt_trans lower inside)
      missing.up
    obtain ⟨hung, right, -, -, -⟩ := (Change.remove id p inside above).preserves attached marked
    have later : ∀ other ∈ rest, ((t.strike id).markDirty p).Targets (.remove other) := by
      intro other member
      apply (targets other (List.mem_cons_of_mem _ member)).mono
      exact Nat.le_of_eq (same.size.trans size).symm
    obtain ⟨u, done, struck, facts⟩ := ih hung right later
    refine ⟨u, ?_, ⟨?_, ?_, ?_⟩, facts⟩
    · rw [List.map_cons, performAll, performed]
      exact done
    · rw [struck.source, same.source]
      rfl
    · rw [struck.size, same.size, size]
    · intro other
      have final := struck.node other
      rw [same.node other, node_strike t inside] at final
      refine final.trans ?_
      simp only [List.contains_cons, Bool.or_assoc]

section Struck

variable {gone : List Nat} (untouched : t.Untouched) (struck : t.Struck u gone)

include untouched struck

theorem Struck.isKept_iff {id : Nat} : u.isKept id = true ↔ id ∉ gone := by
  obtain ⟨stays, -, -, parsed⟩ := untouched id
  unfold isKept Node.isInserted
  rw [struck.node id]
  simp only [parsed, stays, Bool.not_false, Bool.true_and, Bool.false_or, Bool.not_eq_true',
    List.contains_eq_mem, decide_eq_false_iff_not]

theorem Struck.shows_iff (attached : t.Attached) (deep : root ∉ gone) {id : Nat} :
    u.Shows root id ↔ id < t.size ∧ t.Spared gone id := by
  have children (p : Nat) : (u.node p).children = (t.node p).children := by rw [struck.node p]
  constructor
  · have along {first last : Nat} (shows : u.Shows first last) :
        first < t.size ∧ t.Spared gone first → last < t.size ∧ t.Spared gone last := by
      induction shows with
      | here => exact fun before => before
      | child member kept _ ih =>
        intro before
        rw [children] at member
        have above := attached.parent_of_mem member
        apply ih
        refine ⟨(lt_of_mem_node_children member).2, (spared_of_parent above).mpr ⟨?_, before.2⟩⟩
        exact (struck.isKept_iff untouched).mp kept
    intro shows
    refine along shows ⟨attached.nonempty, ?_⟩
    intro a member
    rw [ancestors_of_root attached.root_parent, List.mem_singleton] at member
    rw [member]
    exact deep
  · rintro ⟨inside, spared⟩
    induction id using Nat.strongRecOn with
    | ind id ih =>
      by_cases top : id = root
      · rw [top]
        exact .here root
      · obtain ⟨p, below, above⟩ := attached.parent_inside id inside top
        obtain ⟨stays, rest⟩ := (spared_of_parent above).mp spared
        apply (ih p (parent_lt above) below rest).snoc
        · rw [children]
          exact attached.mem_of_parent inside above
        · exact (struck.isKept_iff untouched).mpr stays

end Struck

def removalPart (t : Tree) (gone : List Nat) (c : Nat) : Part :=
  if c ∈ gone then .removed (t.span c) else .kept (t.span c) []

/-- Where the text ahead of the next child starts. -/
def gapStart (t : Tree) (id : Nat) (before : List Nat) : Nat :=
  match before.getLast? with
  | some b => (t.span b).stop
  | none => (t.span id).start

/-- Whether the text ahead of a removed child goes with it: no kept child stands right before it, or
nothing but removed children and blanks come after it. -/
def LosesAhead (t : Tree) (gone : List Nat) (id : Nat) (before : List Nat) (c : Nat)
    (after : List Nat) : Prop :=
  (∀ b ∈ before.getLast?, b ∈ gone) ∨
    (∀ d ∈ after, d ∈ gone) ∧
      (t.span id).stop ≤
        Text.skipBlankBytes t.source (t.gapStart id (c :: after)) (t.span id).stop

section Parts

variable {gone : List Nat}

theorem span_removalPart (c : Nat) : (t.removalPart gone c).span = t.span c := by
  unfold removalPart
  split <;> rfl

theorem isRemoved_removalPart (c : Nat) :
    (t.removalPart gone c).isRemoved = true ↔ c ∈ gone := by
  unfold removalPart
  split
  · rename_i removed
    exact ⟨fun _ => removed, fun _ => rfl⟩
  · rename_i kept
    constructor
    · intro impossible
      cases impossible
    · intro removed
      exact absurd removed kept

theorem removalPart_eq_removed {c : Nat} {span : Span}
    (same : t.removalPart gone c = .removed span) : c ∈ gone ∧ t.span c = span := by
  have removed : c ∈ gone := by
    rw [← isRemoved_removalPart (t := t), same]
    rfl
  rw [removalPart, if_pos removed] at same
  exact ⟨removed, Part.removed.inj same⟩

theorem endOf_map (id : Nat) (before : List Nat) :
    Part.endOf (t.span id).start (before.map (t.removalPart gone)) = t.gapStart id before := by
  unfold Part.endOf gapStart
  rw [List.getLast?_map]
  cases before.getLast? with
  | none => rfl
  | some b => exact congrArg Span.stop (span_removalPart b)

theorem endsKept_map (before : List Nat) :
    Part.endsKept (before.map (t.removalPart gone)) = false ↔ ∀ b ∈ before.getLast?, b ∈ gone := by
  unfold Part.endsKept
  rw [List.getLast?_map]
  cases before.getLast? with
  | none => simp
  | some b => simp [isRemoved_removalPart]

theorem overtaken_map {source : String} {stop : Nat} {children : List Nat} :
    Part.Overtaken source stop (children.map (t.removalPart gone)) ↔
      ∃ before b c after, children = before ++ b :: c :: after ∧ b ∈ gone ∧ c ∉ gone ∧
        (t.span c).start < Text.skipBlankBytes source (t.span b).stop stop := by
  constructor
  · rintro ⟨front, removed, kept, cuts, back, split, reach⟩
    obtain ⟨before, tail, rfl, -, second⟩ := List.map_eq_append_iff.mp split
    obtain ⟨b, rest, rfl, first, later⟩ := List.map_eq_cons_iff.mp second
    obtain ⟨c, after, rfl, next, -⟩ := List.map_eq_cons_iff.mp later
    obtain ⟨removal, rfl⟩ := removalPart_eq_removed first
    have stays : c ∉ gone := by
      intro removed
      rw [removalPart, if_pos removed] at next
      cases next
    rw [removalPart, if_neg stays] at next
    obtain ⟨rfl, -⟩ := Part.kept.inj next
    exact ⟨before, b, c, after, rfl, removal, stays, reach⟩
  · rintro ⟨before, b, c, after, rfl, removal, stays, reach⟩
    refine ⟨before.map (t.removalPart gone), t.span b, t.span c, [],
      after.map (t.removalPart gone), ?_, reach⟩
    rw [List.map_append, List.map_cons, List.map_cons, removalPart, if_pos removal, removalPart,
      if_neg stays]

theorem dropped_map {id x : Nat} {children : List Nat} :
    Part.Dropped t.source (t.span id).start (t.span id).stop
        (children.map (t.removalPart gone)) x ↔
      ∃ before c after, children = before ++ c :: after ∧ c ∈ gone ∧
        (t.Holds c x ∨ t.LosesAhead gone id before c after ∧
          t.gapStart id before ≤ x ∧ x < (t.span c).start) := by
  have loses (before after : List Nat) (c : Nat) (removal : c ∈ gone) :
      (Part.endsKept (before.map (t.removalPart gone)) = false ∨
        (∀ part ∈ after.map (t.removalPart gone), part.isRemoved = true) ∧
          (t.span id).stop ≤ Text.skipBlankBytes t.source
            (Part.endOf (t.span id).start
              (.removed (t.span c) :: after.map (t.removalPart gone))) (t.span id).stop) ↔
        t.LosesAhead gone id before c after := by
    have whole : Part.removed (t.span c) :: after.map (t.removalPart gone) =
        (c :: after).map (t.removalPart gone) := by
      rw [List.map_cons, removalPart, if_pos removal]
    rw [whole, endOf_map, endsKept_map, List.forall_mem_map]
    simp only [isRemoved_removalPart]
    rfl
  constructor
  · rintro ⟨front, span, back, split, here⟩
    obtain ⟨before, tail, rfl, rfl, second⟩ := List.map_eq_append_iff.mp split
    obtain ⟨c, after, rfl, first, rfl⟩ := List.map_eq_cons_iff.mp second
    obtain ⟨removal, rfl⟩ := removalPart_eq_removed first
    rw [loses before after c removal, endOf_map] at here
    exact ⟨before, c, after, rfl, removal, here⟩
  · rintro ⟨before, c, after, rfl, removal, here⟩
    refine ⟨before.map (t.removalPart gone), t.span c, after.map (t.removalPart gone), ?_, ?_⟩
    · rw [List.map_append, List.map_cons, removalPart, if_pos removal]
    · rw [loses before after c removal, endOf_map]
      exact here

end Parts

/-- The blanks that go with a removed child reach into a kept child right behind it. -/
def Overtakes (t : Tree) (gone : List Nat) (id : Nat) : Prop :=
  ∃ before b c after, (t.node id).children = before ++ b :: c :: after ∧ b ∈ gone ∧ c ∉ gone ∧
    (t.span c).start < Text.skipBlankBytes t.source (t.span b).stop (t.span id).stop

/-- An offset goes with a removed child of a node: it lies in the child, or in text ahead of the
child that goes with it. -/
def Drops (t : Tree) (gone : List Nat) (id x : Nat) : Prop :=
  ∃ before c after, (t.node id).children = before ++ c :: after ∧ c ∈ gone ∧
    (t.Holds c x ∨ t.LosesAhead gone id before c after ∧
      t.gapStart id before ≤ x ∧ x < (t.span c).start)

/-- Whether a character that is not blank stands at an offset. -/
def Solid (t : Tree) (x : Nat) : Prop :=
  ∃ c, (x, c) ∈ Text.placed 0 t.source.toList ∧ Text.isBlank c = false

section Struck

variable {gone : List Nat} (attached : t.Attached) (untouched : t.Untouched) (spaced : t.Spaced)
  (characters : t.OnCharacters) (struck : t.Struck u gone)

include untouched struck in
theorem Struck.bareParts (id : Nat) :
    u.bareParts id = (t.node id).children.map (t.removalPart gone) := by
  unfold Tree.bareParts
  rw [struck.node id]
  apply List.map_congr_left
  intro c _
  obtain ⟨stays, -, -, parsed⟩ := untouched c
  rw [struck.node c]
  unfold partOf removalPart
  simp only [parsed, stays, Bool.false_or, List.contains_eq_mem, decide_eq_true_eq]
  split <;> rfl

include spaced characters in
theorem not_skipped_of_solid {id c x : Nat} (member : c ∈ (t.node id).children) (solid : t.Solid x) :
    ¬((t.span c).stop ≤ x ∧ x < Text.skipBlankBytes t.source (t.span c).stop (t.span id).stop) := by
  intro skipped
  have ⟨char, placed, hard⟩ := solid
  have within := ((spaced id).contains (List.mem_map_of_mem member)).2.2
  have blank := Text.isBlank_of_skipped (characters c).2 within
    (Text.mem_range_iff.mpr ⟨placed, skipped⟩)
  rw [hard] at blank
  cases blank

include untouched spaced characters struck in
theorem Struck.seams (id : Nat) :
    match u.seams? id with
    | none => t.Overtakes gone id
    | some cuts => ¬t.Overtakes gone id ∧ (∀ cut ∈ cuts, cut.text = "") ∧
      ∀ x, t.Solid x → (Cut.Covered cuts x ↔ t.Drops gone id x) := by
  have span : u.span id = t.span id := by
    unfold Tree.span
    rw [struck.node id]
  have plain : ∀ part ∈ (t.node id).children.map (t.removalPart gone), part.Plain := by
    intro part member
    obtain ⟨c, -, rfl⟩ := List.mem_map.mp member
    unfold removalPart
    split
    · trivial
    · rfl
  have boundaries : ∀ part ∈ (t.node id).children.map (t.removalPart gone),
      Text.Boundary t.source part.span.stop := by
    intro part member
    obtain ⟨c, -, rfl⟩ := List.mem_map.mp member
    rw [span_removalPart]
    exact (characters c).2
  have clear : ∀ part ∈ (t.node id).children.map (t.removalPart gone), ∀ x, t.Solid x →
      ¬(part.span.stop ≤ x ∧
        x < Text.skipBlankBytes t.source part.span.stop (t.span id).stop) := by
    intro part member x solid
    obtain ⟨c, among, rfl⟩ := List.mem_map.mp member
    rw [span_removalPart]
    exact not_skipped_of_solid spaced characters among solid
  have places : InRow (t.span id).start (t.span id).stop
      (((t.node id).children.map (t.removalPart gone)).map Part.span) := by
    rw [List.map_map]
    have same : Part.span ∘ t.removalPart gone = t.span := funext fun c => span_removalPart c
    rw [same]
    exact spaced id
  have run := Trace.run_plain plain boundaries clear places
  unfold seams?
  rw [span, struck.source, struck.bareParts untouched id]
  cases made : Trace.run t.source (t.span id) ((t.node id).children.map (t.removalPart gone)) with
  | none =>
    rw [made] at run
    exact overtaken_map.mp run
  | some cuts =>
    rw [made] at run
    obtain ⟨free, texts, covers⟩ := run
    exact ⟨fun overtakes => free (overtaken_map.mpr overtakes), texts,
      fun x solid => (covers x solid).trans dropped_map⟩

include struck in
theorem Struck.dirty (marked : u.Marked) {id c : Nat} (member : c ∈ (t.node id).children)
    (removal : c ∈ gone) : (u.node id).dirty = true := by
  apply marked.child id c
  · rw [struck.node id]
    exact member
  · left
    rw [struck.node c]
    simp [removal]

include attached untouched spaced characters struck in
theorem Struck.cuts_eq_none_iff (hung : u.Attached) (marked : u.Marked) (deep : root ∉ gone) :
    u.cuts? root = none ↔ ∃ id, id < t.size ∧ t.Spared gone id ∧ t.Overtakes gone id := by
  rw [cuts?_eq_none_iff hung marked root]
  constructor
  · rintro ⟨id, shown, -, none⟩
    have here := struck.seams untouched spaced characters id
    rw [none] at here
    obtain ⟨inside, spared⟩ := (struck.shows_iff untouched attached deep).mp shown
    exact ⟨id, inside, spared, here⟩
  · rintro ⟨id, inside, spared, overtakes⟩
    have here := struck.seams untouched spaced characters id
    have ⟨before, b, c, after, split, removal, _⟩ := overtakes
    have marks : (u.node id).dirty = true := struck.dirty marked (by rw [split]; simp) removal
    refine ⟨id, (struck.shows_iff untouched attached deep).mpr ⟨inside, spared⟩, marks, ?_⟩
    cases made : u.seams? id with
    | none => rfl
    | some cuts =>
      rw [made] at here
      exact absurd overtakes here.1

include attached untouched spaced characters struck in
/-- What the removals do to the whole text: they write nothing, and what they cut out is what printed
nodes drop. -/
theorem Struck.cuts (hung : u.Attached) (marked : u.Marked) (deep : root ∉ gone) {cuts : List Cut}
    (found : u.cuts? root = some cuts) :
    (∀ cut ∈ cuts, cut.text = "") ∧ ∀ x, t.Solid x → (Cut.Covered cuts x ↔
      ∃ id, id < t.size ∧ t.Spared gone id ∧ t.Drops gone id x) := by
  have unwrapped (id : Nat) : (u.node id).parenthesized = false := by
    rw [struck.node id]
    exact (untouched id).2.2.1
  have shows (id : Nat) : u.Shows root id ↔ _ := struck.shows_iff untouched attached deep
  have seams (id : Nat) := struck.seams untouched spaced characters id
  have members := mem_cuts_iff hung marked unwrapped found
  refine ⟨fun cut member => ?_, fun x solid => ⟨?_, ?_⟩⟩
  · obtain ⟨id, -, -, own, made, among⟩ := (members cut).mp member
    have here := seams id
    rw [made] at here
    exact here.2.1 cut among
  · rintro ⟨cut, member, covers⟩
    obtain ⟨id, shown, -, own, made, among⟩ := (members cut).mp member
    have here := seams id
    rw [made] at here
    obtain ⟨inside, spared⟩ := (shows id).mp shown
    exact ⟨id, inside, spared, (here.2.2 x solid).mp ⟨cut, among, covers⟩⟩
  · rintro ⟨id, inside, spared, drops⟩
    have here := seams id
    have shown := (shows id).mpr ⟨inside, spared⟩
    have ⟨before, c, after, split, removal, _⟩ := drops
    have marks : (u.node id).dirty = true := struck.dirty marked (by rw [split]; simp) removal
    cases made : u.seams? id with
    | none =>
      have broken := (cuts?_eq_none_iff hung marked root).mpr ⟨id, shown, marks, made⟩
      rw [found] at broken
      cases broken
    | some own =>
      rw [made] at here
      obtain ⟨cut, among, covers⟩ := (here.2.2 x solid).mpr drops
      exact ⟨cut, (members cut).mpr ⟨id, shown, marks, own, made, among⟩, covers⟩

end Struck

/-- The source without what lies in some nodes. -/
def without (t : Tree) (gone : List Nat) : String :=
  String.ofList (((Text.placed 0 t.source.toList).filter fun x =>
    !gone.any fun id => (t.span id).start ≤ x.1 && x.1 < (t.span id).stop).map Prod.snd)

theorem any_holds_iff {gone : List Nat} {x : Nat} :
    (gone.any fun id => (t.span id).start ≤ x && x < (t.span id).stop) = true ↔
      ∃ id ∈ gone, t.Holds id x := by
  rw [List.any_eq_true]
  simp only [Bool.and_eq_true, decide_eq_true_eq]
  rfl

theorem exists_drops (attached : t.Attached) (spaced : t.Spaced) {gone : List Nat}
    (deep : root ∉ gone) {id x : Nat} (inside : id < t.size) (removal : id ∈ gone)
    (holds : t.Holds id x) : ∃ p, p < t.size ∧ t.Spared gone p ∧ t.Drops gone p x := by
  induction id using Nat.strongRecOn with
  | ind id ih =>
    have lower : id ≠ root := by
      rintro rfl
      exact deep removal
    obtain ⟨p, below, above⟩ := attached.parent_inside id inside lower
    have member := attached.mem_of_parent inside above
    by_cases spared : t.Spared gone p
    · obtain ⟨before, after, split⟩ := List.append_of_mem member
      exact ⟨p, below, spared, before, id, after, split, removal, .inl holds⟩
    · unfold Spared at spared
      simp only [Classical.not_forall, Classical.not_not] at spared
      obtain ⟨a, path, higher⟩ := spared
      have shorter := le_of_mem_ancestors path
      have climbed := parent_lt above
      exact ih a (by omega) (by omega) higher
        (spaced.holds_ancestor attached below (spaced.holds_parent member holds) path)

theorem holds_gap (spaced : t.Spaced) {id c x : Nat} {before after : List Nat}
    (split : (t.node id).children = before ++ c :: after) (lower : t.gapStart id before ≤ x)
    (upper : x < (t.span c).start) : t.Holds id x := by
  have member {d : Nat} (among : d ∈ before ++ c :: after) :=
    (spaced id).contains (List.mem_map_of_mem (split ▸ among))
  have last := member (List.mem_append_right before List.mem_cons_self)
  have start : (t.span id).start ≤ t.gapStart id before := by
    unfold gapStart
    cases found : before.getLast? with
    | none => exact Nat.le_refl _
    | some b =>
      have first := member (List.mem_append_left (c :: after) (List.mem_of_getLast? found))
      exact Nat.le_trans first.1 first.2.1
  exact ⟨by omega, by omega⟩

theorem not_holds_gap (spaced : t.Spaced) {id c x : Nat} {before after : List Nat}
    (split : (t.node id).children = before ++ c :: after) (lower : t.gapStart id before ≤ x)
    (upper : x < (t.span c).start) {d : Nat} (member : d ∈ (t.node id).children) : ¬t.Holds d x := by
  have row := spaced id
  rw [split, List.map_append, List.map_cons] at row
  obtain ⟨middle, left, -, proper, right⟩ := InRow.append_iff.mp row
  rintro ⟨first, last⟩
  rw [split] at member
  rcases List.mem_append.mp member with ahead | behind
  · rcases List.eq_nil_or_concat before with rfl | ⟨init, b, rfl⟩
    · cases ahead
    · rw [List.concat_eq_append] at ahead left lower
      have start : t.gapStart id (init ++ [b]) = (t.span b).stop := by
        unfold gapStart
        rw [List.getLast?_concat]
      rw [List.map_append] at left
      obtain ⟨between, early, place, room, -⟩ := InRow.append_iff.mp left
      rcases List.mem_append.mp ahead with among | final
      · have := (early.contains (List.mem_map_of_mem among)).2.2
        omega
      · rw [List.mem_singleton.mp final] at last
        omega
  · rcases List.mem_cons.mp behind with rfl | later
    · omega
    · have := (right.contains (List.mem_map_of_mem later)).1
      omega

theorem not_holds_removed (attached : t.Attached) (spaced : t.Spaced) {gone : List Nat}
    (within : ∀ r ∈ gone, r < t.size) {id c x : Nat} {before after : List Nat} (inside : id < t.size)
    (spared : t.Spared gone id) (split : (t.node id).children = before ++ c :: after)
    (lower : t.gapStart id before ≤ x) (upper : x < (t.span c).start) {r : Nat}
    (removal : r ∈ gone) : ¬t.Holds r x := by
  intro holds
  have here := holds_gap spaced split lower upper
  rcases spaced.comparable attached (within r removal) inside holds here with up | down
  · exact spared r up removal
  · rcases List.mem_cons.mp down with rfl | further
    · exact spared id List.mem_cons_self removal
    · obtain ⟨d, member, path⟩ := exists_child_above attached (within r removal) further
      exact not_holds_gap spaced split lower upper member
        (spaced.holds_ancestor attached (within r removal) holds path)

theorem compact_ofList_map (items : List (Nat × Char)) :
    Text.compact (String.ofList (items.map Prod.snd)) =
      String.ofList ((items.filter fun x => !Text.isBlank x.2).map Prod.snd) := by
  unfold Text.compact
  rw [String.toList_ofList, List.filter_map]
  rfl

/-- Text that goes ahead of removed children of a node is blank. -/
def LosesBlanks (t : Tree) (gone : List Nat) (id : Nat) : Prop :=
  ∀ before c after, (t.node id).children = before ++ c :: after → c ∈ gone →
    t.LosesAhead gone id before c after →
      ∀ x ∈ Text.range t.source (t.gapStart id before) (t.span c).start, Text.isBlank x.2 = true

section Print

variable {gone : List Nat} (attached : t.Attached) (untouched : t.Untouched) (spaced : t.Spaced)
  (characters : t.OnCharacters) (struck : t.Struck u gone)

include characters struck in
/-- What is printed, character by character. -/
theorem Struck.print_eq (rowed : u.Spaced) (parsed : (u.node root).isInserted = false)
    (texts : ∀ cuts, u.cuts? root = some cuts → ∀ cut ∈ cuts, cut.text = "") :
    u.print = (u.cuts? root).map fun cuts => String.ofList (((Text.placed 0 t.source.toList).filter
      fun x => !decide (Cut.Covered cuts x.1)).map Prod.snd) := by
  have ends : u.OnCharacters := by
    intro id
    unfold Tree.span
    rw [struck.source, struck.node id]
    exact characters id
  rw [Tree.print_eq rowed ends parsed, struck.source]
  cases made : u.cuts? root with
  | none => rfl
  | some cuts =>
    have row := (render_eq rowed ends root).1 cuts made
    have whole : InRow 0 t.source.utf8ByteSize (cuts.map Cut.toSpan) := by
      have upper := (ends root).2.le
      rw [struck.source] at upper
      exact row.widen (Nat.zero_le _) upper
    rw [Option.map_some, Option.map_some, Text.spliced_of_empty whole (texts cuts made),
      Text.range_whole]
    unfold Glyph.text
    rw [List.map_map]
    rfl

include attached spaced in
theorem covered_removed_iff (within : ∀ id ∈ gone, id < t.size) {cuts : List Cut}
    (covers : ∀ x, t.Solid x → (Cut.Covered cuts x ↔
      ∃ id, id < t.size ∧ t.Spared gone id ∧ t.Drops gone id x)) :
    (∀ x ∈ Text.placed 0 t.source.toList, Text.isBlank x.2 = false → Cut.Covered cuts x.1 →
      ∃ id ∈ gone, t.Holds id x.1) ↔
      ∀ id, id < t.size → t.Spared gone id → t.LosesBlanks gone id := by
  constructor
  · intro kept id inside spared before c after split removal loses x member
    obtain ⟨placed, lower, upper⟩ := Text.mem_range_iff.mp member
    cases hard : Text.isBlank x.2 with
    | true => rfl
    | false =>
      have drops : t.Drops gone id x.1 :=
        ⟨before, c, after, split, removal, .inr ⟨loses, lower, upper⟩⟩
      have covered := (covers x.1 ⟨x.2, placed, hard⟩).mpr ⟨id, inside, spared, drops⟩
      obtain ⟨r, struckOut, holds⟩ := kept x placed hard covered
      exact absurd holds
        (not_holds_removed attached spaced within inside spared split lower upper struckOut)
  · intro blank x member hard covered
    obtain ⟨id, inside, spared, before, c, after, split, removal, holds | ⟨loses, lower, upper⟩⟩ :=
      (covers x.1 ⟨x.2, member, hard⟩).mp covered
    · exact ⟨c, removal, holds⟩
    · have soft := blank id inside spared before c after split removal loses x
        (Text.mem_range_iff.mpr ⟨member, lower, upper⟩)
      rw [hard] at soft
      cases soft

theorem compact_uncovered_eq_iff {cuts : List Cut}
    (removed : ∀ x ∈ Text.placed 0 t.source.toList, Text.isBlank x.2 = false →
      (∃ id ∈ gone, t.Holds id x.1) → Cut.Covered cuts x.1) :
    Text.compact (String.ofList (((Text.placed 0 t.source.toList).filter
        fun x => !decide (Cut.Covered cuts x.1)).map Prod.snd)) = Text.compact (t.without gone) ↔
      ∀ x ∈ Text.placed 0 t.source.toList, Text.isBlank x.2 = false → Cut.Covered cuts x.1 →
        ∃ id ∈ gone, t.Holds id x.1 := by
  have apart_iff (x : Nat) : (gone.any fun id =>
      (t.span id).start ≤ x && x < (t.span id).stop) = false ↔ ¬∃ id ∈ gone, t.Holds id x := by
    rw [← any_holds_iff, Bool.not_eq_true]
  have sub : ∀ x ∈ Text.placed 0 t.source.toList,
      (!Text.isBlank x.2 && !decide (Cut.Covered cuts x.1)) = true →
        (!Text.isBlank x.2 && !gone.any fun id =>
          (t.span id).start ≤ x.1 && x.1 < (t.span id).stop) = true := by
    intro x member chosen
    simp only [Bool.and_eq_true, Bool.not_eq_true', decide_eq_false_iff_not, apart_iff] at chosen ⊢
    exact ⟨chosen.1, fun lies => chosen.2 (removed x member chosen.1 lies)⟩
  unfold without
  rw [compact_ofList_map, compact_ofList_map, String.ofList_inj, List.filter_filter,
    List.filter_filter, map_filter_eq_iff sub]
  simp only [Bool.and_eq_true, Bool.not_eq_true', decide_eq_false_iff_not, apart_iff]
  constructor
  · intro all x member hard covered
    apply Classical.byContradiction
    intro outside
    exact (all x member ⟨hard, outside⟩).2 covered
  · rintro all x member ⟨hard, apart⟩
    exact ⟨hard, fun covered => apart (all x member hard covered)⟩

include attached untouched spaced characters struck in
theorem Struck.print_keeps_iff (hung : u.Attached) (marked : u.Marked) (rowed : u.Spaced)
    (deep : root ∉ gone) (within : ∀ id ∈ gone, id < t.size) :
    (∃ out, u.print = some out ∧ Text.compact out = Text.compact (t.without gone)) ↔
      ∀ id, id < t.size → t.Spared gone id → ¬t.Overtakes gone id ∧ t.LosesBlanks gone id := by
  have fails := struck.cuts_eq_none_iff attached untouched spaced characters hung marked deep
  have makes {cuts : List Cut} (made : u.cuts? root = some cuts) :=
    struck.cuts attached untouched spaced characters hung marked deep made
  have parsed : (u.node root).isInserted = false := by
    unfold Node.isInserted
    rw [struck.node root]
    simp only [(untouched root).2.2.2]
  rw [struck.print_eq characters rowed parsed fun cuts made => (makes made).1]
  cases made : u.cuts? root with
  | none =>
    obtain ⟨id, inside, spared, overtakes⟩ := fails.mp made
    constructor
    · rintro ⟨out, impossible, -⟩
      cases impossible
    · intro fine
      exact absurd overtakes (fine id inside spared).1
  | some cuts =>
    have covers := (makes made).2
    have free (id : Nat) (inside : id < t.size) (spared : t.Spared gone id) :
        ¬t.Overtakes gone id := by
      intro overtakes
      rw [fails.mpr ⟨id, inside, spared, overtakes⟩] at made
      cases made
    have removed : ∀ x ∈ Text.placed 0 t.source.toList, Text.isBlank x.2 = false →
        (∃ id ∈ gone, t.Holds id x.1) → Cut.Covered cuts x.1 := by
      rintro x member hard ⟨id, removal, holds⟩
      have drops := exists_drops attached spaced deep (within id removal) removal holds
      exact (covers x.1 ⟨x.2, member, hard⟩).mpr drops
    simp only [Option.map_some, Option.some.injEq, exists_eq_left']
    rw [compact_uncovered_eq_iff removed, covered_removed_iff attached spaced within covers]
    constructor
    · intro blank id inside spared
      exact ⟨free id inside spared, blank id inside spared⟩
    · intro fine id inside spared
      exact (fine id inside spared).2

end Print

end Tree

namespace Source

variable (text : String) (parse : Parse)

theorem onCharacters_ofParse (nested : parse.tree.Nested) (leaves : parse.tree.LeafComments)
    (characters : parse.tree.OnCharacters text) : (ofParse text parse).tree.OnCharacters :=
  (Javadoc.read_spaced (ParseTree.spaced_toTree nested text)
    (ParseTree.leaf_toTree leaves text)).2 (ParseTree.onCharacters_toTree characters)

/-- Printing after removals keeps all that stands outside the removed nodes, up to blanks, exactly
when two things hold at every printed node: the blanks behind a removed child do not reach into a kept
one, and where text ahead of a removed child goes with it, that text is blank. -/
theorem removals_keep_text_iff (nested : parse.tree.Nested) (leaves : parse.tree.LeafComments)
    (characters : parse.tree.OnCharacters text) (gone : List Nat)
    (accepted : ((ofParse text parse).tree.apply (gone.map .remove)).2 = .ok ()) :
    let t := (ofParse text parse).tree
    let u := (t.apply (gone.map .remove)).1
    (∃ out, u.print = some out ∧ Text.compact out = Text.compact (t.without gone)) ↔
      ∀ id, id < t.size → t.Spared gone id → ¬t.Overtakes gone id ∧ t.LosesBlanks gone id := by
  intro t u
  have attached := attached_ofParse text parse
  have untouched := untouched_ofParse text parse
  have spaced := spaced_ofParse text parse nested leaves
  have ends := onCharacters_ofParse text parse nested leaves characters
  rcases Tree.apply_cases attached untouched.marked (gone.map .remove) with
    ⟨reason, -, refused⟩ | ⟨v, valid, done, hung, marked, rowed, -⟩
  · rw [refused] at accepted
    cases accepted
  · have targets : ∀ id ∈ gone, t.Targets (.remove id) := by
      intro id member
      exact Tree.targets_of_validateAll valid _ (List.mem_map_of_mem member)
    have deep : Tree.root ∉ gone := by
      intro member
      exact (targets Tree.root member).2 rfl rfl
    have same : u = v := congrArg Prod.fst done
    have carried : t.apply (gone.map .remove) = t.performAll (gone.map .remove) := by
      unfold Tree.apply
      rw [valid]
    obtain ⟨w, removed, struck, -⟩ := Tree.performAll_remove attached untouched.marked targets
    have equal : w = v := by
      rw [← carried, done] at removed
      exact (Prod.mk.inj removed).1.symm
    rw [equal] at struck
    rw [same]
    exact struck.print_keeps_iff attached untouched spaced ends hung marked (rowed spaced) deep
      fun id member => (targets id member).1

def linkedComment : String := "/** a \x7b@link B\x7d c */"

def linkedCommentParse : Parse where
  tree := .node "program" true ⟨0, 20⟩ none [.node "block_comment" true ⟨0, 20⟩ none []]
  hasErrors := false

/-- A comment loses the text ahead of a link that is removed from it. -/
theorem removals_keep_text_iff_link :
    let t := (ofParse linkedComment linkedCommentParse).tree
    let u := (t.apply [.remove 2]).1
    (linkedCommentParse.tree.Nested ∧ linkedCommentParse.tree.LeafComments ∧
        linkedCommentParse.tree.OnCharacters linkedComment ∧ (t.apply [.remove 2]).2 = .ok ()) ∧
      (t.without [2] = "/** a  c */" ∧ u.print = some "c */") ∧
      ((∃ out, u.print = some out ∧ Text.compact out = Text.compact (t.without [2])) ↔
        ∀ id, id < t.size → t.Spared [2] id → ¬t.Overtakes [2] id ∧ t.LosesBlanks [2] id) := by
  have nested : linkedCommentParse.tree.Nested := by decide
  have leaves : linkedCommentParse.tree.LeafComments := by decide
  have characters : linkedCommentParse.tree.OnCharacters linkedComment := by decide +kernel
  have accepted :
      ((ofParse linkedComment linkedCommentParse).tree.apply [.remove 2]).2 = .ok () := by
    have done : ((ofParse linkedComment linkedCommentParse).tree.apply [.remove 2]).2.toBool =
        true := by decide +kernel
    cases outcome : ((ofParse linkedComment linkedCommentParse).tree.apply [.remove 2]).2 with
    | ok _ => rfl
    | error _ =>
      rw [outcome] at done
      cases done
  have printed : ((ofParse linkedComment linkedCommentParse).tree.apply [.remove 2]).1.print =
      some "c */" := by decide +kernel
  have remains : (ofParse linkedComment linkedCommentParse).tree.without [2] = "/** a  c */" := by
    decide +kernel
  exact ⟨⟨nested, leaves, characters, accepted⟩, ⟨remains, printed⟩,
    removals_keep_text_iff linkedComment linkedCommentParse nested leaves characters [2] accepted⟩

end Source

end SpringLint
