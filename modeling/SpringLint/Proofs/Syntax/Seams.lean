import SpringLint.Proofs.Syntax.Change
import SpringLint.Proofs.Syntax.Cuts
import SpringLint.Proofs.Syntax.Nesting

/-! The cuts of a tree, node by node: each cut is made by one printed node, and depends only on that
node and its children. -/

namespace SpringLint

namespace Part

def bare : Part → Part
  | .kept span _ => .kept span []
  | part => part

def inner : Part → List Cut
  | .kept _ cuts => cuts
  | _ => []

end Part

namespace Trace

variable {q b : Trace} {extra : List Cut}

theorem perm_right_comm {α : Type} (a b c : List α) : (a ++ b ++ c).Perm (a ++ c ++ b) := by
  rw [List.append_assoc, List.append_assoc]
  exact List.Perm.append_left a List.perm_append_comm

/-- Two traces that differ only by cuts made inside children. -/
structure Alike (q b : Trace) (extra : List Cut) : Prop where
  gap : q.gap = b.gap
  current : q.current = b.current
  emitted : q.emitted = b.emitted
  cuts : q.cuts.Perm (b.cuts ++ extra)

theorem Alike.earlier (alike : Alike q b extra) : q.earlier.Perm (b.earlier ++ extra) := by
  unfold Trace.earlier
  rw [alike.gap]
  exact (alike.cuts.append_right _).trans (perm_right_comm ..)

theorem Alike.settled (alike : Alike q b extra) : q.settled.Perm (b.settled ++ extra) := by
  unfold Trace.settled
  rw [alike.current]
  exact (alike.earlier.append_right _).trans (perm_right_comm ..)

def Pair (extra : List Cut) (q b : Option Trace) : Prop :=
  (q = none ∧ b = none) ∨ ∃ next bare, q = some next ∧ b = some bare ∧ Alike next bare extra

theorem Alike.add (alike : Alike q b extra) (source : String) (stop : Nat) (more : Bool)
    (part : Part) :
    Pair (extra ++ part.inner) (q.add source stop more part) (b.add source stop more part.bare) := by
  obtain ⟨gap, current, emitted, cuts⟩ := id alike
  have none : extra ++ [] = extra := List.append_nil extra
  cases part with
  | keyword word offset =>
    refine .inr ⟨_, _, rfl, rfl, rfl, ?_, rfl, ?_⟩
    · simp only [current, emitted, gap]
    · exact none.symm ▸ alike.earlier
  | text content offset =>
    refine .inr ⟨_, _, rfl, rfl, rfl, ?_, rfl, ?_⟩
    · simp only [current]
    · exact none.symm ▸ alike.settled
  | removed span =>
    have kept : q.cuts.Perm (b.cuts ++ (extra ++ [])) := by rwa [none]
    simp only [Part.bare, Trace.add]
    rw [gap, current, emitted]
    split
    · split
      · exact .inr ⟨_, _, rfl, rfl, rfl, rfl, rfl, kept⟩
      · exact .inl ⟨rfl, rfl⟩
    · exact .inr ⟨_, _, rfl, rfl, rfl, rfl, rfl, kept⟩
  | kept span inner =>
    rw [Part.inner, Part.bare, Trace.add, Trace.add, current]
    split
    · refine .inr ⟨_, _, rfl, rfl, rfl, rfl, rfl, ?_⟩
      rw [List.append_nil, ← List.append_assoc]
      exact alike.settled.append_right inner
    · exact .inl ⟨rfl, rfl⟩

theorem Alike.addAll (alike : Alike q b extra) (source : String) (stop : Nat) (parts : List Part) :
    Pair (extra ++ parts.flatMap Part.inner) (q.addAll source stop parts)
      (b.addAll source stop (parts.map Part.bare)) := by
  induction parts generalizing q b extra with
  | nil =>
    rw [List.flatMap_nil, List.append_nil]
    exact .inr ⟨q, b, rfl, rfl, alike⟩
  | cons part rest ih =>
    have more : ((rest.map Part.bare).any fun later => !later.isRemoved) =
        rest.any fun later => !later.isRemoved := by
      rw [List.any_map]
      congr 1
      funext part
      cases part <;> rfl
    rw [List.map_cons, Trace.addAll, Trace.addAll, more, List.flatMap_cons, ← List.append_assoc]
    rcases alike.add source stop (rest.any fun later => !later.isRemoved)
      part with ⟨fails, failing⟩ | ⟨next, bare, added, adding, onward⟩
    · rw [fails, failing]
      exact .inl ⟨rfl, rfl⟩
    · rw [added, adding]
      exact ih onward

theorem Alike.finish (alike : Alike q b extra) (stop : Nat) :
    (q.finish stop = none ∧ b.finish stop = none) ∨
      ∃ cuts bare, q.finish stop = some cuts ∧ b.finish stop = some bare ∧
        cuts.Perm (bare ++ extra) := by
  unfold Trace.finish
  rw [alike.current, alike.gap]
  split
  · split
    · split
      · exact .inr ⟨_, _, rfl, rfl, (alike.cuts.append_right _).trans (perm_right_comm ..)⟩
      · exact .inr ⟨_, _, rfl, rfl, alike.settled⟩
    · exact .inr ⟨_, _, rfl, rfl, alike.settled⟩
  · exact .inl ⟨rfl, rfl⟩

theorem run_bare (source : String) (span : Span) (parts : List Part) :
    (run source span parts = none ∧ run source span (parts.map Part.bare) = none) ∨
      ∃ cuts bare, run source span parts = some cuts ∧
        run source span (parts.map Part.bare) = some bare ∧
          cuts.Perm (bare ++ parts.flatMap Part.inner) := by
  have alike : Alike { current := { start := span.start, stop := span.start } }
      { current := { start := span.start, stop := span.start } } [] :=
    ⟨rfl, rfl, rfl, .nil⟩
  unfold run
  rcases alike.addAll source span.stop parts with
    ⟨fails, failing⟩ | ⟨next, bare, added, adding, onward⟩
  · rw [fails, failing]
    exact .inl ⟨rfl, rfl⟩
  · rw [added, adding]
    exact onward.finish span.stop

end Trace

namespace Tree

def bareParts (t : Tree) (id : Nat) : List Part :=
  (t.node id).children.map fun c => (partOf (t.node id) (t.node c) []).bare

/-- The cuts that a node makes between its children. -/
def seams? (t : Tree) (id : Nat) : Option (List Cut) :=
  Trace.run t.source (t.span id) (t.bareParts id)

/-- The second node is printed as part of the first. -/
inductive Shows (t : Tree) : Nat → Nat → Prop where
  | here (id : Nat) : Shows t id id
  | child {id c d : Nat} (member : c ∈ (t.node id).children) (kept : t.isKept c = true)
    (rest : Shows t c d) : Shows t id d

variable {t : Tree} {id : Nat}

theorem bare_partOf (parent child : Node) (cuts : List Cut) :
    (partOf parent child cuts).bare = (partOf parent child []).bare := by
  unfold partOf
  split
  · rfl
  · rfl
  · split <;> rfl

theorem map_bare_parts (t : Tree) (id : Nat) : (t.parts id).map Part.bare = t.bareParts id := by
  unfold parts bareParts
  rw [List.map_map]
  apply List.map_congr_left
  intro c _
  exact bare_partOf ..

theorem inner_partOf {parent : Node} (unwrapped : parent.parenthesized = false) (c : Nat)
    (cuts : List Cut) :
    (partOf parent (t.node c) cuts).inner = if t.isKept c then cuts else [] := by
  have plain : wrapCuts parent (t.node c) cuts = cuts := by
    unfold wrapCuts isWrapped
    rw [unwrapped]
    simp
  unfold partOf isKept Node.isInserted
  rw [plain]
  cases (t.node c).origin with
  | inserted insertion => cases insertion <;> simp [Part.inner]
  | parsed => cases (t.node c).removed <;> simp [Part.inner]

theorem Shows.dirty (marked : t.Marked) (attached : t.Attached) {d : Nat} (shows : t.Shows id d)
    (dirt : (t.node d).dirty = true) : (t.node id).dirty = true := by
  induction shows with
  | here => exact dirt
  | child member kept rest ih => exact marked.up _ _ (attached.parent_of_mem member) (ih dirt)

theorem Shows.cases_node {d : Nat} (shows : t.Shows id d) :
    d = id ∨ ∃ c ∈ (t.node id).children, t.isKept c = true ∧ t.Shows c d := by
  cases shows with
  | here => exact .inl rfl
  | child member kept rest => exact .inr ⟨_, member, kept, rest⟩

theorem cuts?_eq_none_of_dirty (dirt : (t.node id).dirty = true) :
    t.cuts? id = none ↔ t.seams? id = none ∨
      ∃ c ∈ (t.node id).children, t.isKept c = true ∧ t.cuts? c = none := by
  rw [cuts?_of_dirty dirt]
  by_cases printable : ∀ c ∈ (t.node id).children, t.isKept c = true → (t.cuts? c).isSome = true
  · have inside : ¬∃ c ∈ (t.node id).children, t.isKept c = true ∧ t.cuts? c = none := by
      rintro ⟨c, member, kept, fails⟩
      have some := printable c member kept
      rw [fails] at some
      cases some
    rw [if_pos printable, or_iff_left inside]
    have own := Trace.run_bare t.source (t.span id) (t.parts id)
    rw [map_bare_parts] at own
    rcases own with ⟨fails, failing⟩ | ⟨cuts, bare, made, making, -⟩
    · exact iff_of_true fails failing
    · unfold seams?
      rw [made, making]
      simp only [reduceCtorEq]
  · rw [if_neg printable]
    simp only [Classical.not_forall, exists_prop, Bool.not_eq_true, Option.isSome_eq_false_iff,
      Option.isNone_iff_eq_none] at printable
    exact iff_of_true rfl (.inr printable)

/-- The cuts of a node, in some order: its own, and those inside its children. -/
theorem perm_cuts (unwrapped : ∀ id, (t.node id).parenthesized = false)
    (dirt : (t.node id).dirty = true) {cuts : List Cut} (found : t.cuts? id = some cuts) :
    ∃ own, t.seams? id = some own ∧
      cuts.Perm (own ++ (t.node id).children.flatMap fun c => if t.isKept c then t.cuts c else []) ∧
        ∀ c ∈ (t.node id).children, t.isKept c = true → t.cuts? c = some (t.cuts c) := by
  rw [cuts?_of_dirty dirt] at found
  split at found
  · rename_i printable
    rcases Trace.run_bare t.source (t.span id) (t.parts id) with
      ⟨fails, -⟩ | ⟨all, own, made, making, split⟩
    · rw [fails] at found
      cases found
    · rw [made] at found
      obtain rfl := Option.some.inj found
      rw [map_bare_parts] at making
      refine ⟨own, making, ?_, ?_⟩
      · have inner : (t.parts id).flatMap Part.inner =
            (t.node id).children.flatMap fun c => if t.isKept c then t.cuts c else [] := by
          unfold parts
          rw [List.flatMap_map]
          congr 1
          funext c
          exact inner_partOf (unwrapped id) c (t.cuts c)
        rw [← inner]
        exact split
      · intro c member kept
        exact cuts?_eq_cuts (printable c member kept)
  · cases found

section Made

variable (attached : t.Attached) (marked : t.Marked)

include attached marked

theorem Shows.not_of_clean (dirt : (t.node id).dirty = false) {d : Nat} (shows : t.Shows id d) :
    (t.node d).dirty ≠ true := by
  intro marks
  rw [shows.dirty marked attached marks] at dirt
  cases dirt

/-- Printing fails when it does at some node. -/
theorem cuts?_eq_none_iff (id : Nat) :
    t.cuts? id = none ↔ ∃ d, t.Shows id d ∧ (t.node d).dirty = true ∧ t.seams? d = none := by
  induction measure : t.size - id using Nat.strongRecOn generalizing id with
  | ind n ih =>
    subst measure
    cases dirt : (t.node id).dirty with
    | false =>
      rw [cuts?_of_clean dirt]
      refine iff_of_false (by simp) ?_
      rintro ⟨d, shows, marks, -⟩
      exact shows.not_of_clean attached marked dirt marks
    | true =>
      have below (c : Nat) (member : c ∈ (t.node id).children) :=
        ih (t.size - c) (child_decreases member) c rfl
      rw [cuts?_eq_none_of_dirty dirt]
      constructor
      · rintro (fails | ⟨c, member, kept, fails⟩)
        · exact ⟨id, .here id, dirt, fails⟩
        · obtain ⟨d, shows, found⟩ := (below c member).mp fails
          exact ⟨d, .child member kept shows, found⟩
      · rintro ⟨d, shows, found⟩
        rcases shows.cases_node with rfl | ⟨c, member, kept, rest⟩
        · exact .inl found.2
        · exact .inr ⟨c, member, kept, (below c member).mpr ⟨d, rest, found⟩⟩

/-- Every cut is made by a printed node, and every printed node makes its cuts. -/
theorem mem_cuts_iff (unwrapped : ∀ id, (t.node id).parenthesized = false) {id : Nat}
    {cuts : List Cut} (found : t.cuts? id = some cuts) (cut : Cut) :
    cut ∈ cuts ↔
      ∃ d, t.Shows id d ∧ (t.node d).dirty = true ∧ ∃ own, t.seams? d = some own ∧ cut ∈ own := by
  induction measure : t.size - id using Nat.strongRecOn generalizing id cuts with
  | ind n ih =>
    subst measure
    cases dirt : (t.node id).dirty with
    | false =>
      rw [cuts?_of_clean dirt] at found
      obtain rfl := Option.some.inj found
      refine iff_of_false (by simp) ?_
      rintro ⟨d, shows, marks, -⟩
      exact shows.not_of_clean attached marked dirt marks
    | true =>
      obtain ⟨own, making, split, known⟩ := perm_cuts unwrapped dirt found
      have below {c : Nat} (member : c ∈ (t.node id).children) (kept : t.isKept c = true) :=
        ih (t.size - c) (child_decreases member) (known c member kept) rfl
      rw [split.mem_iff, List.mem_append, List.mem_flatMap]
      constructor
      · rintro (here | ⟨c, member, inner⟩)
        · exact ⟨id, .here id, dirt, own, making, here⟩
        · obtain ⟨kept, deeper⟩ := List.mem_ite_nil_right.mp inner
          obtain ⟨d, shows, made⟩ := (below member kept).mp deeper
          exact ⟨d, .child member kept shows, made⟩
      · rintro ⟨d, shows, marks, theirs, seam, member⟩
        rcases shows.cases_node with rfl | ⟨c, child, kept, rest⟩
        · rw [making] at seam
          obtain rfl := Option.some.inj seam
          exact .inl member
        · refine .inr ⟨c, child, List.mem_ite_nil_right.mpr ⟨kept, ?_⟩⟩
          exact (below child kept).mpr ⟨d, rest, marks, theirs, seam, member⟩

end Made

theorem Shows.above (attached : t.Attached) {d : Nat} (shows : t.Shows id d) :
    id ∈ d :: t.ancestors d := by
  induction shows with
  | here => exact List.mem_cons_self
  | child member _ _ ih =>
    apply mem_ancestors_trans ih
    rw [ancestors_of_parent (attached.parent_of_mem member)]
    exact List.mem_cons_of_mem _ List.mem_cons_self

theorem Shows.snoc {p c : Nat} (shows : t.Shows id p) (member : c ∈ (t.node p).children)
    (kept : t.isKept c = true) : t.Shows id c := by
  induction shows with
  | here => exact .child member kept (.here c)
  | child first stays _ ih => exact .child first stays (ih member)

theorem Shows.trans {d e : Nat} (first : t.Shows id d) (second : t.Shows d e) : t.Shows id e := by
  induction first with
  | here => exact second
  | child member kept _ ih => exact .child member kept (ih second)

theorem exists_seam (attached : t.Attached) (marked : t.Marked)
    (unwrapped : ∀ id, (t.node id).parenthesized = false) {cuts : List Cut}
    (found : t.cuts? id = some cuts) (cut : Cut) (among : cut ∈ cuts) :
    ∃ d own, t.Shows id d ∧ t.seams? d = some own ∧ cut ∈ own := by
  obtain ⟨d, shows, -, own, seam, inner⟩ :=
    (mem_cuts_iff attached marked unwrapped found cut).mp among
  exact ⟨d, own, shows, seam, inner⟩

theorem nodup_cuts (attached : t.Attached) (marked : t.Marked)
    (unwrapped : ∀ id, (t.node id).parenthesized = false)
    (once : ∀ d own, t.Shows root d → t.seams? d = some own → own.Nodup)
    (apart : ∀ d e ours theirs, t.Shows root d → t.Shows root e → t.seams? d = some ours →
      t.seams? e = some theirs → ∀ cut ∈ ours, cut ∈ theirs → d = e)
    (shown : t.Shows root id) {cuts : List Cut} (found : t.cuts? id = some cuts) : cuts.Nodup := by
  induction measure : t.size - id using Nat.strongRecOn generalizing id cuts with
  | ind n ih =>
    subst measure
    cases dirt : (t.node id).dirty with
    | false =>
      rw [cuts?_of_clean dirt] at found
      obtain rfl := Option.some.inj found
      exact List.nodup_nil
    | true =>
      obtain ⟨own, making, split, known⟩ := perm_cuts unwrapped dirt found
      rw [split.nodup_iff, List.nodup_append]
      have below {c : Nat} {cut : Cut} (member : c ∈ (t.node id).children) (kept : t.isKept c = true) :=
        exists_seam attached marked unwrapped (known c member kept) cut
      have reach {c d : Nat} (member : c ∈ (t.node id).children) (kept : t.isKept c = true)
          (shows : t.Shows c d) : t.Shows root d := (shown.snoc member kept).trans shows
      refine ⟨once id own shown making, ?_, ?_⟩
      · rw [List.Nodup, List.pairwise_flatMap]
        refine ⟨fun c member => ?_, ?_⟩
        · split
          · rename_i kept
            exact ih (t.size - c) (child_decreases member) (shown.snoc member kept)
              (known c member kept) rfl
          · exact List.Pairwise.nil
        · have distinct := attached.nodup_children id
          apply distinct.imp_of_mem
          intro c e first second differ cut left other right equal
          subst equal
          obtain ⟨keptC, inC⟩ := List.mem_ite_nil_right.mp left
          obtain ⟨keptE, inE⟩ := List.mem_ite_nil_right.mp right
          obtain ⟨d, ours, showsD, seamD, amongD⟩ := below first keptC inC
          obtain ⟨f, theirs, showsF, seamF, amongF⟩ := below second keptE inE
          have same := apart d f ours theirs (reach first keptC showsD) (reach second keptE showsF)
            seamD seamF cut amongD amongF
          subst same
          exact differ (eq_of_siblings (showsD.above attached) (showsF.above attached)
            (attached.parent_of_mem first) (attached.parent_of_mem second))
      · intro cut here other inside equal
        subst equal
        obtain ⟨c, member, inner⟩ := List.mem_flatMap.mp inside
        obtain ⟨kept, among⟩ := List.mem_ite_nil_right.mp inner
        obtain ⟨d, theirs, shows, seam, there⟩ := below member kept among
        have same := apart id d own theirs shown (reach member kept shows) making seam cut here there
        have low := le_of_mem_ancestors (shows.above attached)
        have high := (lt_of_mem_node_children member).1
        omega

end Tree

end SpringLint
