import SpringLint.Proofs.Syntax.Cuts

/-! What printing a node drops when its children are kept or removed. -/

namespace SpringLint

namespace Part

def endsKept (done : List Part) : Bool :=
  match done.getLast? with
  | some part => !part.isRemoved
  | none => false

def endOf (start : Nat) (done : List Part) : Nat :=
  match done.getLast? with
  | some part => part.span.stop
  | none => start

@[simp]
theorem endsKept_concat (done : List Part) (part : Part) :
    endsKept (done ++ [part]) = !part.isRemoved := by
  unfold endsKept
  rw [List.getLast?_concat]

@[simp]
theorem endOf_concat (start : Nat) (done : List Part) (part : Part) :
    endOf start (done ++ [part]) = part.span.stop := by
  unfold endOf
  rw [List.getLast?_concat]

def Plain : Part → Prop
  | .removed _ => True
  | .kept _ cuts => cuts = []
  | _ => False

/-- What goes with removed children when more children may follow: the children, and the text ahead
of those that nothing kept stands before. -/
def Gone (start : Nat) (done : List Part) (x : Nat) : Prop :=
  ∃ before span after, done = before ++ .removed span :: after ∧
    (span.start ≤ x ∧ x < span.stop ∨
      endsKept before = false ∧ endOf start before ≤ x ∧ x < span.start)

theorem gone_nil {start x : Nat} : ¬Gone start [] x := by
  rintro ⟨before, span, after, split, -⟩
  cases before <;> cases split

theorem gone_concat {start x : Nat} {done : List Part} {part : Part} :
    Gone start (done ++ [part]) x ↔ Gone start done x ∨
      ∃ span, part = .removed span ∧ (span.start ≤ x ∧ x < span.stop ∨
        endsKept done = false ∧ endOf start done ≤ x ∧ x < span.start) := by
  constructor
  · rintro ⟨before, span, after, split, here⟩
    rcases List.eq_nil_or_concat after with rfl | ⟨init, last, rfl⟩
    · obtain ⟨rfl, same⟩ := List.append_inj' split rfl
      exact .inr ⟨span, List.head_eq_of_cons_eq same, here⟩
    · rw [List.concat_eq_append, ← List.cons_append, ← List.append_assoc] at split
      obtain ⟨rfl, -⟩ := List.append_inj' split rfl
      exact .inl ⟨before, span, init, rfl, here⟩
  · rintro (⟨before, span, after, rfl, here⟩ | ⟨span, rfl, here⟩)
    · exact ⟨before, span, after ++ [part], by rw [List.append_assoc, List.cons_append], here⟩
    · exact ⟨done, span, [], rfl, here⟩

theorem gone_concat_removed {start x : Nat} {done : List Part} {span : Span} :
    Gone start (done ++ [.removed span]) x ↔ Gone start done x ∨ (span.start ≤ x ∧ x < span.stop) ∨
      endsKept done = false ∧ endOf start done ≤ x ∧ x < span.start := by
  rw [gone_concat]
  simp only [Part.removed.injEq, exists_eq_left']

theorem gone_concat_kept {start x : Nat} {done : List Part} {span : Span} {cuts : List Cut} :
    Gone start (done ++ [.kept span cuts]) x ↔ Gone start done x := by
  rw [gone_concat]
  simp only [reduceCtorEq, false_and, exists_false, or_false]

/-- Whether the blanks behind a removed child reach into a kept child that follows it. -/
def Overtaken (source : String) (stop : Nat) (parts : List Part) : Prop :=
  ∃ before removed kept cuts after, parts = before ++ .removed removed :: .kept kept cuts :: after ∧
    kept.start < Text.skipBlankBytes source removed.stop stop

theorem Overtaken.append {source : String} {stop : Nat} {done : List Part}
    (overtaken : Overtaken source stop done) (rest : List Part) :
    Overtaken source stop (done ++ rest) := by
  obtain ⟨before, removed, kept, cuts, after, rfl, reach⟩ := overtaken
  refine ⟨before, removed, kept, cuts, after ++ rest, ?_, reach⟩
  simp only [List.append_assoc, List.cons_append]

theorem overtaken_concat {source : String} {stop : Nat} {done : List Part} {part : Part}
    (overtaken : Overtaken source stop (done ++ [part])) : Overtaken source stop done ∨
      ∃ span cuts, part = .kept span cuts ∧ (endsKept done = false ∧ done ≠ []) ∧
        ∀ start, span.start < Text.skipBlankBytes source (endOf start done) stop := by
  obtain ⟨before, removed, kept, cuts, after, split, reach⟩ := overtaken
  rcases List.eq_nil_or_concat after with rfl | ⟨init, last, rfl⟩
  · have grouped : before ++ .removed removed :: [.kept kept cuts] =
        (before ++ [.removed removed]) ++ [.kept kept cuts] := by simp
    rw [grouped] at split
    obtain ⟨rfl, same⟩ := List.append_inj' split rfl
    refine .inr ⟨kept, cuts, List.head_eq_of_cons_eq same, ⟨?_, by simp⟩, fun start => ?_⟩
    · rw [endsKept_concat]
      rfl
    · rw [endOf_concat]
      exact reach
  · rw [List.concat_eq_append, ← List.cons_append, ← List.cons_append, ← List.append_assoc] at split
    obtain ⟨rfl, -⟩ := List.append_inj' split rfl
    exact .inl ⟨before, removed, kept, cuts, init, rfl, reach⟩

theorem exists_removed_of_endsKept {done : List Part} (gone : endsKept done = false)
    (filled : done ≠ []) : ∃ before span, done = before ++ [.removed span] := by
  obtain ⟨before, part, rfl⟩ := (List.eq_nil_or_concat done).resolve_left filled
  rw [List.concat_eq_append] at gone ⊢
  rw [endsKept_concat] at gone
  cases part with
  | removed span => exact ⟨before, span, rfl⟩
  | _ => cases gone

/-- What goes with the removed children of a node that ends at `stop`. Text ahead of a removed
child stays only behind a kept child, and only if there is more than blanks to come. -/
def Dropped (source : String) (start stop : Nat) (parts : List Part) (x : Nat) : Prop :=
  ∃ before span after, parts = before ++ .removed span :: after ∧
    (span.start ≤ x ∧ x < span.stop ∨
      (endsKept before = false ∨
        (∀ part ∈ after, part.isRemoved = true) ∧
          stop ≤ Text.skipBlankBytes source (endOf start (.removed span :: after)) stop) ∧
      endOf start before ≤ x ∧ x < span.start)

/-- What goes only because nothing but blanks comes after it. -/
def Trailing (source : String) (start stop : Nat) (parts : List Part) (x : Nat) : Prop :=
  ∃ before span after, parts = before ++ .removed span :: after ∧ endsKept before = true ∧
    (∀ part ∈ after, part.isRemoved = true) ∧
      stop ≤ Text.skipBlankBytes source (endOf start parts) stop ∧
        endOf start before ≤ x ∧ x < span.start

theorem endOf_append_cons (start : Nat) (before after : List Part) (part : Part) :
    endOf start (before ++ part :: after) = endOf start (part :: after) := by
  unfold endOf
  rw [List.getLast?_append, List.getLast?_cons, Option.some_or]

theorem dropped_iff {source : String} {start stop x : Nat} {parts : List Part} :
    Dropped source start stop parts x ↔
      Gone start parts x ∨ Trailing source start stop parts x := by
  constructor
  · rintro ⟨before, span, after, rfl, inside | ⟨loses, lower, upper⟩⟩
    · exact .inl ⟨before, span, after, rfl, .inl inside⟩
    · cases kept : endsKept before with
      | false => exact .inl ⟨before, span, after, rfl, .inr ⟨kept, lower, upper⟩⟩
      | true =>
        rcases loses with gone | ⟨all, blank⟩
        · rw [kept] at gone
          cases gone
        · rw [← endOf_append_cons start before] at blank
          exact .inr ⟨before, span, after, rfl, kept, all, blank, lower, upper⟩
  · rintro (⟨before, span, after, rfl, inside | ⟨gone, here⟩⟩ |
      ⟨before, span, after, rfl, -, all, blank, here⟩)
    · exact ⟨before, span, after, rfl, .inl inside⟩
    · exact ⟨before, span, after, rfl, .inr ⟨.inl gone, here⟩⟩
    · rw [endOf_append_cons] at blank
      exact ⟨before, span, after, rfl, .inr ⟨.inr ⟨all, blank⟩, here⟩⟩

theorem exists_kept_of_endsKept {done : List Part} (kept : endsKept done = true) :
    ∃ part ∈ done, part.isRemoved = false := by
  unfold endsKept at kept
  cases found : done.getLast? with
  | none =>
    rw [found] at kept
    cases kept
  | some part =>
    rw [found] at kept
    exact ⟨part, List.mem_of_getLast? found, by simpa using kept⟩

theorem endsKept_append_removed {before after : List Part} {part : Part}
    (all : ∀ other ∈ part :: after, other.isRemoved = true) :
    endsKept (before ++ part :: after) = false := by
  have last : (part :: after).getLast (List.cons_ne_nil _ _) ∈ part :: after := List.getLast_mem _
  unfold endsKept
  rw [List.getLast?_append, List.getLast?_eq_some_getLast (List.cons_ne_nil _ _), Option.some_or]
  simp only [all _ last, Bool.not_true]

theorem split_trailing {before other after rest : List Part} {span place : Span}
    (same : before ++ .removed span :: after = other ++ .removed place :: rest)
    (first : endsKept before = true) (second : endsKept other = true)
    (all : ∀ part ∈ after, part.isRemoved = true) (every : ∀ part ∈ rest, part.isRemoved = true) :
    before = other ∧ span = place := by
  rcases List.append_eq_append_iff.mp same with ⟨middle, rfl, tail⟩ | ⟨middle, rfl, tail⟩
  · cases middle with
    | nil =>
      rw [List.nil_append] at tail
      exact ⟨(List.append_nil _).symm, Part.removed.inj (List.head_eq_of_cons_eq tail)⟩
    | cons part middle =>
      rw [List.cons_append] at tail
      obtain ⟨rfl, rfl⟩ := List.cons.inj tail
      rw [endsKept_append_removed] at second
      · cases second
      · intro part member
        rcases List.mem_cons.mp member with rfl | among
        · rfl
        · exact all part (List.mem_append_left _ among)
  · cases middle with
    | nil =>
      rw [List.nil_append] at tail
      exact ⟨List.append_nil _, (Part.removed.inj (List.head_eq_of_cons_eq tail)).symm⟩
    | cons part middle =>
      rw [List.cons_append] at tail
      obtain ⟨rfl, rfl⟩ := List.cons.inj tail
      rw [endsKept_append_removed] at first
      · cases first
      · intro part member
        rcases List.mem_cons.mp member with rfl | among
        · rfl
        · exact every part (List.mem_append_left _ among)

end Part

namespace Trace

open SpringLint.Part

variable {source : String} {start stop : Nat}

/-- The cuts after the children `done`. -/
structure Reached (source : String) (start stop : Nat) (solid : Nat → Prop) (done : List Part)
    (q : Trace) : Prop where
  keeps : (q.emitted && q.gap.isNone) = endsKept done
  shown : q.emitted = false → ∀ part ∈ done, part.isRemoved = true
  cursor : q.current.stop =
    if endsKept done = true ∨ done = [] then endOf start done
    else Text.skipBlankBytes source (endOf start done) stop
  reaches : endOf start done ≤ q.current.stop
  within : q.current.stop ≤ stop
  clear : ∀ x, solid x → ¬(endOf start done ≤ x ∧ x < q.current.stop)
  begins : q.current.start ≤ endOf start done
  settled : endsKept done = true → q.current.start = endOf start done
  plain : ∀ cut ∈ q.current :: q.earlier, cut.text = ""
  gap : ∀ gap, q.gap = some gap → ∃ before span after,
    done = before ++ .removed span :: after ∧ endsKept before = true ∧
      (∀ part ∈ after, part.isRemoved = true) ∧ q.current.start = span.start ∧
        endOf start before ≤ span.start ∧
          gap.start = endOf start before ∧ gap.stop = endOf start before ∧ gap.text = ""
  covers : ∀ x, solid x →
    (Cut.Covered (q.current :: q.earlier) x ↔ Gone start done x)

variable {solid : Nat → Prop} {done : List Part} {q : Trace}

theorem Reached.initial (source : String) {start stop : Nat} (ordered : start ≤ stop)
    (solid : Nat → Prop) :
    Reached source start stop solid [] { current := { start := start, stop := start } } where
  keeps := rfl
  shown _ part member := by cases member
  cursor := rfl
  reaches := Nat.le_refl _
  within := ordered
  clear x _ := by
    rintro ⟨lower, upper⟩
    exact absurd lower (Nat.not_le_of_lt upper)
  begins := Nat.le_refl _
  settled kept := by cases kept
  plain cut member := by
    rcases List.mem_cons.mp member with rfl | none
    · rfl
    · cases none
  gap gap present := by cases present
  covers x _ := by
    constructor
    · intro covered
      rcases Cut.covered_cons.mp covered with ⟨lower, upper⟩ | none
      · exact absurd lower (Nat.not_le_of_lt upper)
      · exact absurd none Cut.covered_nil
    · intro gone
      exact absurd gone gone_nil

theorem mem_settled {cut other : Cut} (member : other ∈ cut.settled) : other = cut := by
  unfold Cut.settled at member
  split at member
  · cases member
  · exact List.mem_singleton.mp member

theorem Reached.plain_settled (reached : Reached source start stop solid done q) :
    ∀ cut ∈ q.settled, cut.text = "" := by
  intro cut member
  rcases List.mem_append.mp member with earlier | current
  · exact reached.plain cut (List.mem_cons_of_mem _ earlier)
  · rw [mem_settled current]
    exact reached.plain q.current List.mem_cons_self

section Step

variable (reached : Reached source start stop solid done q) (more : Bool) (span : Span)
  (behind : endOf start done ≤ span.start) (proper : span.start ≤ span.stop)
  (within : span.stop ≤ stop) (boundary : Text.Boundary source span.stop)
  (clear : ∀ x, solid x → ¬(span.stop ≤ x ∧ x < Text.skipBlankBytes source span.stop stop))

include reached in
/-- What is settled by the time a removed child follows a kept one: nothing more than before. -/
theorem Reached.earlier_held (kept : endsKept done = true) (current : Cut) :
    Trace.earlier { q with gap := some q.current, current := current } = q.earlier := by
  have ⟨_, closed⟩ := Bool.and_eq_true_iff.mp (reached.keeps.trans kept)
  have cursor := reached.cursor
  rw [if_pos (.inl kept)] at cursor
  have empty := reached.plain q.current List.mem_cons_self
  have nothing : q.current.settled = [] := if_pos ⟨by rw [reached.settled kept, cursor], empty⟩
  rw [earlier_hold (Option.isNone_iff_eq_none.mp closed), Trace.settled, nothing, List.append_nil]

include reached proper within boundary clear in
/-- A removed child behind a kept one: what has been written is held back, and a new cut begins. -/
theorem Reached.hold (kept : endsKept done = true) (behind : endOf start done ≤ span.start) :
    Reached source start stop solid (done ++ [.removed span])
      { q with
        gap := some q.current
        current := { start := span.start, stop := Text.skipBlankBytes source span.stop stop } } where
  keeps := by simp [Part.isRemoved]
  shown silent := by
    have ⟨shown, _⟩ := Bool.and_eq_true_iff.mp (reached.keeps.trans kept)
    rw [shown] at silent
    cases silent
  cursor := by simp [Part.isRemoved, Part.span]
  reaches := by
    rw [endOf_concat]
    exact Text.le_skipBlankBytes boundary within
  within := Text.skipBlankBytes_le boundary within
  clear := by
    rw [endOf_concat]
    exact clear
  begins := by
    rw [endOf_concat]
    exact proper
  settled := by simp [Part.isRemoved]
  plain cut member := by
    rw [reached.earlier_held kept] at member
    rcases List.mem_cons.mp member with rfl | before
    · rfl
    · exact reached.plain cut (List.mem_cons_of_mem _ before)
  gap gap present := by
    obtain rfl := Option.some.inj present
    have cursor := reached.cursor
    rw [if_pos (.inl kept)] at cursor
    exact ⟨done, span, [], rfl, kept, by simp, rfl, behind, reached.settled kept, cursor,
      reached.plain q.current List.mem_cons_self⟩
  covers x hard := by
    have past := Text.le_skipBlankBytes boundary within
    have cursor := reached.cursor
    have here := reached.settled kept
    rw [if_pos (.inl kept)] at cursor
    rw [reached.earlier_held kept, gone_concat_removed, ← reached.covers x hard, Cut.covered_cons,
      Cut.covered_cons]
    constructor
    · rintro (⟨lower, upper⟩ | earlier)
      · refine .inr (.inl ⟨lower, ?_⟩)
        exact Nat.lt_of_not_le fun after => clear x hard ⟨after, upper⟩
      · exact .inl (.inr earlier)
    · rintro ((⟨lower, upper⟩ | earlier) | ⟨lower, upper⟩ | ⟨other, -⟩)
      · omega
      · exact .inr earlier
      · exact .inl ⟨lower, Nat.lt_of_lt_of_le upper past⟩
      · rw [kept] at other
        cases other

include reached behind proper within boundary clear in
/-- A removed child that no kept one stands right before: the cut that is under way goes on. -/
theorem Reached.goOn (gone : endsKept done = false) :
    Reached source start stop solid (done ++ [.removed span])
      { q with
        current := { q.current with stop := Text.skipBlankBytes source span.stop stop } } where
  keeps := by
    rw [endsKept_concat]
    exact reached.keeps.trans gone
  shown silent part member := by
    rcases List.mem_append.mp member with before | last
    · exact reached.shown silent part before
    · rw [List.mem_singleton.mp last]
      rfl
  cursor := by simp [Part.isRemoved, Part.span]
  reaches := by
    rw [endOf_concat]
    exact Text.le_skipBlankBytes boundary within
  within := Text.skipBlankBytes_le boundary within
  clear := by
    rw [endOf_concat]
    exact clear
  begins := by
    rw [endOf_concat]
    exact Nat.le_trans reached.begins (Nat.le_trans behind proper)
  settled := by simp [Part.isRemoved]
  plain cut member := by
    rcases List.mem_cons.mp member with rfl | before
    · exact reached.plain q.current List.mem_cons_self
    · exact reached.plain cut (List.mem_cons_of_mem _ before)
  gap gap present := by
    obtain ⟨before, first, after, split, left, all, here⟩ := reached.gap gap present
    refine ⟨before, first, after ++ [.removed span], ?_, left, ?_, here⟩
    · rw [split, List.append_assoc, List.cons_append]
    · intro part member
      rcases List.mem_append.mp member with earlier | last
      · exact all part earlier
      · rw [List.mem_singleton.mp last]
        rfl
  covers x hard := by
    have past := Text.le_skipBlankBytes boundary within
    have begins := reached.begins
    have passed := reached.clear x hard
    have same : Trace.earlier { q with
        current := { q.current with stop := Text.skipBlankBytes source span.stop stop } } =
          q.earlier := rfl
    rw [gone_concat_removed, ← reached.covers x hard, same, Cut.covered_cons, Cut.covered_cons]
    unfold Cut.Covers
    constructor
    · rintro (⟨lower, upper⟩ | earlier)
      · by_cases old : x < endOf start done
        · exact .inl (.inl ⟨lower, Nat.lt_of_lt_of_le old reached.reaches⟩)
        · by_cases ahead : x < span.start
          · exact .inr (.inr ⟨gone, Nat.le_of_not_lt old, ahead⟩)
          · refine .inr (.inl ⟨Nat.le_of_not_lt ahead, ?_⟩)
            exact Nat.lt_of_not_le fun after => clear x hard ⟨after, upper⟩
      · exact .inl (.inr earlier)
    · rintro ((⟨lower, upper⟩ | earlier) | ⟨lower, upper⟩ | ⟨-, lower, upper⟩)
      · exact .inl ⟨lower, by simp only; omega⟩
      · exact .inr earlier
      · exact .inl ⟨by simp only; omega, by simp only; omega⟩
      · exact .inl ⟨by simp only; omega, by simp only; omega⟩

include reached behind proper within boundary clear in
theorem Reached.removed :
    ∃ next, q.add source stop more (.removed span) = some next ∧
      Reached source start stop solid (done ++ [.removed span]) next := by
  rw [add, reached.keeps]
  cases kept : endsKept done with
  | true =>
    have cursor := reached.cursor
    rw [if_pos (.inl kept)] at cursor
    rw [if_pos rfl, if_pos (by omega)]
    exact ⟨_, rfl, reached.hold span proper within boundary clear kept behind⟩
  | false =>
    rw [if_neg Bool.false_ne_true]
    exact ⟨_, rfl, reached.goOn span behind proper within boundary clear kept⟩

include reached behind in
theorem Reached.add_kept_eq_none_iff :
    q.add source stop more (.kept span []) = none ↔
      (endsKept done = false ∧ done ≠ []) ∧
        span.start < Text.skipBlankBytes source (endOf start done) stop := by
  have cursor := reached.cursor
  rw [add]
  by_cases near : endsKept done = true ∨ done = []
  · rw [if_pos near] at cursor
    rw [if_pos (by omega)]
    constructor
    · intro impossible
      cases impossible
    · rintro ⟨⟨other, filled⟩, -⟩
      rcases near with kept | empty
      · rw [kept] at other
        cases other
      · exact absurd empty filled
  · rw [if_neg near] at cursor
    rw [not_or, Bool.not_eq_true] at near
    rw [cursor]
    by_cases later : Text.skipBlankBytes source (endOf start done) stop ≤ span.start
    · rw [if_pos later]
      constructor
      · intro impossible
        cases impossible
      · rintro ⟨-, past⟩
        omega
    · rw [if_neg later]
      exact ⟨fun _ => ⟨near, Nat.lt_of_not_le later⟩, fun _ => rfl⟩

theorem covered_settled_iff (q : Trace) (x : Nat) :
    Cut.Covered q.settled x ↔ Cut.Covered (q.current :: q.earlier) x := by
  unfold Trace.settled
  rw [Cut.covered_append, Cut.covered_settled, Cut.covered_cons]
  exact or_comm

include reached within in
/-- A kept child: what has been written is settled. -/
theorem Reached.settle :
    Reached source start stop solid (done ++ [.kept span []])
      { cuts := q.settled ++ [], current := { start := span.stop, stop := span.stop },
        emitted := true } where
  keeps := by simp [Part.isRemoved]
  shown silent := by cases silent
  cursor := by simp [Part.isRemoved, Part.span]
  reaches := by
    rw [endOf_concat]
    exact Nat.le_refl _
  within := within
  clear x _ := by
    rw [endOf_concat]
    rintro ⟨lower, upper⟩
    exact absurd lower (Nat.not_le_of_lt upper)
  begins := by
    rw [endOf_concat]
    exact Nat.le_refl _
  settled _ := by
    rw [endOf_concat]
    rfl
  plain cut member := by
    rw [earlier_of_gap_none rfl, List.append_nil] at member
    rcases List.mem_cons.mp member with rfl | old
    · rfl
    · exact reached.plain_settled cut old
  gap gap present := by cases present
  covers x hard := by
    rw [gone_concat_kept, ← reached.covers x hard, ← covered_settled_iff q, earlier_of_gap_none rfl,
      List.append_nil, Cut.covered_cons]
    constructor
    · rintro (⟨lower, upper⟩ | found)
      · exact absurd lower (Nat.not_le_of_lt upper)
      · exact found
    · exact .inr

include reached within in
theorem Reached.kept {next : Trace} (added : q.add source stop more (.kept span []) = some next) :
    Reached source start stop solid (done ++ [.kept span []]) next := by
  rw [add] at added
  split at added
  · obtain rfl := Option.some.inj added
    exact reached.settle span within
  · cases added

include reached behind proper within boundary clear in
/-- One more child, which is kept or removed: it can be added unless it is overtaken. -/
theorem Reached.step {part : Part} (plain : part.Plain) (place : part.span = span)
    (free : ¬Overtaken source stop done) :
    match q.add source stop more part with
    | none => Overtaken source stop (done ++ [part])
    | some next => ¬Overtaken source stop (done ++ [part]) ∧
      Reached source start stop solid (done ++ [part]) next := by
  subst place
  cases part with
  | keyword word offset => exact absurd plain id
  | text content offset => exact absurd plain id
  | removed span =>
    have ⟨next, added, reaching⟩ := reached.removed more span behind proper within boundary clear
    rw [added]
    refine ⟨fun overtaken => ?_, reaching⟩
    rcases overtaken_concat overtaken with before | ⟨span, cuts, impossible, -⟩
    · exact free before
    · cases impossible
  | kept span cuts =>
    obtain rfl : cuts = [] := plain
    have fails := reached.add_kept_eq_none_iff more span behind
    cases added : q.add source stop more (.kept span []) with
    | none =>
      obtain ⟨⟨gone, filled⟩, reach⟩ := fails.mp added
      obtain ⟨before, removed, rfl⟩ := exists_removed_of_endsKept gone filled
      rw [endOf_concat] at reach
      exact ⟨before, removed, span, [], [], by simp, reach⟩
    | some next =>
      refine ⟨fun overtaken => ?_, reached.kept more span within added⟩
      rcases overtaken_concat overtaken with before | ⟨_, _, same, gone, reach⟩
      · exact free before
      · cases same
        rw [fails.mpr ⟨gone, reach start⟩] at added
        cases added

end Step

theorem addAll_reached {parts : List Part} (plain : ∀ part ∈ parts, part.Plain)
    (boundaries : ∀ part ∈ parts, Text.Boundary source part.span.stop)
    (clear : ∀ part ∈ parts, ∀ x, solid x →
      ¬(part.span.stop ≤ x ∧ x < Text.skipBlankBytes source part.span.stop stop))
    (row : InRow (endOf start done) stop (parts.map Part.span))
    (reached : Reached source start stop solid done q) (free : ¬Overtaken source stop done) :
    match q.addAll source stop parts with
    | none => Overtaken source stop (done ++ parts)
    | some next =>
      ¬Overtaken source stop (done ++ parts) ∧
        Reached source start stop solid (done ++ parts) next := by
  induction parts generalizing q done with
  | nil =>
    rw [List.append_nil]
    exact ⟨free, reached⟩
  | cons part rest ih =>
    obtain ⟨behind, proper, later⟩ := row
    have grouped : done ++ part :: rest = (done ++ [part]) ++ rest := by simp
    have onward := @ih (done ++ [part])
    rw [endOf_concat] at onward
    have step := reached.step (rest.any fun later => !later.isRemoved) part.span behind proper
      later.le (boundaries _ List.mem_cons_self) (clear _ List.mem_cons_self)
      (plain _ List.mem_cons_self) rfl free
    rw [addAll, grouped]
    cases added : q.add source stop (rest.any fun later => !later.isRemoved) part with
    | none =>
      rw [added] at step
      exact step.append rest
    | some next =>
      rw [added] at step
      exact onward (fun other member => plain other (List.mem_cons_of_mem _ member))
        (fun other member => boundaries other (List.mem_cons_of_mem _ member))
        (fun other member => clear other (List.mem_cons_of_mem _ member)) later step.2 step.1

theorem Reached.not_trailing (reached : Reached source start stop solid done q) (gap : q.gap = none)
    (x : Nat) : ¬Trailing source start stop done x := by
  rintro ⟨before, span, after, split, kept, all, -⟩
  have past : endsKept done = false := by
    rw [split]
    apply endsKept_append_removed
    intro part member
    rcases List.mem_cons.mp member with rfl | among
    · rfl
    · exact all part among
  have silent : q.emitted = false := by
    have keeps := reached.keeps
    rw [gap, past] at keeps
    simpa using keeps
  obtain ⟨part, among, stays⟩ := exists_kept_of_endsKept kept
  have member : part ∈ done := by
    rw [split]
    exact List.mem_append_left _ among
  rw [reached.shown silent part member] at stays
  cases stays

theorem Reached.cursor_of_gap (reached : Reached source start stop solid done q) {gap : Cut}
    (waiting : q.gap = some gap) :
    q.current.stop = Text.skipBlankBytes source (endOf start done) stop := by
  have ⟨before, span, after, split, _⟩ := reached.gap gap waiting
  have past : endsKept done = false := by
    have keeps := reached.keeps
    rw [waiting, Option.isNone_some, Bool.and_false] at keeps
    exact keeps.symm
  have filled : ¬(endsKept done = true ∨ done = []) := by
    rw [past, split]
    simp
  rw [reached.cursor, if_neg filled]

theorem Reached.covered_earlier (reached : Reached source start stop solid done q) {gap : Cut}
    (waiting : q.gap = some gap) (x : Nat) : Cut.Covered q.earlier x ↔ Cut.Covered q.cuts x := by
  have ⟨before, span, after, _, _, _, _, _, first, last, _⟩ := reached.gap gap waiting
  have nothing : ¬Cut.Covered gap.settled x := by
    rw [Cut.covered_settled]
    rintro ⟨lower, upper⟩
    omega
  unfold earlier
  rw [waiting, Cut.covered_append, Option.toList_some, List.flatMap_singleton]
  exact or_iff_left nothing

theorem Reached.covers_trailing (reached : Reached source start stop solid done q) {gap : Cut}
    (waiting : q.gap = some gap) (full : stop ≤ q.current.stop) {x : Nat} (hard : solid x) :
    Cut.Covered (q.cuts ++ Cut.settled { gap with stop := q.current.stop }) x ↔
      Dropped source start stop done x := by
  obtain ⟨before, span, after, split, kept, all, here, ahead, gapStart, gapStop, -⟩ :=
    reached.gap gap waiting
  have cursor := reached.cursor_of_gap waiting
  rw [dropped_iff, ← reached.covers x hard, Cut.covered_cons, reached.covered_earlier waiting,
    Cut.covered_append, Cut.covered_settled]
  constructor
  · rintro (cut | ⟨lower, upper⟩)
    · exact .inl (.inr cut)
    · by_cases first : x < span.start
      · refine .inr ⟨before, span, after, split, kept, all, by omega, ?_, first⟩
        simp only at lower
        omega
      · exact .inl (.inl ⟨by omega, upper⟩)
  · rintro ((⟨lower, upper⟩ | cut) | ⟨other, place, rest, same, kept', every, -, lower, upper⟩)
    · exact .inr ⟨by simp only; omega, upper⟩
    · exact .inl cut
    · rw [split] at same
      obtain ⟨rfl, rfl⟩ := split_trailing same kept kept' all every
      have := reached.begins
      have := reached.reaches
      exact .inr ⟨by simp only; omega, by simp only; omega⟩

theorem finish_reached (reached : Reached source start stop solid done q) :
    ∃ cuts, q.finish stop = some cuts ∧ (∀ cut ∈ cuts, cut.text = "") ∧
      ∀ x, solid x → (Cut.Covered cuts x ↔ Dropped source start stop done x) := by
  -- unless text at the end goes, the cuts are those made on the way
  have onTheWay (none : ∀ x, ¬Trailing source start stop done x) : ∃ cuts,
      some q.settled = some cuts ∧ (∀ cut ∈ cuts, cut.text = "") ∧
        ∀ x, solid x → (Cut.Covered cuts x ↔ Dropped source start stop done x) := by
    refine ⟨_, rfl, reached.plain_settled, fun x hard => ?_⟩
    rw [covered_settled_iff, reached.covers x hard, dropped_iff]
    exact (or_iff_left (none x)).symm
  unfold finish
  rw [if_pos reached.within]
  cases waiting : q.gap with
  | none => exact onTheWay (reached.not_trailing waiting)
  | some gap =>
    simp only
    by_cases full : stop ≤ q.current.stop
    · rw [if_pos full]
      refine ⟨_, rfl, ?_, fun x hard => reached.covers_trailing waiting full hard⟩
      intro cut member
      rcases List.mem_append.mp member with cuts | last
      · apply reached.plain cut
        exact List.mem_cons_of_mem _ (List.mem_append_left _ cuts)
      · have ⟨_, _, _, _, _, _, _, _, _, _, empty⟩ := reached.gap gap waiting
        rw [mem_settled last]
        exact empty
    · rw [if_neg full]
      apply onTheWay
      rintro x ⟨-, -, -, -, -, -, blank, -⟩
      rw [reached.cursor_of_gap waiting] at full
      omega

/-- The cuts of a node whose children are kept or removed. -/
theorem run_plain {span : Span} {parts : List Part} (plain : ∀ part ∈ parts, part.Plain)
    (boundaries : ∀ part ∈ parts, Text.Boundary source part.span.stop)
    (clear : ∀ part ∈ parts, ∀ x, solid x →
      ¬(part.span.stop ≤ x ∧ x < Text.skipBlankBytes source part.span.stop span.stop))
    (row : InRow span.start span.stop (parts.map Part.span)) :
    match run source span parts with
    | none => Overtaken source span.stop parts
    | some cuts => ¬Overtaken source span.stop parts ∧ (∀ cut ∈ cuts, cut.text = "") ∧
      ∀ x, solid x → (Cut.Covered cuts x ↔ Dropped source span.start span.stop parts x) := by
  have free : ¬Overtaken source span.stop [] := by
    rintro ⟨before, removed, kept, cuts, after, split, -⟩
    cases before <;> cases split
  have opening : InRow (endOf span.start []) span.stop (parts.map Part.span) := row
  have steps := addAll_reached plain boundaries clear opening (.initial source row.le solid) free
  rw [List.nil_append] at steps
  unfold run
  cases added : ({ current := { start := span.start, stop := span.start } } : Trace).addAll source
      span.stop parts with
  | none =>
    rw [added] at steps
    exact steps
  | some q =>
    rw [added] at steps
    obtain ⟨cuts, finished, texts, covers⟩ := finish_reached steps.2
    rw [Option.bind_eq_bind, Option.bind_some, finished]
    exact ⟨steps.1, texts, covers⟩

end Trace

end SpringLint
