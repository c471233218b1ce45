import SpringLint.Proofs.Syntax.Cuts

/-! The cuts of nodes at which little happens: one child is removed, or one is added. -/

namespace SpringLint

theorem Cut.settled_of_text {cut : Cut} (filled : cut.text ≠ "") : cut.settled = [cut] := by
  rw [Cut.settled, if_neg fun trivial => filled trivial.2]

theorem blank_append_ne_empty (word : String) : " " ++ word ≠ "" := by
  intro empty
  have := congrArg String.length empty
  simp at this

theorem append_blank_ne_empty (word : String) : word ++ " " ≠ "" := by
  intro empty
  have := congrArg String.length empty
  simp at this

def keeps (spans : List Span) : List Part :=
  spans.map fun span => .kept span []

namespace Trace

variable {source : String} {stop : Nat} {q : Trace}

/-- A trace whose last child ended at `x`. -/
def resting (cuts : List Cut) (x : Nat) : Trace :=
  { cuts := cuts, current := { start := x, stop := x }, emitted := true }

theorem settled_resting (cuts : List Cut) (x : Nat) : (resting cuts x).settled = cuts := by
  unfold settled earlier resting Cut.settled
  simp

theorem settled_of_gap_none (none : q.gap = none) : q.settled = q.cuts ++ q.current.settled := by
  unfold settled
  rw [earlier_of_gap_none none]

theorem addAll_kept (q : Trace) {span : Span} (behind : q.current.stop ≤ span.start)
    (rest : List Part) :
    q.addAll source stop (.kept span [] :: rest) =
      (resting q.settled span.stop).addAll source stop rest := by
  rw [addAll, add, if_pos behind, List.append_nil]
  rfl

theorem addAll_keeps (q : Trace) {spans : List Span} {last : Span}
    (row : InRow q.current.stop stop spans) (ends : spans.getLast? = some last) (rest : List Part) :
    q.addAll source stop (keeps spans ++ rest) =
      (resting q.settled last.stop).addAll source stop rest := by
  induction spans generalizing q with
  | nil => cases ends
  | cons span more ih =>
    obtain ⟨behind, -, later⟩ := row
    have step : q.addAll source stop (keeps (span :: more) ++ rest) =
        (resting q.settled span.stop).addAll source stop (keeps more ++ rest) :=
      addAll_kept q behind _
    rw [step]
    cases more with
    | nil =>
      obtain rfl := Option.some.inj ends
      rfl
    | cons next others =>
      rw [List.getLast?_cons_cons] at ends
      rw [ih (resting q.settled span.stop) later ends, settled_resting]

theorem finish_of_gap_none (none : q.gap = none) (within : q.current.stop ≤ stop) :
    q.finish stop = some q.settled := by
  rw [finish, if_pos within, none]

theorem finish_resting (cuts : List Cut) {x : Nat} (within : x ≤ stop) :
    (resting cuts x).finish stop = some cuts := by
  have done : (resting cuts x).finish stop = some (resting cuts x).settled :=
    finish_of_gap_none rfl within
  rwa [settled_resting] at done

theorem finish_keeps {spans : List Span} (none : q.gap = none)
    (row : InRow q.current.stop stop spans) :
    (q.addAll source stop (keeps spans)).bind (finish stop) = some q.settled := by
  cases ends : spans.getLast? with
  | none =>
    obtain rfl := List.getLast?_eq_none_iff.mp ends
    exact finish_of_gap_none none row
  | some last =>
    have within : last.stop ≤ stop := (row.contains (List.mem_of_getLast? ends)).2.2
    have run : q.addAll source stop (keeps spans ++ []) = _ := q.addAll_keeps row ends []
    rw [List.append_nil] at run
    rw [run]
    exact finish_resting _ within

/-- A trace that has just passed over a removed child, and has kept the text ahead of it. -/
def gapped (q : Trace) (start next : Nat) : Trace :=
  { cuts := q.cuts, gap := some q.current, current := { start := start, stop := next },
    emitted := true }

theorem settled_gapped (none : q.gap = none) (start next : Nat) :
    (q.gapped start next).settled = q.settled ++ Cut.settled { start := start, stop := next } := by
  rw [settled_of_gap_none none]
  unfold settled earlier gapped
  rw [Option.toList_some, List.flatMap_singleton]

theorem addAll_removed (q : Trace) {span : Span} (shown : q.emitted = true) (none : q.gap = none)
    (behind : q.current.stop ≤ span.start) (rest : List Part) :
    q.addAll source stop (.removed span :: rest) =
      (q.gapped span.start (Text.skipBlankBytes source span.stop stop)).addAll source stop rest := by
  rw [addAll, add, shown, none]
  simp only [Option.isNone_none, Bool.and_self, if_true]
  rw [if_pos behind]
  unfold gapped
  rfl

theorem finish_gapped (q : Trace) (start : Nat) {next : Nat} (within : next ≤ stop) :
    (q.gapped start next).finish stop =
      if stop ≤ next then some (q.cuts ++ Cut.settled { q.current with stop := next })
      else some (q.gapped start next).settled := by
  have bound : (q.gapped start next).current.stop ≤ stop := within
  rw [finish, if_pos bound]
  rfl

theorem addAll_text (q : Trace) (content : String) {offset : Nat} (behind : q.current.stop ≤ offset)
    (rest : List Part) :
    q.addAll source stop (.text content offset :: rest) =
      ({ cuts := q.settled, current := { start := offset, stop := offset, text := content },
         emitted := true } : Trace).addAll source stop rest := by
  rw [addAll, add, Nat.max_eq_left behind]
  rfl

theorem addAll_keyword_resting (cuts : List Cut) (x : Nat) (word : String) (offset : Nat) :
    (resting cuts x).addAll source stop [.keyword word offset] =
      some { cuts := cuts, current := { start := x, stop := x, text := " " ++ word },
             emitted := true } := by
  rw [addAll, add]
  simp [resting, earlier, addAll]

theorem addAll_keyword_gapped (q : Trace) (start next : Nat) (word : String) (offset : Nat) :
    (q.gapped start next).addAll source stop [.keyword word offset] =
      some { cuts := (q.gapped start next).earlier,
             current := { start := start, stop := next, text := word }, emitted := true } := by
  rw [addAll, add]
  simp [gapped, addAll]

def opening (start : Nat) : Trace :=
  { current := { start := start, stop := start } }

theorem settled_opening (start : Nat) : (opening start).settled = [] := by
  unfold settled earlier opening Cut.settled
  simp

theorem run_eq (source : String) (span : Span) (parts : List Part) :
    run source span parts =
      ((opening span.start).addAll source span.stop parts).bind (finish span.stop) := rfl

theorem run_keeps (source : String) {span : Span} {spans : List Span}
    (row : InRow span.start span.stop spans) : run source span (keeps spans) = some [] := by
  have done : ((opening span.start).addAll source span.stop (keeps spans)).bind (finish span.stop) =
      some (opening span.start).settled := finish_keeps rfl row
  rwa [settled_opening] at done

theorem run_text (source : String) {span : Span} {before after : List Span} (content : String)
    {offset : Nat} (ahead : InRow span.start offset before)
    (behind : InRow offset span.stop after) :
    run source span (keeps before ++ .text content offset :: keeps after) =
      some (Cut.settled { start := offset, stop := offset, text := content }) := by
  let written (cuts : List Cut) : Trace :=
    { cuts := cuts, current := { start := offset, stop := offset, text := content }, emitted := true }
  have done : ((written []).addAll source span.stop (keeps after)).bind (finish span.stop) =
      some (written []).settled := finish_keeps rfl behind
  have settled : (written []).settled = Cut.settled { start := offset, stop := offset, text := content } :=
    settled_of_gap_none rfl
  rw [run_eq, ← settled, ← done]
  cases ends : before.getLast? with
  | none =>
    obtain rfl := List.getLast?_eq_none_iff.mp ends
    have step : (opening span.start).addAll source span.stop (.text content offset :: keeps after) =
        (written (opening span.start).settled).addAll source span.stop (keeps after) :=
      addAll_text _ content ahead _
    rw [settled_opening] at step
    exact congrArg (·.bind (finish span.stop)) step
  | some last =>
    have place : last.stop ≤ offset := (ahead.contains (List.mem_of_getLast? ends)).2.2
    have row : InRow (opening span.start).current.stop span.stop before :=
      ahead.widen (Nat.le_refl _) behind.le
    have step : (resting [] last.stop).addAll source span.stop (.text content offset :: keeps after) =
        (written (resting [] last.stop).settled).addAll source span.stop (keeps after) :=
      addAll_text _ content place _
    rw [settled_resting] at step
    rw [addAll_keeps _ row ends, settled_opening, step]

end Trace

/-- The cuts at a node from which one child goes, and to which a keyword may be added. -/
def strokes (source : String) (span removed : Span) (before after : List Span) (word : Option String) :
    List Cut :=
  let next := Text.skipBlankBytes source removed.stop span.stop
  match before.getLast?, after.getLast?, word with
  | none, none, _ => []
  | none, some last, word =>
    Cut.settled { start := span.start, stop := next } ++
      word.toList.map fun word => { start := last.stop, stop := last.stop, text := " " ++ word }
  | some _, some last, word =>
    Cut.settled { start := removed.start, stop := next } ++
      word.toList.map fun word => { start := last.stop, stop := last.stop, text := " " ++ word }
  | some _, none, some word => Cut.settled { start := removed.start, stop := next, text := word }
  | some last, none, none =>
    Cut.settled { start := if span.stop ≤ next then last.stop else removed.start, stop := next }

namespace Trace

theorem finish_tail (source : String) {stop x : Nat} (cuts : List Cut) (word : Option String)
    (offset : Nat) (within : x ≤ stop) :
    ((resting cuts x).addAll source stop (word.toList.map fun word => .keyword word offset)).bind
        (finish stop) =
      some (cuts ++ word.toList.map fun word => { start := x, stop := x, text := " " ++ word }) := by
  cases word with
  | none =>
    rw [Option.toList_none, List.map_nil, List.map_nil, List.append_nil]
    exact finish_resting cuts within
  | some word =>
    have tail : Cut.settled { start := x, stop := x, text := " " ++ word } =
        [{ start := x, stop := x, text := " " ++ word }] :=
      Cut.settled_of_text (blank_append_ne_empty word)
    rw [Option.toList_some, List.map_singleton, List.map_singleton, addAll_keyword_resting,
      Option.bind_some, finish_of_gap_none rfl within, settled_of_gap_none rfl, tail]

theorem run_removed_first (source : String) {span removed last : Span} {after : List Span}
    (free : InRow (Text.skipBlankBytes source removed.stop span.stop) span.stop after)
    (closes : after.getLast? = some last) (word : Option String) (offset : Nat) :
    run source span (.removed removed ::
        (keeps after ++ word.toList.map fun word => .keyword word offset)) =
      some (strokes source span removed [] after word) := by
  let skipped : Trace :=
    { current := { start := span.start, stop := Text.skipBlankBytes source removed.stop span.stop } }
  have step : (opening span.start).addAll source span.stop (.removed removed ::
      (keeps after ++ word.toList.map fun word => .keyword word offset)) =
        skipped.addAll source span.stop
          (keeps after ++ word.toList.map fun word => .keyword word offset) := rfl
  have settled : skipped.settled = Cut.settled
      { start := span.start, stop := Text.skipBlankBytes source removed.stop span.stop } :=
    settled_of_gap_none rfl
  have limit := (free.contains (List.mem_of_getLast? closes)).2.2
  rw [run_eq, step, skipped.addAll_keeps free closes, settled, finish_tail source _ word offset limit]
  unfold strokes
  rw [List.getLast?_nil, closes]

theorem finish_removed {span removed last : Span} {after : List Span} (q : Trace)
    (free : InRow (Text.skipBlankBytes source removed.stop span.stop) span.stop after)
    (closes : after.getLast? = some last) (shown : q.emitted = true) (none : q.gap = none)
    (behind : q.current.stop ≤ removed.start) :
    (q.addAll source span.stop (.removed removed :: keeps after)).bind (finish span.stop) =
      some (q.settled ++ Cut.settled { start := removed.start,
                                       stop := Text.skipBlankBytes source removed.stop span.stop }) := by
  have limit := (free.contains (List.mem_of_getLast? closes)).2.2
  have run : (q.gapped removed.start (Text.skipBlankBytes source removed.stop span.stop)).addAll
      source span.stop (keeps after ++ []) = _ := addAll_keeps _ free closes []
  rw [List.append_nil, settled_gapped none] at run
  rw [addAll_removed q shown none behind, run]
  exact finish_resting _ limit

theorem addAll_keyword_opening (source : String) (start stop : Nat) (word : String) (offset : Nat)
    {parts : List Part} (more : (parts.any fun later => !later.isRemoved) = true) :
    (opening start).addAll source stop (.keyword word offset :: parts) =
      ({ current := { start := start, stop := start, text := word ++ " " },
         emitted := true } : Trace).addAll source stop parts := by
  rw [addAll, add, more]
  simp [opening, earlier]

section Removed

variable (source : String) {span removed : Span} {before after : List Span}
  (ahead : InRow span.start removed.start before) (proper : removed.start ≤ removed.stop)
  (within : removed.stop ≤ span.stop)

include ahead proper within

theorem addAll_before {last : Span}
    (ends : before.getLast? = some last) (rest : List Part) :
    (opening span.start).addAll source span.stop (keeps before ++ .removed removed :: rest) =
      ((resting [] last.stop).gapped removed.start
        (Text.skipBlankBytes source removed.stop span.stop)).addAll source span.stop rest := by
  have place : last.stop ≤ removed.start := (ahead.contains (List.mem_of_getLast? ends)).2.2
  have row : InRow (opening span.start).current.stop span.stop before :=
    ahead.widen (Nat.le_refl _) (Nat.le_trans proper within)
  rw [addAll_keeps _ row ends, settled_opening, addAll_removed (resting [] last.stop) rfl rfl place]

theorem run_removed_last {first : Span} (ends : before.getLast? = some first)
    (limit : Text.skipBlankBytes source removed.stop span.stop ≤ span.stop) (word : Option String)
    (offset : Nat) :
    run source span (keeps before ++ .removed removed ::
        word.toList.map fun word => .keyword word offset) =
      some (strokes source span removed before [] word) := by
  rw [run_eq, addAll_before source ahead proper within ends]
  unfold strokes
  rw [ends, List.getLast?_nil]
  cases word with
  | some word =>
    have earlier : ((resting [] first.stop).gapped removed.start
        (Text.skipBlankBytes source removed.stop span.stop)).earlier = [] := by
      unfold Trace.earlier gapped resting Cut.settled
      simp
    rw [Option.toList_some, List.map_singleton, addAll_keyword_gapped, Option.bind_some,
      finish_of_gap_none rfl limit, settled_of_gap_none rfl, earlier, List.nil_append]
  | none =>
    have done := finish_gapped (resting [] first.stop) removed.start limit
    rw [settled_gapped rfl, settled_resting, List.nil_append] at done
    refine Eq.trans done ?_
    by_cases full : span.stop ≤ Text.skipBlankBytes source removed.stop span.stop
    · simp only [if_pos full]
      rfl
    · simp only [if_neg full]

theorem run_removed (free : InRow (Text.skipBlankBytes source removed.stop span.stop) span.stop after)
    (word : Option String) (offset : Nat)
    (others : before ≠ [] ∨ after ≠ []) :
    run source span (keeps before ++ .removed removed ::
        (keeps after ++ word.toList.map fun word => .keyword word offset)) =
      some (strokes source span removed before after word) := by
  cases closes : after.getLast? with
  | none =>
    obtain rfl := List.getLast?_eq_none_iff.mp closes
    obtain ⟨first, ends⟩ : ∃ first, before.getLast? = some first :=
      ⟨_, List.getLast?_eq_some_getLast (others.resolve_right fun filled => filled rfl)⟩
    exact run_removed_last source ahead proper within ends free word offset
  | some last =>
    cases ends : before.getLast? with
    | none =>
      obtain rfl := List.getLast?_eq_none_iff.mp ends
      exact run_removed_first source free closes word offset
    | some first =>
      have limit := (free.contains (List.mem_of_getLast? closes)).2.2
      rw [run_eq, addAll_before source ahead proper within ends, addAll_keeps _ free closes,
        settled_gapped rfl, settled_resting, List.nil_append, finish_tail source _ word offset limit]
      unfold strokes
      rw [ends, closes]

theorem run_keyword_removed
    (free : InRow (Text.skipBlankBytes source removed.stop span.stop) span.stop after)
    (word : String) (offset : Nat) (filled : after ≠ []) :
    run source span (.keyword word offset :: (keeps before ++ .removed removed :: keeps after)) =
      some ({ start := span.start, stop := span.start, text := word ++ " " } ::
        Cut.settled { start := removed.start,
                      stop := Text.skipBlankBytes source removed.stop span.stop }) := by
  let written : Trace :=
    { current := { start := span.start, stop := span.start, text := word ++ " " }, emitted := true }
  have settled : written.settled = [{ start := span.start, stop := span.start, text := word ++ " " }] := by
    rw [settled_of_gap_none rfl]
    exact Cut.settled_of_text (append_blank_ne_empty word)
  have more : ((keeps before ++ .removed removed :: keeps after).any fun later => !later.isRemoved) =
      true := by
    obtain ⟨span, rest, rfl⟩ := List.exists_cons_of_ne_nil filled
    simp [keeps, Part.isRemoved]
  obtain ⟨last, closes⟩ : ∃ last, after.getLast? = some last :=
    ⟨_, List.getLast?_eq_some_getLast filled⟩
  rw [run_eq, addAll_keyword_opening source span.start span.stop word offset more]
  cases ends : before.getLast? with
  | none =>
    obtain rfl := List.getLast?_eq_none_iff.mp ends
    have done := finish_removed written free closes rfl rfl ahead
    rw [settled] at done
    exact done
  | some first =>
    have place : first.stop ≤ removed.start := (ahead.contains (List.mem_of_getLast? ends)).2.2
    have row : InRow written.current.stop span.stop before :=
      ahead.widen (Nat.le_refl _) (Nat.le_trans proper within)
    have done := finish_removed (resting written.settled first.stop) free closes rfl rfl place
    rw [settled_resting, settled] at done
    rw [addAll_keeps written row ends, settled]
    exact done

end Removed

end Trace

/-- A cut stands ahead of another. -/
def Cut.Before (c d : Cut) : Prop :=
  c.stop ≤ d.start ∧ c.start < d.stop

theorem Cut.nodup_of_before {cuts : List Cut} (ordered : cuts.Pairwise Cut.Before) : cuts.Nodup := by
  apply ordered.imp
  rintro c d before rfl
  have := before.1
  have := before.2
  omega

/-- Cuts between two offsets: on characters, with text between any two, and none that changes
nothing. -/
structure Fitting (source : String) (start stop : Nat) (cuts : List Cut) : Prop where
  ends : ∀ cut ∈ cuts, Text.Boundary source cut.start ∧ Text.Boundary source cut.stop
  within : ∀ cut ∈ cuts, start ≤ cut.start ∧ cut.start ≤ cut.stop ∧ cut.stop ≤ stop
  real : ∀ cut ∈ cuts, cut.text = "" → cut.start < cut.stop
  apart : cuts.Pairwise fun c d => c.stop < d.start

namespace Fitting

variable {source : String} {start stop : Nat} {cuts more : List Cut}

theorem nil (source : String) (start stop : Nat) : Fitting source start stop [] where
  ends _ member := by cases member
  within _ member := by cases member
  real _ member := by cases member
  apart := .nil

section Cut

variable {cut : Cut} (first : Text.Boundary source cut.start) (second : Text.Boundary source cut.stop)
  (lower : start ≤ cut.start) (proper : cut.start ≤ cut.stop) (upper : cut.stop ≤ stop)

include first second lower proper upper

theorem singleton (real : cut.text = "" → cut.start < cut.stop) : Fitting source start stop [cut] := by
  refine ⟨?_, ?_, ?_, List.pairwise_singleton _ _⟩
  · intro other member
    rw [List.mem_singleton.mp member]
    exact ⟨first, second⟩
  · intro other member
    rw [List.mem_singleton.mp member]
    exact ⟨lower, proper, upper⟩
  · intro other member
    rw [List.mem_singleton.mp member]
    exact real

theorem settled : Fitting source start stop cut.settled := by
  unfold Cut.settled
  split
  · exact nil source start stop
  · rename_i changes
    apply singleton first second lower proper upper
    intro empty
    apply Nat.lt_of_le_of_ne proper
    intro same
    exact changes ⟨same, empty⟩

end Cut

theorem insertion {x : Nat} {text : String} (boundary : Text.Boundary source x) (lower : start ≤ x)
    (upper : x ≤ stop) (filled : text ≠ "") :
    Fitting source start stop [{ start := x, stop := x, text := text }] :=
  singleton boundary boundary lower (Nat.le_refl _) upper fun empty => absurd empty filled

theorem append {middle next : Nat} (first : Fitting source start middle cuts)
    (second : Fitting source next stop more) (between : middle < next) (lower : start ≤ next)
    (upper : middle ≤ stop) : Fitting source start stop (cuts ++ more) := by
  refine ⟨?_, ?_, ?_, ?_⟩
  · intro cut member
    exact (List.mem_append.mp member).elim (first.ends cut) (second.ends cut)
  · intro cut member
    rcases List.mem_append.mp member with early | late
    · have := first.within cut early
      omega
    · have := second.within cut late
      omega
  · intro cut member
    exact (List.mem_append.mp member).elim (first.real cut) (second.real cut)
  · refine List.pairwise_append.mpr ⟨first.apart, second.apart, ?_⟩
    intro c early d late
    have := first.within c early
    have := second.within d late
    omega

theorem widen {first last : Nat} (fitting : Fitting source start stop cuts) (lower : first ≤ start)
    (upper : stop ≤ last) : Fitting source first last cuts where
  ends := fitting.ends
  within cut member := by
    have := fitting.within cut member
    omega
  real := fitting.real
  apart := fitting.apart

theorem before (fitting : Fitting source start stop cuts) : cuts.Pairwise Cut.Before := by
  apply fitting.apart.imp_of_mem
  intro c d first second apart
  have left := fitting.within c first
  have right := fitting.within d second
  unfold Cut.Before
  omega

end Fitting

theorem InRow.lt_stop_last {start stop : Nat} {spans : List Span} {last : Span}
    (row : InRow start stop spans) (filled : ∀ span ∈ spans.head?, span.start < span.stop)
    (ends : spans.getLast? = some last) : start < last.stop := by
  cases spans with
  | nil => cases ends
  | cons span rest =>
    have longer := filled span rfl
    obtain ⟨behind, proper, later⟩ := row
    rcases List.mem_cons.mp (List.mem_of_getLast? ends) with rfl | among
    · omega
    · have := later.contains among
      omega

theorem Fitting.keyword {source : String} {x stop : Nat} (boundary : Text.Boundary source x)
    (upper : x ≤ stop) (word : Option String) :
    Fitting source x stop (word.toList.map fun word =>
      { start := x, stop := x, text := " " ++ word }) := by
  cases word with
  | none => exact .nil _ _ _
  | some word => exact .insertion boundary (Nat.le_refl _) upper (blank_append_ne_empty word)

theorem fitting_strokes {source : String} {span removed : Span} {before after : List Span}
    (ahead : InRow span.start removed.start before) (proper : removed.start ≤ removed.stop)
    (within : removed.stop ≤ span.stop)
    (free : InRow (Text.skipBlankBytes source removed.stop span.stop) span.stop after)
    (filled : ∀ s ∈ after.head?, s.start < s.stop)
    (ends : ∀ s ∈ span :: removed :: (before ++ after),
      Text.Boundary source s.start ∧ Text.Boundary source s.stop) (word : Option String) :
    Fitting source span.start span.stop (strokes source span removed before after word) := by
  have whole := ends span List.mem_cons_self
  have gone := ends removed (List.mem_cons_of_mem _ List.mem_cons_self)
  have skipped := Text.le_skipBlankBytes gone.2 within
  have limit := Text.skipBlankBytes_le gone.2 within
  have next := Text.boundary_skipBlankBytes gone.2 within
  have place := ahead.le
  have trailing {last : Span} (closes : after.getLast? = some last) :
      Fitting source last.stop span.stop (word.toList.map fun word =>
        { start := last.stop, stop := last.stop, text := " " ++ word }) := by
    have among : last ∈ after := List.mem_of_getLast? closes
    exact .keyword (ends last (by simp [among])).2 (free.contains among).2.2 word
  have taken {x : Nat} (text : String) (boundary : Text.Boundary source x) (lower : span.start ≤ x)
      (upper : x ≤ removed.stop) :
      Fitting source span.start (Text.skipBlankBytes source removed.stop span.stop)
        (Cut.settled { start := x, stop := Text.skipBlankBytes source removed.stop span.stop,
                       text := text }) :=
    .settled boundary next lower (Nat.le_trans upper skipped) (Nat.le_refl _)
  unfold strokes
  cases opens : before.getLast? with
  | none =>
    cases closes : after.getLast? with
    | none => exact .nil _ _ _
    | some last =>
      have room := free.lt_stop_last filled closes
      exact (taken "" whole.1 (Nat.le_refl _) (by omega)).append (trailing closes) room (by omega) limit
  | some first =>
    have among : first ∈ before := List.mem_of_getLast? opens
    have previous := (ends first (by simp [among])).2
    have bounds := ahead.contains among
    cases closes : after.getLast? with
    | some last =>
      have room := free.lt_stop_last filled closes
      exact (taken "" gone.1 place proper).append (trailing closes) room (by omega) limit
    | none =>
      cases word with
      | some word => exact (taken word gone.1 place proper).widen (Nat.le_refl _) limit
      | none =>
        by_cases full : span.stop ≤ Text.skipBlankBytes source removed.stop span.stop
        · simp only [if_pos full]
          exact (taken "" previous (by omega) (by omega)).widen (Nat.le_refl _) limit
        · simp only [if_neg full]
          exact (taken "" gone.1 place proper).widen (Nat.le_refl _) limit

end SpringLint
