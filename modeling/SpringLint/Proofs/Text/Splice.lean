import SpringLint.Proofs.Text.Offsets

/-! Cuts: ranges of a source with what is written in their place. -/

namespace SpringLint

/-- A character of an edited text: one of the source, or one of what was written at `place`. -/
inductive Glyph where
  | copied (offset : Nat) (char : Char)
  | added (place index : Nat) (char : Char)
  deriving DecidableEq, Repr

namespace Glyph

def char : Glyph → Char
  | .copied _ c => c
  | .added _ _ c => c

def text (glyphs : List Glyph) : String :=
  String.ofList (glyphs.map char)

@[simp]
theorem text_append (first second : List Glyph) :
    text (first ++ second) = text first ++ text second := by
  unfold text
  rw [List.map_append, String.ofList_append]

end Glyph

/-- A range of a source and the text that takes its place. -/
structure Cut extends Span where
  text : String := ""
  deriving DecidableEq, Repr

/-- Characters that are written at `place`, of which `index` have been written before. -/
def addedAt (place index : Nat) : List Char → List Glyph
  | [] => []
  | c :: cs => .added place index c :: addedAt place (index + 1) cs

theorem map_char_addedAt (place index : Nat) (cs : List Char) :
    (addedAt place index cs).map Glyph.char = cs := by
  induction cs generalizing index with
  | nil => rfl
  | cons c cs ih => rw [addedAt, List.map_cons, ih]; rfl

namespace Cut

def glyphs (cut : Cut) : List Glyph :=
  addedAt cut.start 0 cut.text.toList

/-- The cut, unless it changes nothing. -/
def settled (cut : Cut) : List Cut :=
  if cut.start = cut.stop ∧ cut.text = "" then [] else [cut]

/-- Whether an offset lies in the range. -/
def Covers (cut : Cut) (x : Nat) : Prop :=
  cut.start ≤ x ∧ x < cut.stop

instance (cut : Cut) (x : Nat) : Decidable (cut.Covers x) :=
  inferInstanceAs (Decidable (_ ∧ _))

def Covered (cuts : List Cut) (x : Nat) : Prop :=
  ∃ cut ∈ cuts, cut.Covers x

instance (cuts : List Cut) (x : Nat) : Decidable (Covered cuts x) :=
  inferInstanceAs (Decidable (∃ cut ∈ cuts, cut.Covers x))

theorem covered_nil {x : Nat} : ¬Covered [] x := by
  rintro ⟨cut, member, -⟩
  cases member

theorem covered_cons {cut : Cut} {rest : List Cut} {x : Nat} :
    Covered (cut :: rest) x ↔ cut.Covers x ∨ Covered rest x := by
  unfold Covered
  simp only [List.mem_cons, or_and_right, exists_or, exists_eq_left]

theorem covered_append {first second : List Cut} {x : Nat} :
    Covered (first ++ second) x ↔ Covered first x ∨ Covered second x := by
  unfold Covered
  simp only [List.mem_append, or_and_right, exists_or]

theorem covered_settled {cut : Cut} {x : Nat} : Covered cut.settled x ↔ cut.Covers x := by
  unfold settled
  split
  · constructor
    · intro impossible
      exact absurd impossible covered_nil
    · rintro ⟨lower, upper⟩
      omega
  · rw [covered_cons]
    exact or_iff_left covered_nil

theorem text_glyphs (cut : Cut) : Glyph.text cut.glyphs = cut.text := by
  unfold Glyph.text glyphs
  rw [map_char_addedAt, String.ofList_toList]

end Cut

namespace Text

/-- The characters of a source from `start` up to `stop`. -/
def copied (s : String) (start stop : Nat) : List Glyph :=
  (range s start stop).map fun x => .copied x.1 x.2

/-- A range of a source with cuts in it, in the order in which they stand. -/
def spliced (s : String) (start stop : Nat) : List Cut → List Glyph
  | [] => copied s start stop
  | cut :: rest => copied s start cut.start ++ cut.glyphs ++ spliced s cut.stop stop rest

variable {s : String} {start middle stop : Nat}

theorem copied_append (first : start ≤ middle) (second : middle ≤ stop) :
    copied s start middle ++ copied s middle stop = copied s start stop := by
  unfold copied
  rw [← List.map_append, range_append s first second]

theorem range_self (s : String) (pos : Nat) : range s pos pos = [] := by
  apply List.filter_eq_nil_iff.mpr
  intro x _
  simp only [Bool.and_eq_true, decide_eq_true_eq]
  omega

theorem copied_self (s : String) (pos : Nat) : copied s pos pos = [] := by
  unfold copied
  rw [range_self, List.map_nil]

theorem text_copied (first : Boundary s start) (second : Boundary s stop) (ordered : start ≤ stop) :
    slice? s start stop = some (Glyph.text (copied s start stop)) := by
  have same : (copied s start stop).map Glyph.char = (range s start stop).map Prod.snd := by
    unfold copied
    rw [List.map_map]
    rfl
  unfold Glyph.text
  rw [same]
  exact slice?_of_boundary first second ordered

theorem spliced_append {cuts more : List Cut} (row : InRow start middle (cuts.map Cut.toSpan))
    (later : InRow middle stop (more.map Cut.toSpan)) :
    spliced s start stop (cuts ++ more) = spliced s start middle cuts ++ spliced s middle stop more := by
  induction cuts generalizing start with
  | nil =>
    cases more with
    | nil => exact (copied_append row later).symm
    | cons cut rest =>
      have joined := copied_append (s := s) row later.1
      rw [List.nil_append, spliced, spliced, spliced, ← joined]
      simp only [List.append_assoc]
  | cons cut rest ih =>
    rw [List.cons_append, spliced, spliced, ih row.2.2]
    simp only [List.append_assoc]

theorem spliced_settled (cut : Cut) :
    spliced s cut.start cut.stop cut.settled = cut.glyphs := by
  unfold Cut.settled
  split
  · rename_i trivial
    unfold Cut.glyphs
    rw [trivial.1, trivial.2]
    exact copied_self s cut.stop
  · rw [spliced, spliced, copied_self, copied_self, List.nil_append, List.append_nil]

theorem spliced_fuse (before after : List Cut) (x : Nat) (text : String) :
    spliced s start stop (before ++ { start := x, stop := x, text := text } ::
        { start := x, stop := middle } :: after) =
      spliced s start stop (before ++ { start := x, stop := middle, text := text } :: after) := by
  induction before generalizing start with
  | nil =>
    have none : Cut.glyphs { start := x, stop := middle } = [] := rfl
    simp only [List.nil_append, spliced, copied_self, none]
    rfl
  | cons cut rest ih => rw [List.cons_append, List.cons_append, spliced, spliced, ih]

theorem inRow_settled (cut : Cut) (proper : cut.start ≤ cut.stop) :
    InRow cut.start cut.stop (cut.settled.map Cut.toSpan) := by
  unfold Cut.settled
  split
  · exact proper
  · exact ⟨Nat.le_refl _, proper, Nat.le_refl _⟩

theorem mem_range_iff {x : Nat × Char} :
    x ∈ range s start stop ↔ x ∈ placed 0 s.toList ∧ start ≤ x.1 ∧ x.1 < stop := by
  unfold range
  rw [List.mem_filter, Bool.and_eq_true, decide_eq_true_eq, decide_eq_true_eq]

theorem range_whole (s : String) : range s 0 s.utf8ByteSize = placed 0 s.toList := by
  apply List.filter_eq_self.mpr
  intro x member
  have bounds := bounds_of_mem_placed member
  have positive := x.2.utf8Size_pos
  rw [Javadoc.byteLength_toList] at bounds
  simp only [Bool.and_eq_true, decide_eq_true_eq]
  omega

theorem not_covered_of_lt {cuts : List Cut} (row : InRow start stop (cuts.map Cut.toSpan)) {x : Nat}
    (before : x < start) : ¬Cut.Covered cuts x := by
  rintro ⟨cut, member, lower, -⟩
  have := (row.contains (List.mem_map_of_mem member)).1
  omega

theorem spliced_of_empty {cuts : List Cut} (row : InRow start stop (cuts.map Cut.toSpan))
    (empty : ∀ cut ∈ cuts, cut.text = "") :
    spliced s start stop cuts =
      ((range s start stop).filter fun x => !decide (Cut.Covered cuts x.1)).map
        fun x => .copied x.1 x.2 := by
  induction cuts generalizing start with
  | nil =>
    have all : ((range s start stop).filter fun x => !decide (Cut.Covered [] x.1)) =
        range s start stop := List.filter_eq_self.mpr fun _ _ => rfl
    rw [all]
    rfl
  | cons cut rest ih =>
    obtain ⟨behind, proper, later⟩ := row
    have none : cut.glyphs = [] := by
      unfold Cut.glyphs
      rw [empty cut List.mem_cons_self]
      rfl
    have ahead : ((range s start cut.start).filter fun x => !decide (Cut.Covered (cut :: rest) x.1)) =
        range s start cut.start := by
      apply List.filter_eq_self.mpr
      intro x member
      obtain ⟨-, -, upper⟩ := mem_range_iff.mp member
      have free := not_covered_of_lt later (Nat.lt_of_lt_of_le upper proper)
      rw [decide_eq_false]
      · rfl
      · rw [Cut.covered_cons, not_or]
        exact ⟨fun covers => Nat.not_le_of_lt upper covers.1, free⟩
    have inside : ((range s cut.start cut.stop).filter fun x =>
        !decide (Cut.Covered (cut :: rest) x.1)) = [] := by
      apply List.filter_eq_nil_iff.mpr
      intro x member
      obtain ⟨-, lower, upper⟩ := mem_range_iff.mp member
      rw [decide_eq_true (Cut.covered_cons.mpr (.inl ⟨lower, upper⟩))]
      exact Bool.false_ne_true
    have beyond : ((range s cut.stop stop).filter fun x =>
        !decide (Cut.Covered (cut :: rest) x.1)) =
        (range s cut.stop stop).filter fun x => !decide (Cut.Covered rest x.1) := by
      apply List.filter_congr
      intro x member
      obtain ⟨-, lower, -⟩ := mem_range_iff.mp member
      have past : ¬cut.Covers x.1 := fun covers => Nat.not_lt_of_le lower covers.2
      simp only [Cut.covered_cons, past, false_or]
    rw [spliced, none, List.append_nil,
      ih later fun other member => empty other (List.mem_cons_of_mem _ member),
      ← range_append s behind (Nat.le_trans proper later.le), ← range_append s proper later.le,
      List.filter_append, List.filter_append, ahead, inside, beyond, List.nil_append,
      List.map_append]
    rfl

end Text

end SpringLint
