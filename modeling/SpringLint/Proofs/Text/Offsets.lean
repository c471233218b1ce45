import SpringLint.Syntax.Javadoc

/-! Spans in a row, the characters of a text with the offsets at which they stand, and what slices
take of them. -/

namespace SpringLint

theorem eq_or_of_pairwise {α : Type} {R : α → α → Prop} {items : List α} (ordered : items.Pairwise R)
    {a b : α} (first : a ∈ items) (second : b ∈ items) : a = b ∨ R a b ∨ R b a :=
  List.Pairwise.forall_of_forall_of_flip (R := fun a b => a = b ∨ R a b ∨ R b a)
    (fun _ _ => .inl rfl) (ordered.imp fun before => .inr (.inl before))
    (ordered.imp fun before => .inr (.inr before)) first second

/-- Spans that stand in a row from `start` to `stop`: in order, without overlap, each inside. -/
def InRow (start stop : Nat) : List Span → Prop
  | [] => start ≤ stop
  | span :: rest => start ≤ span.start ∧ span.start ≤ span.stop ∧ InRow span.stop stop rest

instance decidableInRow (start stop : Nat) : (spans : List Span) → Decidable (InRow start stop spans)
  | [] => inferInstanceAs (Decidable (start ≤ stop))
  | span :: rest =>
    have := decidableInRow span.stop stop rest
    inferInstanceAs (Decidable (_ ∧ _ ∧ _))

@[simp]
theorem inRow_nil {start stop : Nat} : InRow start stop [] ↔ start ≤ stop := Iff.rfl

@[simp]
theorem inRow_cons {start stop : Nat} {span : Span} {rest : List Span} :
    InRow start stop (span :: rest) ↔
      start ≤ span.start ∧ span.start ≤ span.stop ∧ InRow span.stop stop rest := Iff.rfl

namespace InRow

theorem le {start stop : Nat} {spans : List Span} (row : InRow start stop spans) :
    start ≤ stop := by
  induction spans generalizing start with
  | nil => exact row
  | cons span rest ih =>
    obtain ⟨first, proper, later⟩ := row
    have := ih later
    omega

theorem append_iff {start stop : Nat} {before after : List Span} :
    InRow start stop (before ++ after) ↔
      ∃ middle, InRow start middle before ∧ InRow middle stop after := by
  induction before generalizing start with
  | nil =>
    constructor
    · intro row
      exact ⟨start, Nat.le_refl start, row⟩
    · rintro ⟨middle, ahead, row⟩
      cases after with
      | nil => exact Nat.le_trans ahead row
      | cons span rest => exact ⟨Nat.le_trans ahead row.1, row.2⟩
  | cons span rest ih =>
    constructor
    · rintro ⟨first, proper, later⟩
      obtain ⟨middle, left, right⟩ := ih.mp later
      exact ⟨middle, ⟨first, proper, left⟩, right⟩
    · rintro ⟨middle, ⟨first, proper, left⟩, right⟩
      exact ⟨first, proper, ih.mpr ⟨middle, left, right⟩⟩

theorem widen {start stop first last : Nat} {spans : List Span} (row : InRow start stop spans)
    (lower : first ≤ start) (upper : stop ≤ last) : InRow first last spans := by
  induction spans generalizing start first with
  | nil => exact Nat.le_trans lower (Nat.le_trans row upper)
  | cons span rest ih =>
    exact ⟨Nat.le_trans lower row.1, row.2.1, ih row.2.2 (Nat.le_refl _)⟩

theorem contains {start stop : Nat} {spans : List Span} (row : InRow start stop spans) {span : Span}
    (member : span ∈ spans) : start ≤ span.start ∧ span.start ≤ span.stop ∧ span.stop ≤ stop := by
  obtain ⟨before, after, rfl⟩ := List.append_of_mem member
  obtain ⟨middle, left, first, proper, right⟩ := append_iff.mp row
  have := left.le
  have := right.le
  omega

theorem pairwise {start stop : Nat} {spans : List Span} (row : InRow start stop spans) :
    spans.Pairwise fun a b => a.stop ≤ b.start := by
  induction spans generalizing start with
  | nil => exact .nil
  | cons span rest ih =>
    obtain ⟨-, -, later⟩ := row
    exact .cons (fun other member => (later.contains member).1) (ih later)

end InRow

open Javadoc (byteLength)

namespace Javadoc

@[simp]
theorem byteLength_nil : byteLength [] = 0 := rfl

@[simp]
theorem byteLength_cons (c : Char) (cs : List Char) :
    byteLength (c :: cs) = c.utf8Size + byteLength cs := rfl

@[simp]
theorem byteLength_append (first second : List Char) :
    byteLength (first ++ second) = byteLength first + byteLength second := by
  induction first with
  | nil => simp
  | cons c cs ih => rw [List.cons_append, byteLength_cons, ih, byteLength_cons, Nat.add_assoc]

theorem byteLength_toList (s : String) : byteLength s.toList = s.utf8ByteSize := by
  rw [← s.size_toByteArray, ← String.utf8Encode_toList]
  induction s.toList with
  | nil => rfl
  | cons c cs ih =>
    rw [List.utf8Encode_cons, ByteArray.size_append, byteLength_cons, ih, List.utf8Encode_singleton,
      List.size_toByteArray, String.length_utf8EncodeChar]

end Javadoc

namespace Text

/-- The characters of a text that stands at `pos`, each with its offset. -/
def placed (pos : Nat) : List Char → List (Nat × Char)
  | [] => []
  | c :: cs => (pos, c) :: placed (pos + c.utf8Size) cs

/-- The characters of a text whose offsets lie from `start` up to but not including `stop`. -/
def range (s : String) (start stop : Nat) : List (Nat × Char) :=
  (placed 0 s.toList).filter fun x => start ≤ x.1 && x.1 < stop

/-- Whether an offset of a text is the start of a character or the end of the text. -/
def Boundary (s : String) (pos : Nat) : Prop :=
  ∃ before after, s.toList = before ++ after ∧ byteLength before = pos

theorem boundary_iff {s : String} {pos : Nat} :
    Boundary s pos ↔ ∃ n ∈ List.range (s.toList.length + 1), byteLength (s.toList.take n) = pos := by
  constructor
  · rintro ⟨before, after, split, place⟩
    refine ⟨before.length, ?_, ?_⟩
    · rw [List.mem_range, split, List.length_append]
      omega
    · rw [split, List.take_left]
      exact place
  · rintro ⟨n, -, place⟩
    exact ⟨s.toList.take n, s.toList.drop n, (List.take_append_drop ..).symm, place⟩

instance (s : String) (pos : Nat) : Decidable (Boundary s pos) :=
  decidable_of_iff _ boundary_iff.symm

theorem placed_append (pos : Nat) (first second : List Char) :
    placed pos (first ++ second) = placed pos first ++ placed (pos + byteLength first) second := by
  induction first generalizing pos with
  | nil => rfl
  | cons c first ih =>
    rw [List.cons_append, placed, placed, ih, Javadoc.byteLength_cons, Nat.add_assoc]
    rfl

theorem map_placed (pos : Nat) (cs : List Char) : (placed pos cs).map Prod.snd = cs := by
  induction cs generalizing pos with
  | nil => rfl
  | cons c cs ih => rw [placed, List.map_cons, ih]

theorem bounds_of_mem_placed {pos : Nat} {cs : List Char} {x : Nat × Char}
    (member : x ∈ placed pos cs) : pos ≤ x.1 ∧ x.1 + x.2.utf8Size ≤ pos + byteLength cs := by
  induction cs generalizing pos with
  | nil => cases member
  | cons c cs ih =>
    rw [Javadoc.byteLength_cons]
    rcases List.mem_cons.mp member with rfl | later
    · exact ⟨Nat.le_refl _, by simp only; omega⟩
    · have := ih later
      omega

theorem filter_placed_append (pos : Nat) (cs : List Char) {start middle stop : Nat}
    (first : start ≤ middle) (second : middle ≤ stop) :
    ((placed pos cs).filter fun x => start ≤ x.1 && x.1 < middle) ++
        ((placed pos cs).filter fun x => middle ≤ x.1 && x.1 < stop) =
      (placed pos cs).filter fun x => start ≤ x.1 && x.1 < stop := by
  induction cs generalizing pos with
  | nil => rfl
  | cons c cs ih =>
    have later := ih (pos + c.utf8Size)
    by_cases past : middle ≤ pos
    · -- nothing from here on stands before the middle
      have none : ((placed pos (c :: cs)).filter fun x => start ≤ x.1 && x.1 < middle) = [] := by
        apply List.filter_eq_nil_iff.mpr
        intro x member
        have := (bounds_of_mem_placed member).1
        simp only [Bool.and_eq_true, decide_eq_true_eq]
        omega
      rw [none, List.nil_append]
      apply List.filter_congr
      intro x member
      have := (bounds_of_mem_placed member).1
      have left : decide (middle ≤ x.1) = decide (start ≤ x.1) := by
        rw [decide_eq_true (by omega), decide_eq_true (by omega)]
      rw [left]
    · have ahead : decide (middle ≤ pos) = false := decide_eq_false past
      have early : decide (pos < middle) = true := decide_eq_true (by omega)
      have whole : decide (pos < stop) = true := decide_eq_true (by omega)
      rw [placed]
      simp only [List.filter_cons, ahead, early, whole, Bool.and_true]
      by_cases inside : start ≤ pos
      · simp only [decide_eq_true inside, if_true, Bool.false_eq_true, if_false, List.cons_append,
          later]
      · simp only [decide_eq_false inside, Bool.false_eq_true, if_false, later]

theorem range_append (s : String) {start middle stop : Nat} (first : start ≤ middle)
    (second : middle ≤ stop) : range s start middle ++ range s middle stop = range s start stop :=
  filter_placed_append 0 s.toList first second

theorem byteLength_eq_zero {cs : List Char} (empty : byteLength cs = 0) : cs = [] := by
  cases cs with
  | nil => rfl
  | cons c cs =>
    have := c.utf8Size_pos
    rw [Javadoc.byteLength_cons] at empty
    omega

theorem Boundary.le {s : String} {pos : Nat} (boundary : Boundary s pos) :
    pos ≤ s.utf8ByteSize := by
  obtain ⟨before, after, joined, rfl⟩ := boundary
  rw [← Javadoc.byteLength_toList, joined, Javadoc.byteLength_append]
  omega

theorem Boundary.cut {s : String} {start stop : Nat} (first : Boundary s start)
    (second : Boundary s stop) (ordered : start ≤ stop) :
    ∃ before cs after, s.toList = before ++ cs ++ after ∧ byteLength before = start ∧
      byteLength before + byteLength cs = stop := by
  obtain ⟨before, rest, split, rfl⟩ := first
  obtain ⟨whole, after, other, rfl⟩ := second
  rw [split] at other
  rcases List.append_eq_append_iff.mp other with ⟨cs, rfl, rfl⟩ | ⟨cs, rfl, rfl⟩
  · exact ⟨before, cs, after, by rw [split, List.append_assoc], rfl, by simp⟩
  · rw [Javadoc.byteLength_append] at ordered
    obtain rfl := byteLength_eq_zero (show byteLength cs = 0 by omega)
    exact ⟨whole, [], rest, by simpa using split, by simp, by simp⟩

theorem slice?_of_append {s : String} {before cs after : List Char}
    (split : s.toList = before ++ cs ++ after) :
    slice? s (byteLength before) (byteLength before + byteLength cs) = some (String.ofList cs) := by
  have size : s.utf8ByteSize = byteLength before + byteLength cs + byteLength after := by
    rw [← Javadoc.byteLength_toList, split, Javadoc.byteLength_append, Javadoc.byteLength_append]
  have bytes : s.toByteArray.extract (byteLength before) (byteLength before + byteLength cs) =
      (String.ofList cs).toByteArray := by
    have joined : s = String.ofList before ++ (String.ofList cs ++ String.ofList after) := by
      rw [← String.ofList_append, ← String.ofList_append, ← List.append_assoc, ← split,
        String.ofList_toList]
    have first : byteLength before = (String.ofList before).toByteArray.size := by
      rw [String.size_toByteArray, ← Javadoc.byteLength_toList, String.toList_ofList]
    have second : byteLength cs = (String.ofList cs).toByteArray.size := by
      rw [String.size_toByteArray, ← Javadoc.byteLength_toList, String.toList_ofList]
    have skipped := ByteArray.extract_append_size_add (a := (String.ofList before).toByteArray)
      (b := (String.ofList cs).toByteArray ++ (String.ofList after).toByteArray)
      (i := 0) (j := byteLength cs)
    rw [Nat.add_zero, ← first] at skipped
    rw [joined, String.toByteArray_append, String.toByteArray_append, skipped,
      ByteArray.extract_append_eq_left second]
  unfold slice?
  rw [if_pos (by omega), bytes]
  unfold String.fromUTF8?
  rw [dif_pos (String.ofList cs).isValidUTF8]
  rfl

theorem range_of_append {s : String} {before cs after : List Char}
    (split : s.toList = before ++ cs ++ after) :
    range s (byteLength before) (byteLength before + byteLength cs) =
      placed (byteLength before) cs := by
  have ahead : ((placed 0 before).filter fun x =>
      byteLength before ≤ x.1 && x.1 < byteLength before + byteLength cs) = [] := by
    apply List.filter_eq_nil_iff.mpr
    intro x member
    have := bounds_of_mem_placed member
    have := x.2.utf8Size_pos
    simp only [Bool.and_eq_true, decide_eq_true_eq]
    omega
  have here : ((placed (byteLength before) cs).filter fun x =>
      byteLength before ≤ x.1 && x.1 < byteLength before + byteLength cs) =
        placed (byteLength before) cs := by
    apply List.filter_eq_self.mpr
    intro x member
    have := bounds_of_mem_placed member
    have := x.2.utf8Size_pos
    simp only [Bool.and_eq_true, decide_eq_true_eq]
    omega
  have behind : ((placed (byteLength before + byteLength cs) after).filter fun x =>
      byteLength before ≤ x.1 && x.1 < byteLength before + byteLength cs) = [] := by
    apply List.filter_eq_nil_iff.mpr
    intro x member
    have := bounds_of_mem_placed member
    simp only [Bool.and_eq_true, decide_eq_true_eq]
    omega
  unfold range
  rw [split, placed_append, placed_append, List.filter_append, List.filter_append, Nat.zero_add,
    Nat.zero_add, Javadoc.byteLength_append, ahead, here, behind, List.nil_append, List.append_nil]

theorem slice?_of_boundary {s : String} {start stop : Nat} (first : Boundary s start)
    (second : Boundary s stop) (ordered : start ≤ stop) :
    slice? s start stop = some (String.ofList ((range s start stop).map Prod.snd)) := by
  obtain ⟨before, cs, after, split, rfl, rfl⟩ := first.cut second ordered
  rw [slice?_of_append split, range_of_append split, map_placed]

theorem size_of_slice? {s x : String} {start stop : Nat} (cut : slice? s start stop = some x) :
    start + x.utf8ByteSize = stop := by
  unfold slice? at cut
  split at cut
  · rename_i bounds
    unfold String.fromUTF8? at cut
    split at cut
    · obtain rfl := Option.some.inj cut
      rw [← String.size_toByteArray]
      show start + (s.toByteArray.extract start stop).size = stop
      rw [ByteArray.size_extract, String.size_toByteArray]
      omega
    · cases cut
  · cases cut

theorem boundary_of_isValid {s : String} {pos : String.Pos.Raw} (valid : pos.IsValid s) :
    Boundary s pos.byteIdx := by
  have ⟨before, after, encoded, joined⟩ := valid.exists
  have bound : pos.byteIdx ≤ s.utf8ByteSize := valid.le_rawEndPos
  refine ⟨before, after, by rw [← joined, String.toList_ofList], ?_⟩
  have size := Javadoc.byteLength_toList (String.ofList before)
  rw [String.toList_ofList, ← String.size_toByteArray, String.toByteArray_ofList, encoded,
    ByteArray.size_extract, String.size_toByteArray] at size
  omega

theorem boundary_of_slice? {s x : String} {start stop : Nat} (cut : slice? s start stop = some x)
    (taken : x ≠ "") : Boundary s start ∧ Boundary s stop := by
  have size := size_of_slice? cut
  unfold slice? at cut
  split at cut
  · rename_i bounds
    unfold String.fromUTF8? at cut
    split at cut
    · rename_i valid
      have parts := (String.Pos.Raw.isValidUTF8_extract_iff ⟨start⟩ ⟨stop⟩ bounds.1 bounds.2).mp valid
      rcases parts with same | ⟨first, last⟩
      · have equal : start = stop := congrArg String.Pos.Raw.byteIdx same
        exact absurd (String.utf8ByteSize_eq_zero_iff.mp (by omega)) taken
      · exact ⟨boundary_of_isValid first, boundary_of_isValid last⟩
    · cases cut
  · cases cut

/-- What a slice takes is part of the text. -/
theorem slice?_eq_some {s x : String} {start stop : Nat} (cut : slice? s start stop = some x)
    (taken : x ≠ "") :
    ∃ before after, s.toList = before ++ x.toList ++ after ∧ byteLength before = start := by
  have ⟨first, last⟩ := boundary_of_slice? cut taken
  have size := size_of_slice? cut
  have ⟨before, cs, after, split, place, stops⟩ := first.cut last (by omega)
  have here := slice?_of_append split
  rw [stops, place, cut] at here
  exact ⟨before, after, by rw [split, Option.some.inj here, String.toList_ofList], place⟩

end Text

end SpringLint
