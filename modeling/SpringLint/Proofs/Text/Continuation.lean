import Mathlib.Data.List.Induction
import SpringLint.Proofs.Text.Written

/-! Logical lines as the format has them. Whether a line goes on is judged by its own backslashes; the
reader counts those of all that it has joined, and comes to the same. -/

namespace SpringLint.Properties

open Text

/-- The natural lines of a text. Each ends with a line feed, alone or behind a carriage return, but the
last may end with the text. -/
inductive Cut : List Char → List (List Char) → Prop
  | nil : Cut [] []
  | last {line : List Char} (filled : line ≠ []) (inline : '\n' ∉ line) : Cut line [line]
  | line {line cs : List Char} {natural : List (List Char)} (newline : Newline) (inline : '\n' ∉ line)
      (closed : newline.Closes line) (rest : Cut cs natural) :
      Cut (line ++ newline.text ++ cs) (line :: natural)

/-- A blank line or a comment. -/
def Skipped (line : List Char) : Prop :=
  (∀ c ∈ line, isBlank c = true) ∨
    ∃ blanks mark rest, line = blanks ++ mark :: rest ∧ (∀ c ∈ blanks, isBlank c = true) ∧
      (mark = '#' ∨ mark = '!')

/-- A line that ends in an odd number of backslashes. -/
def GoesOn (line : List Char) : Prop :=
  ∃ front n, line = front ++ List.replicate (2 * n + 1) '\\' ∧ front.getLast? ≠ some '\\'

/-- The logical line that the first of some natural lines begins, and the natural lines behind it. A
line that goes on loses its last backslash, and what follows loses its indentation. -/
inductive Joined : List (List Char) → List Char → List (List Char) → Prop
  | whole {line : List Char} {rest : List (List Char)} (ends : ¬GoesOn line) :
      Joined (line :: rest) (line.dropWhile isBlank) rest
  | more {front later : List Char} {natural rest : List (List Char)} (goes : GoesOn (front ++ ['\\']))
      (joined : Joined natural later rest) :
      Joined ((front ++ ['\\']) :: natural) (front.dropWhile isBlank ++ later) rest
  | last {front : List Char} (goes : GoesOn (front ++ ['\\'])) :
      Joined [front ++ ['\\']] (front.dropWhile isBlank) []

/-- The logical lines of natural lines. Blank lines and comments are passed over where a logical line
would begin. -/
inductive Logical : List (List Char) → List (List Char) → Prop
  | nil : Logical [] []
  | skip {line : List Char} {natural logical : List (List Char)} (skipped : Skipped line)
      (later : Logical natural logical) : Logical (line :: natural) logical
  | line {line text : List Char} {natural rest logical : List (List Char)} (kept : ¬Skipped line)
      (joined : Joined (line :: natural) text rest) (later : Logical rest logical) :
      Logical (line :: natural) (text :: logical)

/-- What the reader has in hand of a logical line when it has read some natural lines: it goes on from
there, whatever follows. -/
def InHand (before : List (List Char)) (held : Option (List Char)) : Prop :=
  ∃ done, ∀ rest, logicalLines none (before ++ rest) = done ++ logicalLines held rest

section NaturalLines

variable {cs : List Char} {natural : List (List Char)}

theorem Cut.eq (cut : Cut cs natural) : naturalLines cs = natural := by
  induction cut with
  | nil => rfl
  | @last line filled inline =>
    have whole := linesFrom_append inline [] []
    rw [List.append_nil, List.append_nil, linesFrom_nil] at whole
    rw [naturalLines, whole, List.reverse_reverse, List.isEmpty_reverse]
    exact if_neg (mt List.isEmpty_iff.mp filled)
  | line newline inline closed _ ih => rw [naturalLines_close inline closed, ih]

theorem exists_cut (cs : List Char) : ∃ natural, Cut cs natural := by
  induction length : cs.length using Nat.strong_induction_on generalizing cs with
  | h n ih =>
    by_cases ended : '\n' ∈ cs
    · have ⟨front, rest, split, inline⟩ := List.eq_append_cons_of_mem ended
      have shorter : rest.length < n := by
        rw [← length, split]
        simp
        omega
      have ⟨natural, later⟩ := ih rest.length shorter rest rfl
      have whole : front ++ Newline.lf.text ++ rest = cs := by
        rw [split, List.append_assoc]
        rfl
      rcases Newline.lf.cases_closes front with closed | ⟨_, returns⟩
      · exact ⟨front :: natural, whole ▸ .line .lf inline closed later⟩
      · have ⟨line, same⟩ := List.getLast?_eq_some_iff.mp returns
        have plain : '\n' ∉ line := fun member => inline (same ▸ List.mem_append_left _ member)
        rw [same, Newline.append_lf] at whole
        exact ⟨line :: natural, whole ▸ .line .crlf plain (.inl rfl) later⟩
    · by_cases empty : cs = []
      · exact ⟨[], empty ▸ .nil⟩
      · exact ⟨[cs], .last empty ended⟩

theorem cut_iff : Cut cs natural ↔ natural = naturalLines cs := by
  have ⟨lines, cut⟩ := exists_cut cs
  constructor
  · exact fun other => other.eq.symm
  · intro same
    rw [same, cut.eq]
    exact cut

end NaturalLines

theorem skipped_iff {line : List Char} :
    Skipped line ↔ isSkipped (line.dropWhile isBlank) = true := by
  have split := List.takeWhile_append_dropWhile (p := isBlank) (l := line)
  constructor
  · intro skipped
    rcases skipped with blank | ⟨blanks, mark, rest, whole, blank, comment⟩
    · rw [List.dropWhile_eq_nil_iff.mpr blank]
      rfl
    · have visible : isBlank mark = false := by
        rcases comment with same | same <;> rw [same] <;> decide
      have first : (blanks ++ mark :: rest).dropWhile isBlank = mark :: rest := by
        rw [List.dropWhile_append_of_pos blank, List.dropWhile_cons, visible]
        rfl
      rw [whole, first]
      simpa [isSkipped] using comment
  · intro skipped
    cases left : line.dropWhile isBlank with
    | nil => exact .inl (List.dropWhile_eq_nil_iff.mp left)
    | cons mark rest =>
      rw [left] at skipped split
      refine .inr ⟨line.takeWhile isBlank, mark, rest, split.symm, ?_, ?_⟩
      · exact List.all_eq_true.mp List.all_takeWhile
      · simpa [isSkipped] using skipped

section Backslashes

variable {front line held : List Char}

theorem exists_backslashes (line : List Char) :
    ∃ front n, line = front ++ List.replicate n '\\' ∧ front.getLast? ≠ some '\\' := by
  induction line using List.reverseRecOn with
  | nil => exact ⟨[], 0, rfl, by simp⟩
  | append_singleton line c ih =>
    by_cases backslash : c = '\\'
    · have ⟨front, n, split, free⟩ := ih
      exact ⟨front, n + 1, by rw [split, backslash, List.append_assoc, List.replicate_succ'], free⟩
    · exact ⟨line ++ [c], 0, (List.append_nil _).symm, by simpa using backslash⟩

theorem continues_backslashes (free : front.getLast? ≠ some '\\') (n : Nat) :
    continues (front ++ List.replicate n '\\') = (n % 2 == 1) := by
  induction n with
  | zero =>
    rcases List.eq_nil_or_concat front with empty | ⟨cs, c, last⟩
    · rw [empty]
      rfl
    · rw [List.concat_eq_append] at last
      have other : c ≠ '\\' := by simpa [last] using free
      rw [List.replicate_zero, List.append_nil, last, continues_concat, if_neg other]
      rfl
  | succ n ih =>
    rw [List.replicate_succ', ← List.append_assoc, continues_concat, if_pos rfl, ih]
    rcases Nat.mod_two_eq_zero_or_one n with even | odd
    · simp [even, Nat.add_mod]
    · simp [odd, Nat.add_mod]

theorem continues_iff : continues line = true ↔ GoesOn line := by
  constructor
  · intro goes
    have ⟨front, n, split, free⟩ := exists_backslashes line
    rw [split, continues_backslashes free] at goes
    have odd : n = 2 * (n / 2) + 1 := by
      have := eq_of_beq goes
      omega
    exact ⟨front, n / 2, by rw [← odd, split], free⟩
  · intro ⟨front, n, split, free⟩
    rw [split, continues_backslashes free]
    simp

theorem GoesOn.exists_concat (goes : GoesOn line) : ∃ front, line = front ++ ['\\'] := by
  have ⟨front, n, split, _⟩ := goes
  exact ⟨front ++ List.replicate (2 * n) '\\', by
    rw [split, List.append_assoc, List.replicate_succ']⟩

theorem dropWhile_concat_backslash (front : List Char) :
    (front ++ ['\\']).dropWhile isBlank = front.dropWhile isBlank ++ ['\\'] := by
  apply dropWhile_append_text
  right
  intro c first
  rw [← Option.some.inj first]
  decide

/-- What is held ends in an even number of backslashes, so that the number behind it is odd or even as
that of the next line is: also where the next line is nothing but backslashes. -/
theorem continues_append (even : continues held = false) (line : List Char) :
    continues (held ++ line.dropWhile isBlank) = continues line := by
  induction line using List.reverseRecOn with
  | nil =>
    rw [List.dropWhile_nil, List.append_nil, even]
    rfl
  | append_singleton line c ih =>
    by_cases backslash : c = '\\'
    · rw [backslash, dropWhile_concat_backslash, ← List.append_assoc, continues_concat,
        continues_concat, ih]
    · rw [continues_concat, if_neg backslash, List.dropWhile_append]
      split
      · cases blank : isBlank c with
        | true => simpa [blank] using even
        | false => simp [blank, continues_concat, backslash]
      · rw [← List.append_assoc, continues_concat, if_neg backslash]

end Backslashes

section LogicalLines

variable {natural rest logical : List (List Char)} {text : List Char}

theorem Joined.logicalLines_eq (joined : Joined natural text rest) {held : List Char}
    (even : continues held = false) :
    logicalLines (some held) natural = (held ++ text) :: logicalLines none rest := by
  induction joined generalizing held with
  | @whole line rest ends =>
    have stops : continues line = false := by simpa using mt continues_iff.mp ends
    rw [logicalLines_held, continues_append even, stops, if_neg Bool.false_ne_true]
  | @more front later natural rest goes _ ih =>
    have kept : (held ++ (front ++ ['\\']).dropWhile isBlank).dropLast =
        held ++ front.dropWhile isBlank := by
      rw [dropWhile_concat_backslash, ← List.append_assoc, List.dropLast_concat]
    have goesOn := (continues_append even _).trans (continues_iff.mpr goes)
    have next := not_continues_dropLast goesOn
    rw [logicalLines_held, goesOn, if_pos rfl, kept, ih (kept ▸ next), List.append_assoc]
  | @last front goes =>
    have goesOn := (continues_append even _).trans (continues_iff.mpr goes)
    rw [logicalLines_held, goesOn, if_pos rfl, dropWhile_concat_backslash, ← List.append_assoc,
      List.dropLast_concat]
    rfl

theorem exists_joined (line : List Char) (natural : List (List Char)) :
    ∃ text rest, Joined (line :: natural) text rest ∧ rest.length ≤ natural.length := by
  induction natural generalizing line with
  | nil =>
    by_cases goes : GoesOn line
    · have ⟨front, split⟩ := goes.exists_concat
      rw [split] at goes ⊢
      exact ⟨_, [], .last goes, Nat.le_refl _⟩
    · exact ⟨_, [], .whole goes, Nat.le_refl _⟩
  | cons next natural ih =>
    by_cases goes : GoesOn line
    · have ⟨front, split⟩ := goes.exists_concat
      have ⟨later, rest, joined, shorter⟩ := ih next
      rw [split] at goes ⊢
      exact ⟨_, rest, .more goes joined, Nat.le_succ_of_le shorter⟩
    · exact ⟨_, _, .whole goes, Nat.le_refl _⟩

theorem exists_logical (natural : List (List Char)) : ∃ logical, Logical natural logical := by
  induction length : natural.length using Nat.strong_induction_on generalizing natural with
  | h n ih =>
    cases natural with
    | nil => exact ⟨[], .nil⟩
    | cons line natural =>
      rw [List.length_cons] at length
      by_cases skipped : Skipped line
      · have ⟨logical, later⟩ := ih natural.length (by omega) natural rfl
        exact ⟨logical, .skip skipped later⟩
      · have ⟨text, rest, joined, shorter⟩ := exists_joined line natural
        have ⟨logical, later⟩ := ih rest.length (by omega) rest rfl
        exact ⟨text :: logical, .line skipped joined later⟩

theorem Logical.eq (lines : Logical natural logical) : logicalLines none natural = logical := by
  induction lines with
  | nil => rfl
  | skip skipped _ ih => rw [logicalLines_skip (skipped_iff.mp skipped), ih]
  | @line line text natural rest logical kept joined _ ih =>
    have visible : isSkipped (line.dropWhile isBlank) = false := by
      simpa using mt skipped_iff.mpr kept
    rw [logicalLines_begin visible, joined.logicalLines_eq rfl, ih, List.nil_append]

theorem logical_iff : Logical natural logical ↔ logical = logicalLines none natural := by
  have ⟨lines, format⟩ := exists_logical natural
  constructor
  · exact fun other => other.eq.symm
  · intro same
    rw [same, format.eq]
    exact format

theorem exists_held (before : List (List Char)) (begun : Option (List Char))
    (even : ∀ held ∈ begun, continues held = false) :
    ∃ done next, (∀ rest, logicalLines begun (before ++ rest) = done ++ logicalLines next rest) ∧
      ∀ held ∈ next, continues held = false := by
  induction before generalizing begun with
  | nil => exact ⟨[], begun, fun _ => rfl, even⟩
  | cons line before ih =>
    have joins (held : List Char) : ∃ done next,
        (∀ rest, logicalLines (some held) (line :: before ++ rest) = done ++ logicalLines next rest) ∧
          ∀ held ∈ next, continues held = false := by
      by_cases goes : continues (held ++ line.dropWhile isBlank) = true
      · have ⟨done, next, reads, later⟩ := ih (some (held ++ line.dropWhile isBlank).dropLast)
          fun left same => Option.some.inj same ▸ not_continues_dropLast goes
        refine ⟨done, next, fun rest => ?_, later⟩
        rw [List.cons_append, logicalLines_held, if_pos goes, reads]
      · have ⟨done, next, reads, later⟩ := ih none nofun
        refine ⟨(held ++ line.dropWhile isBlank) :: done, next, fun rest => ?_, later⟩
        rw [List.cons_append, logicalLines_held, if_neg goes, reads, List.cons_append]
    cases begun with
    | some held => exact joins held
    | none =>
      by_cases skipped : isSkipped (line.dropWhile isBlank) = true
      · have ⟨done, next, reads, later⟩ := ih none nofun
        refine ⟨done, next, fun rest => ?_, later⟩
        rw [List.cons_append, logicalLines_skip skipped, reads]
      · have ⟨done, next, reads, later⟩ := joins []
        refine ⟨done, next, fun rest => ?_, later⟩
        rw [List.cons_append, logicalLines_begin (by simpa using skipped), ← List.cons_append, reads]

theorem InHand.unique {before : List (List Char)} {held other : Option (List Char)}
    (first : InHand before held) (second : InHand before other) : held = other := by
  have ⟨done, reads⟩ := first
  have ⟨others, agrees⟩ := second
  have more (held : Option (List Char)) : (logicalLines held [['a']]).length = 1 := by
    cases held with
    | none => rfl
    | some cs =>
      have stops : continues (cs ++ ['a'].dropWhile isBlank) = false := continues_concat cs 'a'
      rw [logicalLines_held, stops]
      rfl
  have sizes : done.length = others.length := by
    have longer := congrArg List.length ((reads [['a']]).symm.trans (agrees [['a']]))
    rwa [List.length_append, List.length_append, more, more, Nat.add_right_cancel_iff] at longer
  have same := (List.append_inj ((reads []).symm.trans (agrees [])) sizes).2
  cases held with
  | none =>
    cases other with
    | none => rfl
    | some ds => cases same
  | some cs =>
    cases other with
    | none => cases same
    | some ds => rw [(List.cons.inj same).1]

end LogicalLines

/-- The pairs of a text are those of its logical lines, as the format has them. Before each natural
line the reader holds one thing, and whether that goes on with the line is whether the line does. -/
theorem read_logical_lines (text : String) :
    ∃ natural logical, (∀ other, Cut text.toList other ↔ other = natural) ∧
      (∀ other, Logical natural other ↔ other = logical) ∧
      read text = logical.map pair ∧
      ∀ before line after, natural = before ++ line :: after →
        ∃ held, (∀ other, InHand before other ↔ other = held) ∧
          (continues (held.getD [] ++ line.dropWhile isBlank) = true ↔ GoesOn line) := by
  refine ⟨naturalLines text.toList, logicalLines none (naturalLines text.toList), fun _ => cut_iff,
    fun _ => logical_iff, ?_, ?_⟩
  · rw [read, map_toList_lines]
  · intro before line after _
    have ⟨done, held, reads, even⟩ := exists_held before none nofun
    have inHand : InHand before held := ⟨done, reads⟩
    refine ⟨held, fun other => ⟨fun also => also.unique inHand, fun same => same ▸ inHand⟩, ?_⟩
    have whole : continues (held.getD []) = false := by
      cases held with
      | none => rfl
      | some cs => exact even cs rfl
    rw [continues_append whole, continues_iff]

end SpringLint.Properties
