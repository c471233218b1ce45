import Mathlib.Data.Option.Basic
import SpringLint.Proofs.Text.Affixes
import SpringLint.Proofs.Text.Offsets

/-! The links of a text, as the search for them finds them: from the left, each behind the one
before. -/

namespace SpringLint.Javadoc

open Text

def Part (pos : Nat) (cs : List Char) (start : Nat) (part : List Char) : Prop :=
  ∃ before after, cs = before ++ part ++ after ∧ start = pos + byteLength before

namespace Part

theorem append (pos : Nat) (before part after : List Char) :
    Part pos (before ++ part ++ after) (pos + byteLength before) part :=
  ⟨before, after, rfl, rfl⟩

theorem trans {pos start first : Nat} {cs part inner : List Char} (outer : Part pos cs start part)
    (within : Part start part first inner) : Part pos cs first inner := by
  have ⟨before, after, whole, place⟩ := outer
  have ⟨ahead, behind, split, here⟩ := within
  refine ⟨before ++ ahead, behind ++ after, ?_, ?_⟩
  · simp [whole, split]
  · rw [here, place, byteLength_append, Nat.add_assoc]

theorem slice? {s : String} {start : Nat} {part : List Char} (stands : Part 0 s.toList start part) :
    Text.slice? s start (start + byteLength part) = some (String.ofList part) := by
  have ⟨before, after, whole, place⟩ := stands
  rw [place, Nat.zero_add]
  exact slice?_of_append whole

theorem boundary {s : String} {start : Nat} {part : List Char} (stands : Part 0 s.toList start part) :
    Boundary s start ∧ Boundary s (start + byteLength part) := by
  have ⟨before, after, whole, place⟩ := stands
  rw [Nat.zero_add] at place
  refine ⟨⟨before, part ++ after, ?_, place.symm⟩, before ++ part, after, whole, ?_⟩
  · rw [whole, List.append_assoc]
  · rw [byteLength_append, place]

end Part

/-- A link as it is written: blanks behind its opening, its name, and its label up to the closing
brace. The name is all that can be name. -/
@[ext]
structure Tag where
  blanks : List Char
  name : List Char
  label : List Char
  parted : blanks ≠ [] ∧ ∀ c ∈ blanks, isBlank c = true
  named : name ≠ [] ∧ ∀ c ∈ name, isNameChar c = true
  greedy : ∀ c ∈ label.head?, isNameChar c = false
  unclosed : closing ∉ label

namespace Tag

variable (tag : Tag)

def text : List Char :=
  opening ++ tag.blanks ++ tag.name ++ tag.label ++ [closing]

def link (pos : Nat) : Link where
  span := ⟨pos, pos + byteLength tag.text⟩
  reference :=
    ⟨pos + byteLength (opening ++ tag.blanks), pos + byteLength (opening ++ tag.blanks ++ tag.name)⟩
  label := labelSpan (pos + byteLength (opening ++ tag.blanks ++ tag.name)) tag.label

theorem text_append (rest : List Char) :
    tag.text ++ rest = opening ++ (tag.blanks ++ (tag.name ++ (tag.label ++ closing :: rest))) := by
  simp [text]

theorem takes_blanks (rest : List Char) :
    (tag.blanks ++ (tag.name ++ rest)).takeWhile isBlank = tag.blanks ∧
      (tag.blanks ++ (tag.name ++ rest)).dropWhile isBlank = tag.name ++ rest := by
  apply takeWhile_of_head tag.parted.2
  intro c first
  have ⟨filled, whole⟩ := tag.named
  rw [List.head?_append, List.head?_eq_some_head filled] at first
  have written := whole c (Option.some.inj first ▸ List.head_mem filled)
  simp only [isNameChar, Bool.and_eq_true, Bool.not_eq_true'] at written
  exact written.1

theorem takes_name (rest : List Char) :
    (tag.name ++ (tag.label ++ closing :: rest)).takeWhile isNameChar = tag.name ∧
      (tag.name ++ (tag.label ++ closing :: rest)).dropWhile isNameChar =
        tag.label ++ closing :: rest := by
  apply takeWhile_of_head tag.named.2
  intro c first
  have greedy := tag.greedy
  cases labelled : tag.label with
  | nil =>
    rw [labelled] at first
    obtain rfl := Option.some.inj first
    decide
  | cons d label =>
    rw [labelled] at first greedy
    exact greedy c first

theorem takes_label (rest : List Char) :
    (tag.label ++ closing :: rest).takeWhile (· != closing) = tag.label ∧
      (tag.label ++ closing :: rest).dropWhile (· != closing) = closing :: rest := by
  apply takeWhile_of_head
  · intro c member
    exact bne_iff_ne.mpr (ne_of_mem_of_not_mem member tag.unclosed)
  · simp

theorem closes : ∃ inner, tag.text = opening ++ inner ++ [closing] ∧ closing ∉ opening ++ inner := by
  refine ⟨tag.blanks ++ tag.name ++ tag.label, by simp [text], ?_⟩
  simp only [List.mem_append, not_or]
  refine ⟨by decide, ⟨?_, ?_⟩, tag.unclosed⟩
  · intro member
    have blank := tag.parted.2 closing member
    revert blank
    decide
  · intro member
    have written := tag.named.2 closing member
    revert written
    decide

end Tag

theorem linkAt?_text (tag : Tag) (pos : Nat) (rest : List Char) :
    linkAt? pos (tag.text ++ rest) = some (tag.link pos, tag.text.length) := by
  have ⟨blanks, afterBlanks⟩ := tag.takes_blanks (tag.label ++ closing :: rest)
  have ⟨name, afterName⟩ := tag.takes_name rest
  have ⟨label, _⟩ := tag.takes_label rest
  have complete : (!tag.blanks.isEmpty && !tag.name.isEmpty &&
      (tag.label ++ closing :: rest).any (· == closing)) = true := by
    simp [tag.parted.1, tag.named.1]
  have single : byteLength [closing] = 1 := rfl
  rw [tag.text_append, linkAt?, listAfter?_append]
  simp only [Option.bind_eq_bind, Option.bind_some, blanks, afterBlanks, name, afterName, label,
    complete, guard, if_true, pure]
  simp only [Tag.link, Tag.text, byteLength_append, List.length_append, List.length_singleton,
    single, Nat.add_assoc]

theorem exists_tag {pos : Nat} {cs : List Char} {found : Link × Nat}
    (here : linkAt? pos cs = some found) :
    ∃ (tag : Tag) (rest : List Char), cs = tag.text ++ rest := by
  simp only [linkAt?, Option.bind_eq_bind, Option.bind_eq_some_iff] at here
  have ⟨afterOpening, opened, _, complete, _⟩ := here
  simp only [Option.guard_eq_some', Bool.and_eq_true, Bool.not_eq_true',
    List.isEmpty_eq_false_iff] at complete
  have ⟨⟨parted, named⟩, closed⟩ := complete
  have taken (p : Char → Bool) (text : List Char) : ∀ c ∈ text.takeWhile p, p c = true :=
    List.all_eq_true.mp List.all_takeWhile
  have closes : closing ∈ (afterOpening.dropWhile isBlank).dropWhile isNameChar := by
    simpa using closed
  have ⟨label, rest, labelSplit, unclosed⟩ := List.eq_append_cons_of_mem closes
  have greedy : ∀ c ∈ label.head?, isNameChar c = false := by
    intro c first
    have stops := List.head?_dropWhile_not isNameChar (afterOpening.dropWhile isBlank)
    rw [labelSplit, List.head?_append, first] at stops
    simpa using stops
  let tag : Tag :=
    { blanks := afterOpening.takeWhile isBlank
      name := (afterOpening.dropWhile isBlank).takeWhile isNameChar
      label := label
      parted := ⟨parted, taken _ _⟩
      named := ⟨named, taken _ _⟩
      greedy := greedy
      unclosed := unclosed }
  have whole : afterOpening = tag.blanks ++ (tag.name ++ (tag.label ++ closing :: rest)) := by
    rw [← labelSplit, List.takeWhile_append_dropWhile, List.takeWhile_append_dropWhile]
  exact ⟨tag, rest, by rw [listAfter?_eq_some opened, tag.text_append, ← whole]⟩

/-- At one place stands at most one link, and its parts can be told apart in one way. -/
theorem Tag.unique {tag other : Tag} {rest more : List Char}
    (same : tag.text ++ rest = other.text ++ more) : tag = other ∧ rest = more := by
  rw [text_append, text_append] at same
  have afterOpening := List.append_cancel_left same
  have blanks := congrArg (List.takeWhile isBlank) afterOpening
  have afterBlanks := congrArg (List.dropWhile isBlank) afterOpening
  rw [(takes_blanks ..).1, (takes_blanks ..).1] at blanks
  rw [(takes_blanks ..).2, (takes_blanks ..).2] at afterBlanks
  have name := congrArg (List.takeWhile isNameChar) afterBlanks
  have afterName := congrArg (List.dropWhile isNameChar) afterBlanks
  rw [(takes_name ..).1, (takes_name ..).1] at name
  rw [(takes_name ..).2, (takes_name ..).2] at afterName
  have label := congrArg (List.takeWhile (· != closing)) afterName
  have afterLabel := congrArg (List.dropWhile (· != closing)) afterName
  rw [(takes_label ..).1, (takes_label ..).1] at label
  rw [(takes_label ..).2, (takes_label ..).2] at afterLabel
  exact ⟨Tag.ext blanks name label, (List.cons.inj afterLabel).2⟩

/-- The links of a text that stands at `pos`, with their places: the first that starts at all, and
those of what stands behind it. -/
inductive Leftmost : Nat → List Char → List (Nat × Tag) → Prop
  | none {pos : Nat} {cs : List Char}
    (absent : ∀ (before : List Char) (tag : Tag) (after : List Char),
      cs ≠ before ++ tag.text ++ after) :
    Leftmost pos cs []
  | next {pos : Nat} {before rest : List Char} {found : List (Nat × Tag)} (tag : Tag)
    (earliest : ∀ (ahead : List Char) (other : Tag) (behind : List Char),
      before ++ tag.text ++ rest = ahead ++ other.text ++ behind → before.length ≤ ahead.length)
    (later : Leftmost (pos + byteLength (before ++ tag.text)) rest found) :
    Leftmost pos (before ++ tag.text ++ rest) ((pos + byteLength before, tag) :: found)

namespace Leftmost

variable {pos : Nat} {cs : List Char} {found : List (Nat × Tag)}

theorem unique (first : Leftmost pos cs found) {other : List (Nat × Tag)}
    (second : Leftmost pos cs other) : found = other := by
  induction first generalizing other with
  | none absent =>
    cases second with
    | none _ => rfl
    | next tag _ _ => exact absurd rfl (absent _ tag _)
  | @next pos before rest found tag earliest later ih =>
    generalize written : before ++ tag.text ++ rest = cs at second
    cases second with
    | none absent => exact absurd written.symm (absent _ tag _)
    | @next _ ahead behind found other first second =>
      have size : before.length = ahead.length :=
        Nat.le_antisymm (earliest _ _ _ written) (first _ _ _ written.symm)
      rw [List.append_assoc, List.append_assoc] at written
      have ⟨same, texts⟩ := List.append_inj written size
      have ⟨equal, left⟩ := Tag.unique texts
      subst same equal left
      rw [ih second]

end Leftmost

theorem exists_earliest {cs before after : List Char} {tag : Tag}
    (split : cs = before ++ tag.text ++ after) :
    ∃ (ahead : List Char) (first : Tag) (behind : List Char), cs = ahead ++ first.text ++ behind ∧
      ∀ (before : List Char) (other : Tag) (after : List Char),
        cs = before ++ other.text ++ after → ahead.length ≤ before.length := by
  induction size : before.length using Nat.strongRecOn generalizing before tag after with
  | ind n ih =>
    by_cases earlier : ∃ (ahead : List Char) (other : Tag) (behind : List Char),
      cs = ahead ++ other.text ++ behind ∧ ahead.length < before.length
    · have ⟨ahead, other, behind, whole, shorter⟩ := earlier
      exact ih ahead.length (by omega) whole rfl
    · refine ⟨before, tag, after, split, ?_⟩
      intro ahead other behind whole
      by_contra shorter
      exact earlier ⟨ahead, other, behind, whole, by omega⟩

theorem exists_leftmost (pos : Nat) (cs : List Char) : ∃ found, Leftmost pos cs found := by
  induction size : cs.length using Nat.strongRecOn generalizing pos cs with
  | ind n ih =>
    by_cases linked : ∃ (before : List Char) (tag : Tag) (after : List Char),
      cs = before ++ tag.text ++ after
    · have ⟨_, _, _, split⟩ := linked
      have ⟨before, tag, rest, whole, earliest⟩ := exists_earliest split
      have shorter : rest.length < n := by
        rw [← size, whole]
        simp [Tag.text]
        omega
      have ⟨found, later⟩ := ih rest.length shorter (pos + byteLength (before ++ tag.text)) rest rfl
      subst whole
      exact ⟨_, .next tag earliest later⟩
    · exact ⟨[], .none fun before tag after whole => linked ⟨before, tag, after, whole⟩⟩

theorem linksFrom_skip (pos : Nat) (first rest : List Char) :
    linksFrom first.length pos (first ++ rest) = linksFrom 0 (pos + byteLength first) rest := by
  induction first generalizing pos with
  | nil => rfl
  | cons c first ih =>
    rw [List.length_cons, List.cons_append, linksFrom, ih, byteLength_cons, Nat.add_assoc]

theorem linksFrom_text (tag : Tag) (pos : Nat) (rest : List Char) :
    linksFrom 0 pos (tag.text ++ rest) =
      tag.link pos :: linksFrom 0 (pos + byteLength tag.text) rest := by
  have here := linkAt?_text tag pos rest
  cases written : tag.text with
  | nil => simp [Tag.text] at written
  | cons c text =>
    rw [written, List.cons_append] at here
    rw [List.cons_append, linksFrom]
    simp only [here, List.length_cons, Nat.add_sub_cancel]
    rw [linksFrom_skip, byteLength_cons, Nat.add_assoc]

theorem linksFrom_before (pos : Nat) {before rest : List Char}
    (absent : ∀ (ahead : List Char) (tag : Tag) (behind : List Char),
      before ++ rest = ahead ++ tag.text ++ behind → before.length ≤ ahead.length) :
    linksFrom 0 pos (before ++ rest) = linksFrom 0 (pos + byteLength before) rest := by
  induction before generalizing pos with
  | nil => rfl
  | cons c before ih =>
    have later := ih (pos + c.utf8Size) (by
      intro ahead tag behind whole
      have bound := absent (c :: ahead) tag behind (by simp [whole])
      simpa using bound)
    rw [List.cons_append, linksFrom, byteLength_cons, ← Nat.add_assoc, ← later]
    cases here : linkAt? pos (c :: (before ++ rest)) with
    | none => rfl
    | some found =>
      have ⟨tag, behind, whole⟩ := exists_tag here
      have bound := absent [] tag behind whole
      simp at bound

namespace Leftmost

variable {pos : Nat} {cs : List Char} {found : List (Nat × Tag)}

theorem linksFrom_eq (leftmost : Leftmost pos cs found) :
    linksFrom 0 pos cs = found.map fun place => place.2.link place.1 := by
  induction leftmost with
  | @none pos cs absent =>
    have passed := @linksFrom_before pos cs [] (by
      intro ahead tag behind whole
      rw [List.append_nil] at whole
      exact absurd whole (absent ahead tag behind))
    rwa [List.append_nil] at passed
  | @next pos before rest found tag earliest later ih =>
    rw [List.append_assoc] at *
    rw [linksFrom_before pos (by simpa using earliest), linksFrom_text, List.map_cons, ← ih,
      byteLength_append, Nat.add_assoc]

theorem part (leftmost : Leftmost pos cs found) :
    ∀ place ∈ found, Part pos cs place.1 place.2.text := by
  induction leftmost with
  | none _ => simp
  | @next pos before rest found tag earliest later ih =>
    intro place member
    rcases List.mem_cons.mp member with rfl | member
    · exact .append pos before tag.text rest
    · have behind := Part.append pos (before ++ tag.text) rest []
      rw [List.append_nil] at behind
      exact behind.trans (ih place member)

/-- Links do not overlap: each starts behind the one before. -/
theorem inRow (leftmost : Leftmost pos cs found) :
    InRow pos (pos + byteLength cs) (found.map fun place => (place.2.link place.1).span) := by
  induction leftmost with
  | none _ => exact Nat.le_add_right _ _
  | @next pos before rest found tag earliest later ih =>
    rw [byteLength_append, Nat.add_assoc] at ih
    refine ⟨Nat.le_add_right _ _, Nat.le_add_right _ _, ih.widen ?_ ?_⟩
    · simp [Tag.link]; omega
    · simp; omega

end Leftmost

/-- The trimmed label begins with a character that no margin has, so that it is found where it was
trimmed from and nowhere before. -/
theorem labelSpan_eq (start : Nat) (label : List Char) :
    labelSpan start label =
      if (trimBoth isMargin label).isEmpty then none
      else
        some ⟨start + byteLength (label.takeWhile isMargin),
          start + byteLength (label.takeWhile isMargin) + byteLength (trimBoth isMargin label)⟩ := by
  have ⟨tail, split, _⟩ := trimBoth_split isMargin label
  cases trimmed : trimBoth isMargin label with
  | nil => simp [labelSpan, trimmed, guard]
  | cons c kept =>
    have visible : isMargin c = false := head?_trimBoth c (by rw [trimmed]; rfl)
    have fresh : c ∉ label.takeWhile isMargin := by
      intro member
      have margin := List.all_eq_true.mp List.all_takeWhile c member
      rw [visible] at margin
      cases margin
    have found : indexOfList? (c :: kept) label = some (label.takeWhile isMargin).length := by
      rw [trimmed, List.append_assoc] at split
      have here := indexOfList?_append fresh (List.prefix_append (c :: kept) tail)
      rwa [← split] at here
    have ahead : label.take (label.takeWhile isMargin).length = label.takeWhile isMargin :=
      (List.prefix_iff_eq_take.mp (List.takeWhile_prefix _)).symm
    simp [labelSpan, trimmed, found, ahead, guard]

example : labelSpan 0 " **a*a* ".toList = some ⟨3, 6⟩ := by decide

theorem labelSpan_inRow (start : Nat) (label : List Char) :
    InRow start (start + byteLength label) (labelSpan start label).toList := by
  have ⟨tail, whole, _⟩ := trimBoth_split isMargin label
  have bound := congrArg byteLength whole
  rw [byteLength_append, byteLength_append] at bound
  rw [labelSpan_eq]
  split
  · exact Nat.le_add_right _ _
  · simp only [Option.toList_some, inRow_cons, inRow_nil]
    omega

theorem labelSpan_part {start : Nat} {label : List Char} {span : Span}
    (found : labelSpan start label = some span) :
    Part start label span.start (trimBoth isMargin label) ∧
      span.stop = span.start + byteLength (trimBoth isMargin label) := by
  rw [labelSpan_eq] at found
  split at found
  · cases found
  · obtain rfl := Option.some.inj found
    have ⟨tail, whole, _⟩ := trimBoth_split isMargin label
    exact ⟨⟨_, tail, whole, rfl⟩, rfl⟩

def Link.parts (link : Link) : List Span :=
  link.reference :: link.label.toList

namespace Tag

variable (tag : Tag) (pos : Nat)

theorem name_part : Part pos tag.text (tag.link pos).reference.start tag.name := by
  have whole : tag.text = opening ++ tag.blanks ++ tag.name ++ (tag.label ++ [closing]) := by
    simp [text]
  rw [whole]
  exact .append pos (opening ++ tag.blanks) tag.name _

theorem label_part : Part pos tag.text (tag.link pos).reference.stop tag.label :=
  .append pos (opening ++ tag.blanks ++ tag.name) tag.label [closing]

theorem parts_inRow :
    InRow (tag.link pos).span.start (tag.link pos).span.stop (tag.link pos).parts := by
  have row := labelSpan_inRow (pos + byteLength (opening ++ tag.blanks ++ tag.name)) tag.label
  refine ⟨Nat.le_add_right _ _, ?_, row.widen (Nat.le_refl _) ?_⟩
  · simp only [link, byteLength_append]
    omega
  · simp only [link, text, byteLength_append]
    omega

theorem spans_part :
    ∀ span ∈ (tag.link pos).span :: (tag.link pos).parts,
      ∃ part, Part pos tag.text span.start part ∧ span.stop = span.start + byteLength part := by
  intro span member
  simp only [Link.parts, List.mem_cons, Option.mem_toList] at member
  rcases member with rfl | rfl | labelled
  · exact ⟨tag.text, ⟨[], [], by simp, rfl⟩, rfl⟩
  · refine ⟨tag.name, tag.name_part pos, ?_⟩
    simp only [link, byteLength_append, Nat.add_assoc]
  · have ⟨stands, stops⟩ := labelSpan_part labelled
    exact ⟨_, (tag.label_part pos).trans stands, stops⟩

end Tag

theorem linksFrom_inRow (pos : Nat) (cs : List Char) :
    InRow pos (pos + byteLength cs) ((linksFrom 0 pos cs).map (·.span)) := by
  have ⟨found, leftmost⟩ := exists_leftmost pos cs
  rw [leftmost.linksFrom_eq, List.map_map]
  exact leftmost.inRow

theorem exists_tag_of_mem_linksFrom {pos : Nat} {cs : List Char} {link : Link}
    (member : link ∈ linksFrom 0 pos cs) :
    ∃ (start : Nat) (tag : Tag), link = tag.link start ∧ Part pos cs start tag.text := by
  have ⟨found, leftmost⟩ := exists_leftmost pos cs
  rw [leftmost.linksFrom_eq] at member
  have ⟨place, inside, same⟩ := List.mem_map.mp member
  exact ⟨place.1, place.2, same.symm, leftmost.part place inside⟩

end SpringLint.Javadoc
