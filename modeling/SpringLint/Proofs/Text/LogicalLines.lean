import SpringLint.Text.Properties

/-! The lines of a document of keys and values, and how the reader joins them. -/

namespace SpringLint.Properties

open Text

inductive Newline where
  | lf
  | crlf

def Newline.text : Newline → List Char
  | lf => ['\n']
  | crlf => ['\r', '\n']

/-- The end of a line takes nothing from it. -/
def Newline.Closes (newline : Newline) (line : List Char) : Prop :=
  newline = .crlf ∨ line.getLast? ≠ some '\r'

theorem Newline.cases_closes (newline : Newline) (line : List Char) :
    newline.Closes line ∨ newline = .lf ∧ line.getLast? = some '\r' := by
  cases newline with
  | lf =>
    by_cases returns : line.getLast? = some '\r'
    · exact .inr ⟨rfl, returns⟩
    · exact .inl (.inr returns)
  | crlf => exact .inl (.inl rfl)

theorem Newline.append_lf (front cs : List Char) :
    front ++ ['\r'] ++ lf.text ++ cs = front ++ crlf.text ++ cs := by
  rw [List.append_assoc front]
  rfl

/-- A line from its characters, the last one first. -/
def lineOf (reversed : List Char) : List Char :=
  match reversed with
  | '\r' :: rest => rest.reverse
  | _ => reversed.reverse

def linesFrom (reversed cs : List Char) : List (List Char) :=
  (lines.go (fun line => String.ofList (lineOf line)) reversed cs).map String.toList

def naturalLines (cs : List Char) : List (List Char) :=
  linesFrom [] cs

section Lines

variable {front line cs : List Char} {newline : Newline}

theorem map_toList_lines (s : String) : (lines s).map String.toList = naturalLines s.toList :=
  rfl

theorem linesFrom_lineFeed (reversed cs : List Char) :
    linesFrom reversed ('\n' :: cs) = lineOf reversed :: naturalLines cs := by
  rw [← String.toList_ofList (l := lineOf reversed)]
  rfl

theorem linesFrom_cons {c : Char} (other : c ≠ '\n') (reversed cs : List Char) :
    linesFrom reversed (c :: cs) = linesFrom (c :: reversed) cs := by
  rw [linesFrom, lines.go, beq_eq_false_iff_ne.mpr other]
  rfl

theorem linesFrom_nil (reversed : List Char) :
    linesFrom reversed [] = if reversed.isEmpty then [] else [reversed.reverse] := by
  rw [linesFrom, lines.go]
  split
  · rfl
  · rw [List.map_singleton, String.toList_ofList]

theorem linesFrom_append (inline : '\n' ∉ front) (reversed cs : List Char) :
    linesFrom reversed (front ++ cs) = linesFrom (front.reverse ++ reversed) cs := by
  induction front generalizing reversed with
  | nil => rfl
  | cons c front ih =>
    calc linesFrom reversed (c :: (front ++ cs))
        = linesFrom (c :: reversed) (front ++ cs) :=
          linesFrom_cons (List.ne_of_not_mem_cons inline).symm _ _
      _ = linesFrom ((c :: front).reverse ++ reversed) cs := by
          rw [ih (List.not_mem_of_not_mem_cons inline), List.reverse_cons, List.append_assoc,
            List.singleton_append]

theorem lineOf_reverse (plain : line.getLast? ≠ some '\r') : lineOf line.reverse = line := by
  rw [List.getLast?_eq_head?_reverse] at plain
  rw [lineOf]
  · exact List.reverse_reverse line
  · intro rest returns
    rw [returns] at plain
    exact plain rfl

theorem naturalLines_close (inline : '\n' ∉ line) (closed : newline.Closes line) (cs : List Char) :
    naturalLines (line ++ newline.text ++ cs) = line :: naturalLines cs := by
  rw [naturalLines, List.append_assoc, linesFrom_append inline, List.append_nil]
  cases newline with
  | lf =>
    calc linesFrom line.reverse ('\n' :: cs)
        = lineOf line.reverse :: naturalLines cs := linesFrom_lineFeed _ _
      _ = line :: naturalLines cs := by rw [lineOf_reverse (closed.resolve_left nofun)]
  | crlf =>
    calc linesFrom line.reverse ('\r' :: '\n' :: cs)
        = lineOf ('\r' :: line.reverse) :: naturalLines cs := linesFrom_lineFeed _ _
      _ = line :: naturalLines cs := by rw [lineOf, List.reverse_reverse]

theorem exists_naturalLines_eq (inline : '\n' ∉ line) (newline : Newline) (cs : List Char) :
    ∃ read, (read = line ∨ read ++ ['\r'] = line) ∧
      naturalLines (line ++ newline.text ++ cs) = read :: naturalLines cs := by
  rcases newline.cases_closes line with closed | ⟨rfl, returns⟩
  · exact ⟨line, .inl rfl, naturalLines_close inline closed cs⟩
  · have ⟨read, same⟩ := List.getLast?_eq_some_iff.mp returns
    have shorter : '\n' ∉ read := fun member => inline (same ▸ List.mem_append_left _ member)
    refine ⟨read, .inr same.symm, ?_⟩
    rw [same, Newline.append_lf, naturalLines_close shorter (.inl rfl)]

theorem exists_linesFrom_eq {c : Char} (other : c ≠ '\r') (later front cs : List Char) :
    ∃ line rest, linesFrom (later ++ c :: front) cs = (front.reverse ++ c :: line) :: rest := by
  have turned (later : List Char) :
      (later ++ c :: front).reverse = front.reverse ++ c :: later.reverse := by
    rw [List.reverse_append, List.reverse_cons, List.append_assoc, List.singleton_append]
  -- `later` is what the line has taken since, so that `c` is never its last character but at first.
  induction cs generalizing later with
  | nil =>
    have filled : (later ++ c :: front).isEmpty = false := by
      cases later <;> rfl
    refine ⟨later.reverse, [], ?_⟩
    rw [linesFrom_nil, filled, turned]
    rfl
  | cons d cs ih =>
    by_cases ends : d = '\n'
    · rw [ends, linesFrom_lineFeed, lineOf.eq_def]
      split
      · rename_i rest returns
        cases later with
        | nil => exact absurd (List.cons.inj returns).1 other
        | cons e later =>
          cases returns
          exact ⟨later.reverse, _, congrArg (· :: naturalLines cs) (turned later)⟩
      · exact ⟨later.reverse, _, by rw [turned]⟩
    · rw [linesFrom_cons ends]
      exact ih (d :: later)

theorem linesFrom_crlf (reversed cs : List Char) :
    linesFrom reversed (cs ++ Newline.crlf.text) = linesFrom reversed cs ∨
      linesFrom reversed (cs ++ Newline.crlf.text) = linesFrom reversed cs ++ [[]] := by
  induction cs generalizing reversed with
  | nil =>
    have ended : linesFrom reversed Newline.crlf.text = [reversed.reverse] := by
      rw [Newline.text, linesFrom_cons (by decide), linesFrom_lineFeed]
      rfl
    rw [List.nil_append, ended, linesFrom_nil]
    cases reversed with
    | nil => exact .inr rfl
    | cons c rest => exact .inl rfl
  | cons c cs ih =>
    by_cases ends : c = '\n'
    · rw [ends, List.cons_append, linesFrom_lineFeed, linesFrom_lineFeed]
      exact (ih []).imp (congrArg _) (congrArg _)
    · rw [List.cons_append, linesFrom_cons ends, linesFrom_cons ends]
      exact ih (c :: reversed)

theorem continues_concat (cs : List Char) (c : Char) :
    continues (cs ++ [c]) = if c = '\\' then !continues cs else false := by
  rw [continues, continues, List.reverse_append, List.reverse_singleton, List.singleton_append,
    List.takeWhile_cons]
  split
  · rename_i backslash
    rw [if_pos (beq_iff_eq.mp backslash), List.length_cons]
    rcases Nat.mod_two_eq_zero_or_one (cs.reverse.takeWhile (· == '\\')).length with even | odd
    · rw [even, Nat.add_mod, even]
      rfl
    · rw [odd, Nat.add_mod, odd]
      rfl
  · rename_i other
    rw [if_neg fun same => other (beq_iff_eq.mpr same)]
    rfl

theorem not_continues_dropLast (goes : continues line = true) : continues line.dropLast = false := by
  rcases List.eq_nil_or_concat line with rfl | ⟨front, c, rfl⟩
  · cases goes
  · rw [List.concat_eq_append] at goes ⊢
    rw [continues_concat] at goes
    rw [List.dropLast_concat]
    split at goes
    · rwa [Bool.not_eq_true'] at goes
    · cases goes

theorem logicalLines_held (held line : List Char) (natural : List (List Char)) :
    logicalLines (some held) (line :: natural) =
      if continues (held ++ line.dropWhile isBlank) then
        logicalLines (some (held ++ line.dropWhile isBlank).dropLast) natural
      else (held ++ line.dropWhile isBlank) :: logicalLines none natural := by
  rw [logicalLines]

theorem logicalLines_concat_nil (begun : Option (List Char)) (natural : List (List Char))
    (whole : ∀ held ∈ begun, continues held = false) :
    logicalLines begun (natural ++ [[]]) = logicalLines begun natural := by
  induction natural generalizing begun with
  | nil =>
    cases begun with
    | none => rfl
    | some held =>
      rw [List.nil_append, logicalLines_held, List.dropWhile_nil, List.append_nil, whole held rfl]
      rfl
  | cons line natural ih =>
    have next := ih none nofun
    have goesOn (joined : List Char) (goes : continues joined = true) :
        logicalLines (some joined.dropLast) (natural ++ [[]]) =
          logicalLines (some joined.dropLast) natural :=
      ih _ fun held same => by
        cases same
        exact not_continues_dropLast goes
    cases begun with
    | none =>
      rw [List.cons_append, logicalLines, logicalLines]
      split
      · exact next
      · split
        · exact goesOn _ ‹_›
        · rw [next]
    | some held =>
      rw [List.cons_append, logicalLines_held, logicalLines_held]
      split
      · exact goesOn _ ‹_›
      · rw [next]

theorem logicalLines_crlf (cs : List Char) :
    logicalLines none (naturalLines (cs ++ Newline.crlf.text)) = logicalLines none (naturalLines cs) := by
  rcases linesFrom_crlf [] cs with same | longer
  · rw [naturalLines, same, naturalLines]
  · rw [naturalLines, longer, logicalLines_concat_nil none _ nofun, naturalLines]

theorem logicalLines_skip {natural : List (List Char)}
    (skipped : isSkipped (line.dropWhile isBlank) = true) :
    logicalLines none (line :: natural) = logicalLines none natural := by
  rw [logicalLines]
  simp only [skipped, if_true]

theorem isSkipped_of_concat {c : Char}
    (skipped : isSkipped ((line ++ [c]).dropWhile isBlank) = true) :
    isSkipped (line.dropWhile isBlank) = true := by
  rw [List.dropWhile_append] at skipped
  cases dropped : line.dropWhile isBlank with
  | nil => rfl
  | cons d rest =>
    rw [dropped] at skipped
    exact skipped

theorem logicalLines_skipped (inline : '\n' ∉ line)
    (skipped : isSkipped (line.dropWhile isBlank) = true) (newline : Newline) (cs : List Char) :
    logicalLines none (naturalLines (line ++ newline.text ++ cs)) =
      logicalLines none (naturalLines cs) := by
  have ⟨read, same, natural⟩ := exists_naturalLines_eq inline newline cs
  have still : isSkipped (read.dropWhile isBlank) = true := by
    rcases same with rfl | rfl
    · exact skipped
    · exact isSkipped_of_concat skipped
  rw [natural, logicalLines_skip still]

theorem logicalLines_begin {natural : List (List Char)}
    (kept : isSkipped (line.dropWhile isBlank) = false) :
    logicalLines none (line :: natural) = logicalLines (some []) (line :: natural) := by
  rw [logicalLines, logicalLines]
  simp only [kept, Bool.false_eq_true, if_false, List.nil_append]

theorem logicalLines_start {blanks : List Char} (empty : blanks.dropWhile isBlank = [])
    (inline : '\n' ∉ blanks) {c : Char} (kept : isBlank c = false ∧ c ≠ '#' ∧ c ≠ '!') (cs : List Char) :
    logicalLines none (naturalLines (blanks ++ c :: cs)) =
      logicalLines (some []) (naturalLines (blanks ++ c :: cs)) := by
  have ⟨visible, hash, bang⟩ := kept
  have other : c ≠ '\n' := by
    rintro rfl
    exact absurd visible (by decide)
  have same : c ≠ '\r' := by
    rintro rfl
    exact absurd visible (by decide)
  have ⟨line, rest, found⟩ := exists_linesFrom_eq same [] blanks.reverse cs
  have natural : naturalLines (blanks ++ c :: cs) = (blanks ++ c :: line) :: rest := by
    rw [naturalLines, linesFrom_append inline, linesFrom_cons other, List.append_nil, ← List.nil_append
      (c :: blanks.reverse), found, List.reverse_reverse]
  have first : (blanks ++ c :: line).dropWhile isBlank = c :: line := by
    rw [List.dropWhile_append, empty, List.dropWhile_cons, visible]
    rfl
  have filled : isSkipped ((blanks ++ c :: line).dropWhile isBlank) = false := by
    rw [first, isSkipped, beq_eq_false_iff_ne.mpr hash, beq_eq_false_iff_ne.mpr bang]
    rfl
  rw [natural, logicalLines_begin filled]

end Lines

end SpringLint.Properties
