import SpringLint.Proofs.Text.Written

/-! Documents of keys and values as they may be written, and that the reader finds in one the pairs that
were written. -/

namespace SpringLint.Properties

open Text

inductive Separator where
  | blanks (first : Blank) (rest : List Blank)
  | sign (ahead : List Blank) (breaks : List Break) (colon : Bool) (behind : List Blank)

namespace Separator

def isSigned : Separator → Bool
  | blanks _ _ => false
  | sign _ _ _ _ => true

def signChar (colon : Bool) : Char :=
  if colon then ':' else '='

def signWritten (breaks : List Break) (colon : Bool) : Written where
  breaks := breaks
  spelling := .raw (signChar colon) (by cases colon <;> decide)
  fits _ own blank := by
    cases own
    cases colon <;> exact absurd blank (by decide)

def written : Separator → List Written
  | blanks first rest => (first :: rest).map Blank.written
  | sign ahead breaks colon behind =>
    ahead.map Blank.written ++ signWritten breaks colon :: behind.map Blank.written

end Separator

/-- A key and a value as written. Of the characters that are written as they are, none ends the key, marks
a comment, or counts to the separator; nor does the value end in a carriage return. -/
structure Entry where
  key : List Written
  separator : Separator
  value : List Written
  inside : ∀ w ∈ key, ∀ c ∈ w.spelling.raw?, endsKey c = false
  unmarked : ∀ w ∈ key.head?, ∀ c ∈ w.spelling.raw?, c ≠ '#' ∧ c ≠ '!'
  apart : ∀ w ∈ value.head?, ∀ c ∈ w.spelling.raw?,
    isBlank c = false ∧ (separator.isSigned = false → c ≠ '=' ∧ c ≠ ':')
  ended : ∀ w ∈ value.getLast?, w.spelling.text.getLast? ≠ some '\r'

namespace Entry

def written (e : Entry) : List Written :=
  e.key ++ e.separator.written ++ e.value

def text (e : Entry) : List Char :=
  e.written.flatMap Written.text

def pair (e : Entry) : String × String :=
  (decoded e.key, decoded e.value)

/-- An entry without a key has an equals sign or a colon. -/
def Signed (e : Entry) : Prop :=
  e.key = [] → e.separator.isSigned = true

end Entry

namespace Separator

theorem written_ne_nil (separator : Separator) : separator.written ≠ [] := by
  cases separator with
  | blanks first rest => exact List.cons_ne_nil _ _
  | sign ahead breaks colon behind => exact List.append_ne_nil_of_right_ne_nil _ (List.cons_ne_nil _ _)

theorem mem_written {separator : Separator} {w : Written} (listed : w ∈ separator.written) :
    (∃ b : Blank, w = b.written) ∨ ∃ breaks colon, w = signWritten breaks colon := by
  have blank {blanks : List Blank} (listed : w ∈ blanks.map Blank.written) : ∃ b : Blank, w = b.written :=
    have ⟨b, _, same⟩ := List.mem_map.mp listed
    ⟨b, same.symm⟩
  cases separator with
  | blanks first rest => exact .inl (blank listed)
  | sign ahead breaks colon behind =>
    rcases List.mem_append.mp listed with front | back
    · exact .inl (blank front)
    · rcases List.mem_cons.mp back with same | back
      · exact .inr ⟨breaks, colon, same⟩
      · exact .inl (blank back)

theorem plain_sign (ahead : List Blank) (breaks : List Break) (colon : Bool) (behind : List Blank) :
    plain (sign ahead breaks colon behind).written =
      ahead.map (·.1) ++ signChar colon :: behind.map (·.1) := by
  rw [written, plain_append, plain_cons, plain_blanks, plain_blanks]
  rfl

theorem dropWhile_sign (ahead : List Blank) (colon : Bool) (cs : List Char) :
    (ahead.map (·.1) ++ signChar colon :: cs).dropWhile isBlank = signChar colon :: cs := by
  have visible : isBlank (signChar colon) = false := by cases colon <;> decide
  rw [dropWhile_append_text (.inr fun c first => by cases first; exact visible), dropWhile_blanks,
    List.nil_append]

theorem endsKey_signChar (colon : Bool) : endsKey (signChar colon) = true := by
  cases colon <;> decide

theorem endsKey_head {separator : Separator} {cs : List Char} {c : Char}
    (first : c ∈ (plain separator.written ++ cs).head?) : endsKey c = true := by
  have blank (b : Blank) : endsKey b.1 = true := by rw [endsKey, b.2.1, Bool.or_true]
  cases separator with
  | blanks b rest =>
    cases first
    exact blank b
  | sign ahead breaks colon behind =>
    rw [plain_sign] at first
    cases ahead with
    | nil =>
      cases first
      exact endsKey_signChar colon
    | cons b rest =>
      cases first
      exact blank b

theorem endsKey_head_dropWhile {separator : Separator} (signed : separator.isSigned = true)
    {cs : List Char} {c : Char}
    (first : c ∈ ((plain separator.written ++ cs).dropWhile isBlank).head?) : endsKey c = true := by
  cases separator with
  | blanks b rest => cases signed
  | sign ahead breaks colon behind =>
    rw [plain_sign, List.append_assoc, List.cons_append, dropWhile_sign] at first
    cases first
    exact endsKey_signChar colon

theorem valuePart_written (separator : Separator) {value : List Char}
    (apart : ∀ c ∈ value.head?, isBlank c = false ∧ (separator.isSigned = false → c ≠ '=' ∧ c ≠ ':')) :
    valuePart (plain separator.written ++ value) = value := by
  have kept (blanks : List Blank) : (blanks.map (·.1) ++ value).dropWhile isBlank = value := by
    rw [dropWhile_append_text (.inr fun c first => (apart c first).1), dropWhile_blanks, List.nil_append]
  cases separator with
  | blanks first rest =>
    rw [valuePart, written, plain_blanks, kept]
    split
    · exact absurd rfl ((apart '=' rfl).2 rfl).1
    · exact absurd rfl ((apart ':' rfl).2 rfl).2
    · rfl
  | sign ahead breaks colon behind =>
    rw [valuePart, plain_sign, List.append_assoc, List.cons_append, dropWhile_sign]
    cases colon <;> exact kept behind

end Separator

theorem valuePart_of_concat {cs : List Char} {b : Char} (empty : valuePart (cs ++ [b]) = []) :
    valuePart cs = [] := by
  have shorter (cs : List Char) (blank : (cs ++ [b]).dropWhile isBlank = []) :
      cs.dropWhile isBlank = [] := by
    rw [List.dropWhile_eq_nil_iff] at blank ⊢
    exact fun c listed => blank c (List.mem_append_left _ listed)
  rw [valuePart] at empty ⊢
  cases dropped : cs.dropWhile isBlank with
  | nil => rfl
  | cons c more =>
    rw [List.dropWhile_append, dropped, List.isEmpty_cons, if_neg Bool.false_ne_true,
      List.cons_append] at empty
    split at empty
    · rename_i same
      cases same
      exact shorter more empty
    · rename_i same
      cases same
      exact shorter more empty
    · cases empty

theorem splitKey_nil {cs : List Char} (stops : ∀ c ∈ cs.head?, endsKey c = true) :
    splitKey cs = ([], cs) := by
  cases cs with
  | nil => rw [splitKey]
  | cons c cs => exact splitKey_stop (stops c rfl) cs

theorem pair_eq (line : List Char) : pair line =
    (String.ofList (unescape (splitKey line).1), String.ofList (unescape (valuePart (splitKey line).2))) :=
  rfl

/-- The pair in a logical line: a key as written, and behind it something that ends a key. -/
theorem pair_dropWhile {key : List Written}
    (inside : ∀ w ∈ key, ∀ c ∈ w.spelling.raw?, endsKey c = false) {gap : List Char}
    (stops : ∀ c ∈ gap.head?, endsKey c = true)
    (signed : key = [] → ∀ c ∈ (gap.dropWhile isBlank).head?, endsKey c = true) :
    pair ((plain key ++ gap).dropWhile isBlank) =
      (decoded key, String.ofList (unescape (valuePart gap))) := by
  cases key with
  | nil =>
    have same : valuePart (gap.dropWhile isBlank) = valuePart gap := by
      rw [valuePart, valuePart, List.dropWhile_idempotent]
    rw [plain, List.flatMap_nil, List.nil_append, pair_eq, splitKey_nil (signed rfl), same]
    rfl
  | cons w key =>
    have visible : ∀ c ∈ (plain (w :: key) ++ gap).head?, isBlank c = false := fun c first => by
      rw [List.head?_append_of_ne_nil _ (plain_ne_nil (List.cons_ne_nil w key)), head?_plain] at first
      have free : ∀ c ∈ w.spelling.raw?, isBlank c = false := fun c own =>
        isBlank_of_endsKey (inside w List.mem_cons_self c own)
      exact w.spelling.isBlank_head free first
    rw [dropWhile_of_head visible, pair_eq, splitKey_plain inside, splitKey_nil stops, List.append_nil,
      unescape_plain]
    rfl

theorem pair_dropWhile_of_concat {key : List Written}
    (inside : ∀ w ∈ key, ∀ c ∈ w.spelling.raw?, endsKey c = false) {gap : List Char} {b : Char}
    (stops : ∀ c ∈ (gap ++ [b]).head?, endsKey c = true)
    (signed : key = [] → ∀ c ∈ ((gap ++ [b]).dropWhile isBlank).head?, endsKey c = true)
    (empty : valuePart (gap ++ [b]) = []) :
    pair ((plain key ++ gap).dropWhile isBlank) = (decoded key, "") := by
  have shorter : ∀ c ∈ gap.head?, endsKey c = true := fun c first =>
    stops c (by rw [List.head?_append, first]; rfl)
  have signs : key = [] → ∀ c ∈ (gap.dropWhile isBlank).head?, endsKey c = true :=
    fun none c first => signed none c (by
      have filled : (gap.dropWhile isBlank).isEmpty = false := by
        cases dropped : gap.dropWhile isBlank with
        | nil => rw [dropped] at first; cases first
        | cons => rfl
      rw [List.dropWhile_append, filled, if_neg Bool.false_ne_true, List.head?_append, first]
      rfl)
  rw [pair_dropWhile inside shorter signs, valuePart_of_concat empty]
  rfl

namespace Entry

variable (e : Entry)

theorem begins (signed : e.Signed) : Begins e.written := by
  cases keyed : e.key with
  | nil =>
    have signed := signed keyed
    rw [written, keyed, List.nil_append]
    cases parted : e.separator with
    | blanks first rest =>
      rw [parted] at signed
      cases signed
    | sign ahead breaks colon behind =>
      have starts : (Separator.signWritten breaks colon).Starts := fun c own => by
        cases own
        cases colon <;> decide
      refine ⟨ahead, Separator.signWritten breaks colon, behind.map Blank.written ++ e.value, ?_, starts⟩
      rw [Separator.written, List.append_assoc, List.cons_append]
  | cons w key =>
    have starts : w.Starts := fun c own =>
      ⟨isBlank_of_endsKey (e.inside w (keyed ▸ List.mem_cons_self) c own),
        e.unmarked w (by rw [keyed]; rfl) c own⟩
    refine ⟨[], w, key ++ e.separator.written ++ e.value, ?_, starts⟩
    rw [written, keyed]
    rfl

theorem last (w : Written) (ends : w ∈ e.written.getLast?)
    (returns : w.spelling.text.getLast? = some '\r') : ∃ b : Blank, w = b.written := by
  rw [written] at ends
  by_cases empty : e.value = []
  · rw [empty, List.append_nil, List.getLast?_append_of_ne_nil _ e.separator.written_ne_nil] at ends
    rcases Separator.mem_written (List.mem_of_getLast? ends) with blank | ⟨breaks, colon, rfl⟩
    · exact blank
    · have sign : ∀ colon, [Separator.signChar colon].getLast? ≠ some '\r' := by decide
      exact absurd returns (sign colon)
  · rw [List.getLast?_append_of_ne_nil _ empty] at ends
    exact absurd returns (e.ended w ends)

theorem apart_plain {c : Char} (first : c ∈ (plain e.value).head?) :
    isBlank c = false ∧ (e.separator.isSigned = false → c ≠ '=' ∧ c ≠ ':') := by
  cases valued : e.value with
  | nil =>
    rw [valued] at first
    cases first
  | cons w value =>
    have apart := e.apart w (by rw [valued]; rfl)
    rw [valued, head?_plain] at first
    rcases w.spelling.text_cases with ⟨d, own, same⟩ | ⟨-, t, same⟩
    · rw [same] at first
      cases first
      exact apart c own
    · rw [same] at first
      cases first
      exact ⟨by decide, fun _ => by decide⟩

theorem plain_written : plain e.written =
    plain e.key ++ (plain e.separator.written ++ plain e.value) := by
  rw [written, plain_append, plain_append, List.append_assoc]

theorem valuePart_eq : valuePart (plain e.separator.written ++ plain e.value) = plain e.value :=
  e.separator.valuePart_written fun _ => e.apart_plain

theorem value_eq_nil (returns : (plain e.written).getLast? = some '\r') : e.value = [] := by
  rcases List.eq_nil_or_concat e.value with none | ⟨front, w, some⟩
  · exact none
  · have ends : w ∈ e.value.getLast? := by
      rw [some, List.concat_eq_append, List.getLast?_concat]
      rfl
    have last : w ∈ e.written.getLast? := List.mem_getLast?_append_of_mem_getLast? ends
    rw [getLast?_plain last] at returns
    exact absurd returns (e.ended w ends)

theorem pair_plain (signed : e.Signed) :
    Properties.pair ((plain e.written).dropWhile isBlank) = e.pair := by
  rw [plain_written, pair_dropWhile e.inside (fun _ => Separator.endsKey_head)
    (fun none _ => Separator.endsKey_head_dropWhile (signed none)), valuePart_eq, unescape_plain]
  rfl

theorem pair_of_concat (signed : e.Signed) {line : List Char}
    (shorter : line ++ ['\r'] = plain e.written) :
    Properties.pair (line.dropWhile isBlank) = e.pair := by
  have empty : e.value = [] := e.value_eq_nil (by rw [← shorter, List.getLast?_concat])
  rcases List.eq_nil_or_concat (plain e.separator.written ++ plain e.value) with none | ⟨gap, c, same⟩
  · exact absurd (List.append_eq_nil_iff.mp none).1 (plain_ne_nil e.separator.written_ne_nil)
  · rw [List.concat_eq_append] at same
    have stops : ∀ d ∈ (gap ++ [c]).head?, endsKey d = true := by
      rw [← same]
      exact fun _ => Separator.endsKey_head
    have signs : e.key = [] → ∀ d ∈ ((gap ++ [c]).dropWhile isBlank).head?, endsKey d = true := by
      rw [← same]
      exact fun none _ => Separator.endsKey_head_dropWhile (signed none)
    have none : valuePart (gap ++ [c]) = [] := by
      rw [← same, valuePart_eq, empty]
      rfl
    rw [plain_written, same, ← List.append_assoc] at shorter
    rw [(List.append_inj' shorter rfl).1, pair_dropWhile_of_concat e.inside stops signs none, pair, empty]
    rfl

theorem exists_pair (signed : e.Signed) (newline : Newline) (cs : List Char) :
    ∃ line, Properties.pair line = e.pair ∧
      logicalLines none (naturalLines (e.text ++ newline.text ++ cs)) =
        line :: logicalLines none (naturalLines cs) := by
  have ⟨line, kept, read⟩ := exists_logicalLine (e.begins signed) e.last newline cs
  refine ⟨line.dropWhile isBlank, ?_, read⟩
  rcases kept with rfl | shorter
  · exact e.pair_plain signed
  · exact e.pair_of_concat signed shorter

end Entry

inductive Line where
  | blank (blanks : List Blank)
  | comment (indentation : List Blank) (bang : Bool) (remark : List Char) (inline : '\n' ∉ remark)
  | entry (e : Entry)

namespace Line

def text : Line → List Char
  | blank blanks => blanks.map (·.1)
  | comment indentation bang remark _ =>
    indentation.map (·.1) ++ (if bang then '!' else '#') :: remark
  | entry e => e.text

def entries : Line → List Entry
  | entry e => [e]
  | _ => []

theorem map_pair_logicalLines (line : Line) (signed : ∀ e ∈ line.entries, e.Signed) (newline : Newline)
    (cs : List Char) :
    (logicalLines none (naturalLines (line.text ++ newline.text ++ cs))).map pair =
      line.entries.map Entry.pair ++ (logicalLines none (naturalLines cs)).map pair := by
  cases line with
  | blank blanks =>
    have skipped : isSkipped ((blanks.map (·.1)).dropWhile isBlank) = true := by
      rw [dropWhile_blanks]
      rfl
    rw [text, logicalLines_skipped (inline_blanks blanks) skipped]
    rfl
  | comment indentation bang remark inline =>
    have clean : '\n' ∉ indentation.map (·.1) ++ (if bang then '!' else '#') :: remark :=
      List.not_mem_append (inline_blanks indentation)
        (List.not_mem_cons_of_ne_of_not_mem (by cases bang <;> decide) inline)
    have skipped : isSkipped ((indentation.map (·.1) ++
        (if bang then '!' else '#') :: remark).dropWhile isBlank) = true := by
      rw [dropWhile_append_text (.inr fun c first => by cases first; cases bang <;> decide),
        dropWhile_blanks]
      cases bang <;> rfl
    rw [text, logicalLines_skipped clean skipped]
    rfl
  | entry e =>
    have ⟨line, own, read⟩ := e.exists_pair (signed e List.mem_cons_self) newline cs
    rw [text, read, List.map_cons, own]
    rfl

end Line

/-- A document: lines with what ends them, and perhaps a last one that nothing ends. -/
structure Manuscript where
  lines : List (Line × Newline)
  last : Option Line

namespace Manuscript

def text (m : Manuscript) : String :=
  String.ofList
    (m.lines.flatMap (fun line => line.1.text ++ line.2.text) ++ m.last.toList.flatMap Line.text)

def entries (m : Manuscript) : List Entry :=
  (m.lines.map (·.1) ++ m.last.toList).flatMap Line.entries

def pairs (m : Manuscript) : List (String × String) :=
  m.entries.map Entry.pair

theorem map_pair_lines {lines : List (Line × Newline)}
    (signed : ∀ e ∈ lines.flatMap (·.1.entries), e.Signed) (cs : List Char) :
    (logicalLines none (naturalLines
        (lines.flatMap (fun line => line.1.text ++ line.2.text) ++ cs))).map pair =
      (lines.flatMap (·.1.entries)).map Entry.pair ++
        (logicalLines none (naturalLines cs)).map pair := by
  induction lines with
  | nil => rfl
  | cons line lines ih =>
    rw [List.flatMap_cons] at signed
    have ⟨here, later⟩ := List.forall_mem_append.mp signed
    rw [List.flatMap_cons, List.flatMap_cons, List.append_assoc,
      line.1.map_pair_logicalLines here, ih later, List.map_append, List.append_assoc]

/-- The reader finds the pairs that were written. -/
theorem read_text {m : Manuscript} (signed : ∀ e ∈ m.entries, e.Signed) : read m.text = m.pairs := by
  have ⟨lines, last⟩ := m
  rw [entries, List.flatMap_append, List.flatMap_map] at signed
  have ⟨first, final⟩ := List.forall_mem_append.mp signed
  rw [read, map_toList_lines, text, String.toList_ofList, map_pair_lines first, pairs, entries,
    List.flatMap_append, List.flatMap_map, List.map_append]
  cases last with
  | none => rfl
  | some line =>
    have signed : ∀ e ∈ line.entries, e.Signed := fun e listed =>
      final e (List.mem_append_left _ listed)
    have ended := line.map_pair_logicalLines signed .crlf []
    rw [List.append_nil, logicalLines_crlf] at ended
    simp only [Option.toList_some, List.flatMap_singleton]
    rw [ended]
    exact congrArg _ (List.append_nil _)

end Manuscript

theorem isBlank_of_large {c : Char} (large : 0x10000 ≤ c.toNat) : isBlank c = false := by
  simp only [isBlank, Bool.or_eq_false_iff, Bool.and_eq_false_iff, decide_eq_false_iff_not,
    beq_eq_false_iff_ne]
  omega

theorem ne_of_large {c d : Char} (large : 0x10000 ≤ c.toNat) (small : d.toNat < 0x10000) : c ≠ d := by
  rintro rfl
  exact absurd small (Nat.not_lt.mpr large)

def Spelling.number (c : Char) : Spelling :=
  if short : c.toNat < 0x10000 then .code c short fun _ => false
  else .raw c ⟨ne_of_large (Nat.not_lt.mp short) (by decide), ne_of_large (Nat.not_lt.mp short) (by decide)⟩

theorem Spelling.char_number (c : Char) : (number c).char = c := by
  rw [number]
  split <;> rfl

theorem Spelling.large_of_raw? {c d : Char} (own : d ∈ (number c).raw?) : 0x10000 ≤ d.toNat := by
  rw [number] at own
  split at own
  · cases own
  · rename_i large
    cases own
    exact Nat.not_lt.mp large

theorem Spelling.getLast?_number (c : Char) : (number c).text.getLast? ≠ some '\r' := by
  intro returns
  rw [number] at returns
  split at returns
  · have digit := (hexDigit_ne _ (Nat.mod_lt c.toNat (by decide)) false).2.2
    have own : hexDigit (c.toNat % 16) false = '\r' := Option.some.inj returns
    exact absurd (own ▸ digit) (by decide)
  · rename_i large
    exact ne_of_large (Nat.not_lt.mp large) (by decide) (Option.some.inj returns)

def Written.number (c : Char) : Written where
  breaks := []
  spelling := .number c
  fits _ _ _ := rfl

theorem decoded_number (s : String) : decoded (s.toList.map Written.number) = s := by
  have same : s.toList.map (fun c => (Spelling.number c).char) = s.toList :=
    (List.map_congr_left fun c _ => Spelling.char_number c).trans (List.map_id _)
  rw [decoded, List.map_map]
  exact (congrArg String.ofList same).trans String.ofList_toList

theorem large_of_mem_map {cs : List Char} {w : Written} (listed : w ∈ cs.map Written.number) {c : Char}
    (own : c ∈ w.spelling.raw?) : 0x10000 ≤ c.toNat := by
  have ⟨d, _, same⟩ := List.mem_map.mp listed
  exact Spelling.large_of_raw? (same ▸ own)

def Entry.number (key value : String) : Entry where
  key := key.toList.map Written.number
  separator := .sign [] [] false []
  value := value.toList.map Written.number
  inside w listed c own := by
    have large := large_of_mem_map listed own
    rw [endsKey, isBlank_of_large large, beq_eq_false_iff_ne.mpr (ne_of_large large (by decide)),
      beq_eq_false_iff_ne.mpr (ne_of_large large (by decide))]
    rfl
  unmarked w first c own :=
    have large := large_of_mem_map (List.mem_of_head? first) own
    ⟨ne_of_large large (by decide), ne_of_large large (by decide)⟩
  apart w first c own := ⟨isBlank_of_large (large_of_mem_map (List.mem_of_head? first) own), nofun⟩
  ended w last := by
    have ⟨c, _, same⟩ := List.mem_map.mp (List.mem_of_getLast? last)
    exact same ▸ Spelling.getLast?_number c

/-- Every list of pairs can be written. -/
theorem exists_manuscript (pairs : List (String × String)) :
    ∃ m : Manuscript, m.pairs = pairs ∧ ∀ e ∈ m.entries, e.Signed := by
  let m : Manuscript := ⟨pairs.map fun p => (.entry (.number p.1 p.2), .lf), none⟩
  have entries : m.entries = pairs.map fun p => Entry.number p.1 p.2 := by
    rw [Manuscript.entries, Option.toList_none, List.append_nil, List.map_map, List.flatMap_map,
      List.map_eq_flatMap]
    rfl
  refine ⟨m, ?_, fun e listed => ?_⟩
  · have same : ∀ p ∈ pairs, (Entry.number p.1 p.2).pair = p := fun p _ =>
      Prod.ext (decoded_number p.1) (decoded_number p.2)
    rw [Manuscript.pairs, entries, List.map_map]
    exact (List.map_congr_left same).trans (List.map_id pairs)
  · rw [entries] at listed
    have ⟨p, _, same⟩ := List.mem_map.mp listed
    rw [← same]
    exact fun _ => rfl

end SpringLint.Properties
