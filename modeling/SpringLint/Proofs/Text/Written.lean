import Mathlib.Data.List.DropRight
import SpringLint.Proofs.Text.Affixes
import SpringLint.Proofs.Text.Escapes
import SpringLint.Proofs.Text.LogicalLines

/-! Characters as they may be written over several lines, and the logical line that the reader makes of
them. -/

namespace SpringLint.Properties

open Text

abbrev Blank := {c : Char // isBlank c = true ∧ c ≠ '\n'}

/-- Where a line goes on as the next one, behind its indentation. -/
structure Break where
  newline : Newline
  indentation : List Blank

def Break.text (b : Break) : List Char :=
  '\\' :: b.newline.text ++ b.indentation.map (·.1)

/-- A character as written, with the breaks ahead of it. A blank that is written as it is would count as
indentation behind a break. -/
structure Written where
  breaks : List Break
  spelling : Spelling
  fits : ∀ c ∈ spelling.raw?, isBlank c = true → breaks = []

def Written.text (w : Written) : List Char :=
  w.breaks.flatMap Break.text ++ w.spelling.text

def plain (ws : List Written) : List Char :=
  ws.flatMap (·.spelling.text)

def decoded (ws : List Written) : String :=
  String.ofList (ws.map (·.spelling.char))

def Blank.written (b : Blank) : Written where
  breaks := []
  spelling := .raw b.1 ⟨fun same => absurd b.2.1 (by rw [same]; decide), b.2.2⟩
  fits _ _ _ := rfl

theorem plain_cons (w : Written) (ws : List Written) : plain (w :: ws) = w.spelling.text ++ plain ws :=
  rfl

theorem plain_append (front back : List Written) : plain (front ++ back) = plain front ++ plain back :=
  List.flatMap_append

theorem plain_ne_nil {ws : List Written} (filled : ws ≠ []) : plain ws ≠ [] := by
  cases ws with
  | nil => exact absurd rfl filled
  | cons w ws => exact List.append_ne_nil_of_left_ne_nil w.spelling.text_ne_nil _

theorem head?_plain (w : Written) (ws : List Written) :
    (plain (w :: ws)).head? = w.spelling.text.head? := by
  rw [plain_cons, List.head?_append_of_ne_nil _ w.spelling.text_ne_nil]

theorem getLast?_plain {ws : List Written} {w : Written} (ends : w ∈ ws.getLast?) :
    (plain ws).getLast? = w.spelling.text.getLast? := by
  have ⟨front, same⟩ := List.getLast?_eq_some_iff.mp ends
  rw [same, plain_append, plain, plain, List.flatMap_singleton,
    List.getLast?_append_of_ne_nil _ w.spelling.text_ne_nil]

theorem plain_blanks (blanks : List Blank) : plain (blanks.map Blank.written) = blanks.map (·.1) := by
  induction blanks with
  | nil => rfl
  | cons b blanks ih => rw [List.map_cons, plain_cons, ih]; rfl

theorem text_blanks (blanks : List Blank) :
    (blanks.map Blank.written).flatMap Written.text = blanks.map (·.1) := by
  induction blanks with
  | nil => rfl
  | cons b blanks ih => rw [List.map_cons, List.flatMap_cons, ih]; rfl

theorem unescape_plain (ws : List Written) : unescape (plain ws) = ws.map (·.spelling.char) := by
  induction ws with
  | nil => rfl
  | cons w ws ih => rw [plain_cons, unescape_text, ih, List.map_cons]

theorem splitKey_plain {ws : List Written}
    (inside : ∀ w ∈ ws, ∀ c ∈ w.spelling.raw?, endsKey c = false) (cs : List Char) :
    splitKey (plain ws ++ cs) = (plain ws ++ (splitKey cs).1, (splitKey cs).2) := by
  induction ws with
  | nil => rfl
  | cons w ws ih =>
    have ⟨here, later⟩ := List.forall_mem_cons.mp inside
    rw [plain_cons, List.append_assoc, splitKey_text _ here, ih later, List.append_assoc]

theorem Spelling.continues_append (s : Spelling) {cs : List Char} (whole : continues cs = false) :
    continues (cs ++ s.text) = false := by
  have ends (front : List Char) {c : Char} (other : c ≠ '\\') : continues (front ++ [c]) = false := by
    rw [continues_concat, if_neg other]
  cases s with
  | raw c plain => exact ends cs plain.1
  | escaped c escapable =>
    calc continues (cs ++ ['\\', c])
        = continues (cs ++ ['\\'] ++ [c]) := by rw [List.append_assoc, List.singleton_append]
      _ = false := by
        rw [continues_concat, continues_concat, whole]
        split <;> rfl
  | letter c =>
    calc continues (cs ++ ['\\', c.letter])
        = continues (cs ++ ['\\'] ++ [c.letter]) := by rw [List.append_assoc, List.singleton_append]
      _ = false := ends _ (by cases c <;> decide)
  | code c short capital =>
    have last := (hexDigit_ne _ (Nat.mod_lt c.toNat (by decide)) (capital 3)).2.1
    have split : ∃ front, cs ++ (code c short capital).text =
        front ++ [hexDigit (c.toNat % 16) (capital 3)] :=
      ⟨cs ++ (code c short capital).text.dropLast, by rw [List.append_assoc]; rfl⟩
    have ⟨front, same⟩ := split
    rw [same]
    exact ends front last

theorem dropWhile_append_text {line text : List Char}
    (free : line.dropWhile isBlank ≠ [] ∨ ∀ c ∈ text.head?, isBlank c = false) :
    (line ++ text).dropWhile isBlank = line.dropWhile isBlank ++ text := by
  rw [List.dropWhile_append]
  split
  · rename_i blank
    have blank := List.isEmpty_iff.mp blank
    rw [blank, List.nil_append, dropWhile_of_head (free.resolve_left fun solid => solid blank)]
  · rfl

theorem dropWhile_blanks (blanks : List Blank) : (blanks.map (·.1)).dropWhile isBlank = [] := by
  rw [List.dropWhile_eq_nil_iff]
  intro c listed
  have ⟨b, _, same⟩ := List.mem_map.mp listed
  exact same ▸ b.2.1

theorem inline_blanks (blanks : List Blank) : '\n' ∉ blanks.map (·.1) := fun listed =>
  have ⟨b, _, same⟩ := List.mem_map.mp listed
  b.2.2 same

/-- Where the reader of a logical line stands: the characters that it holds from earlier lines, and the
line that it is in. -/
structure Cursor where
  held : List Char
  line : List Char

namespace Cursor

variable {c d e : Cursor}

def joined (c : Cursor) : List Char :=
  c.held ++ c.line.dropWhile isBlank

def read (c : Cursor) (cs : List Char) : List (List Char) :=
  logicalLines (some c.held) (naturalLines (c.line ++ cs))

/-- The cursor stands in a line and behind whole characters. -/
structure Sound (c : Cursor) : Prop where
  inline : '\n' ∉ c.line
  whole : continues c.joined = false

def goOn (c : Cursor) (b : Break) : Cursor where
  held := c.joined
  line := b.indentation.map (·.1)

def put (c : Cursor) (s : Spelling) : Cursor :=
  { c with line := c.line ++ s.text }

def write (c : Cursor) (w : Written) : Cursor :=
  (w.breaks.foldl goOn c).put w.spelling

/-- A text takes one cursor to another one and adds characters to the logical line. -/
structure Passes (c : Cursor) (text added : List Char) (d : Cursor) : Prop where
  sound : d.Sound
  joined : d.joined = c.joined ++ added
  read : ∀ cs, c.read (text ++ cs) = d.read cs

theorem Passes.refl (sound : c.Sound) : c.Passes [] [] c where
  sound := sound
  joined := (List.append_nil _).symm
  read _ := rfl

theorem Passes.trans {text added more further : List Char} (first : c.Passes text added d)
    (second : d.Passes more further e) : c.Passes (text ++ more) (added ++ further) e where
  sound := second.sound
  joined := by rw [second.joined, first.joined, List.append_assoc]
  read cs := by rw [List.append_assoc, first.read, second.read]

theorem joined_goOn (c : Cursor) (b : Break) : (c.goOn b).joined = c.joined := by
  rw [joined, goOn, dropWhile_blanks, List.append_nil]

theorem passes_goOn (sound : c.Sound) (b : Break) : c.Passes b.text [] (c.goOn b) where
  sound := ⟨inline_blanks b.indentation, by rw [joined_goOn, sound.whole]⟩
  joined := by rw [joined_goOn, List.append_nil]
  read cs := by
    have inline : '\n' ∉ c.line ++ ['\\'] := List.not_mem_append sound.inline (by decide)
    have ended : (c.line ++ ['\\']).getLast? ≠ some '\r' := by
      rw [List.getLast?_concat]
      decide
    have joined : c.held ++ (c.line ++ ['\\']).dropWhile isBlank = c.joined ++ ['\\'] := by
      rw [dropWhile_append_text (.inr fun d first => by cases first; decide), ← List.append_assoc,
        Cursor.joined]
    have goes : continues (c.joined ++ ['\\']) = true := by
      rw [continues_concat, if_pos rfl, sound.whole]
      rfl
    calc c.read (b.text ++ cs)
        = logicalLines (some c.held) (naturalLines
            (c.line ++ ['\\'] ++ b.newline.text ++ (b.indentation.map (·.1) ++ cs))) := by
          simp only [Cursor.read, Break.text, List.append_assoc, List.cons_append, List.nil_append]
      _ = (c.goOn b).read cs := by
          rw [naturalLines_close inline (.inr ended), logicalLines_held, joined, if_pos goes,
            List.dropLast_concat, Cursor.read, goOn]

theorem passes_foldl_goOn (sound : c.Sound) (breaks : List Break) :
    c.Passes (breaks.flatMap Break.text) [] (breaks.foldl goOn c) := by
  induction breaks generalizing c with
  | nil => exact .refl sound
  | cons b breaks ih =>
    have first := passes_goOn sound b
    exact first.trans (ih first.sound)

def Solid (c : Cursor) : Prop :=
  c.line.dropWhile isBlank ≠ []

theorem line_put {s : Spelling} (free : c.Solid ∨ ∀ x ∈ s.raw?, isBlank x = false) :
    (c.put s).line.dropWhile isBlank = c.line.dropWhile isBlank ++ s.text :=
  dropWhile_append_text (free.imp_right fun free _ => s.isBlank_head free)

theorem solid_put {s : Spelling} (free : c.Solid ∨ ∀ x ∈ s.raw?, isBlank x = false) :
    (c.put s).Solid := by
  rw [Solid, line_put free]
  exact List.append_ne_nil_of_right_ne_nil _ s.text_ne_nil

theorem passes_put (sound : c.Sound) {s : Spelling}
    (free : c.Solid ∨ ∀ x ∈ s.raw?, isBlank x = false) : c.Passes s.text s.text (c.put s) := by
  have joined : (c.put s).joined = c.joined ++ s.text := by
    rw [Cursor.joined, line_put free, ← List.append_assoc]
    rfl
  constructor
  · constructor
    · exact List.not_mem_append sound.inline s.inline_text
    · rw [joined, s.continues_append sound.whole]
  · exact joined
  · intro cs
    rw [Cursor.read, Cursor.read, put, List.append_assoc]

theorem free_foldl_goOn (w : Written) (free : c.Solid ∨ ∀ x ∈ w.spelling.raw?, isBlank x = false) :
    (w.breaks.foldl goOn c).Solid ∨ ∀ x ∈ w.spelling.raw?, isBlank x = false := by
  -- Behind a break the line is blank, but no blank that is written as it is stands there.
  rcases List.eq_nil_or_concat w.breaks with none | ⟨front, b, some⟩
  · rw [none]
    exact free
  · refine .inr fun x own => ?_
    by_contra blank
    have none := w.fits x own (Bool.of_not_eq_false blank)
    rw [none] at some
    exact absurd (congrArg List.length some) (by simp)

theorem passes_write (sound : c.Sound) (w : Written)
    (free : c.Solid ∨ ∀ x ∈ w.spelling.raw?, isBlank x = false) :
    c.Passes w.text w.spelling.text (c.write w) :=
  (passes_foldl_goOn sound w.breaks).trans
    (passes_put (passes_foldl_goOn sound w.breaks).sound (free_foldl_goOn w free))

theorem passes_foldl_write (sound : c.Sound) (ws : List Written)
    (free : c.Solid ∨ ∀ w ∈ ws.head?, ∀ x ∈ w.spelling.raw?, isBlank x = false) :
    c.Passes (ws.flatMap Written.text) (plain ws) (ws.foldl write c) := by
  induction ws generalizing c with
  | nil => exact .refl sound
  | cons w ws ih =>
    have here := free.imp_right fun first => first w rfl
    have first := passes_write sound w here
    have solid : (c.write w).Solid := solid_put (free_foldl_goOn w here)
    exact first.trans (ih first.sound (.inl solid))

theorem getLast?_line_foldl {ws : List Written} (filled : ws ≠ []) (c : Cursor) :
    (ws.foldl write c).line.getLast? = (plain ws).getLast? := by
  rcases List.eq_nil_or_concat ws with rfl | ⟨front, w, rfl⟩
  · exact absurd rfl filled
  · rw [List.concat_eq_append, List.foldl_append, getLast?_plain List.getLast?_concat]
    exact List.getLast?_append_of_ne_nil _ w.spelling.text_ne_nil

theorem read_close (sound : c.Sound) {newline : Newline} (closed : newline.Closes c.line)
    (cs : List Char) :
    c.read (newline.text ++ cs) = c.joined :: logicalLines none (naturalLines cs) := by
  have whole : ¬continues (c.held ++ c.line.dropWhile isBlank) = true := by
    rw [← joined, sound.whole]
    exact Bool.false_ne_true
  rw [read, ← List.append_assoc, naturalLines_close sound.inline closed, logicalLines_held, if_neg whole,
    joined]

def start (blanks : List Blank) : Cursor where
  held := []
  line := blanks.map (·.1)

theorem joined_start (blanks : List Blank) : (start blanks).joined = [] := by
  rw [joined, start, dropWhile_blanks, List.append_nil]

theorem sound_start (blanks : List Blank) : (start blanks).Sound where
  inline := inline_blanks blanks
  whole := by
    rw [joined_start]
    rfl

end Cursor

theorem Written.text_cases (w : Written) :
    ∃ c t, w.text = c :: t ∧ (c = '\\' ∨ c ∈ w.spelling.raw?) := by
  rw [Written.text]
  cases w.breaks with
  | nil =>
    rcases w.spelling.text_cases with ⟨c, own, same⟩ | ⟨-, t, same⟩
    · exact ⟨c, [], same, .inr own⟩
    · exact ⟨'\\', t, same, .inl rfl⟩
  | cons b breaks => exact ⟨'\\', _, rfl, .inl rfl⟩

def Written.Starts (w : Written) : Prop :=
  ∀ c ∈ w.spelling.raw?, isBlank c = false ∧ c ≠ '#' ∧ c ≠ '!'

theorem Cursor.read_start (blanks : List Blank) {w : Written} (starts : w.Starts) (cs : List Char) :
    logicalLines none (naturalLines (blanks.map (·.1) ++ (w.text ++ cs))) =
      (start blanks).read (w.text ++ cs) := by
  have ⟨c, t, same, head⟩ := w.text_cases
  have kept : isBlank c = false ∧ c ≠ '#' ∧ c ≠ '!' := by
    rcases head with rfl | own
    · decide
    · exact starts c own
  rw [same, List.cons_append, logicalLines_start (dropWhile_blanks blanks) (inline_blanks blanks) kept]
  rfl

def Begins (ws : List Written) : Prop :=
  ∃ blanks w back, ws = List.map Blank.written blanks ++ w :: back ∧ w.Starts

theorem Begins.front {front : List Written} {b : Blank} (begins : Begins (front ++ [b.written])) :
    Begins front := by
  have ⟨blanks, w, back, same, starts⟩ := begins
  rcases List.eq_nil_or_concat back with rfl | ⟨shorter, last, rfl⟩
  · have own : w = b.written := by
      have ends := congrArg List.getLast? same
      rw [List.getLast?_concat, List.getLast?_concat] at ends
      exact (Option.some.inj ends).symm
    rw [own] at starts
    exact absurd (b.2.1.symm.trans (starts b.1 rfl).1) nofun
  · rw [List.concat_eq_append, ← List.cons_append, ← List.append_assoc] at same
    exact ⟨blanks, w, shorter, (List.append_inj' same rfl).1, starts⟩

theorem logicalLines_begins {ws : List Written} (begins : Begins ws) {newline : Newline}
    (closed : newline.Closes (plain ws)) (cs : List Char) :
    logicalLines none (naturalLines (ws.flatMap Written.text ++ newline.text ++ cs)) =
      (plain ws).dropWhile isBlank :: logicalLines none (naturalLines cs) := by
  have ⟨blanks, w, back, same, starts⟩ := begins
  have visible : ∀ c ∈ w.spelling.raw?, isBlank c = false := fun c own => (starts c own).1
  have split : plain ws = blanks.map (·.1) ++ plain (w :: back) := by
    rw [same, plain_append, plain_blanks]
  have dropped : (plain ws).dropWhile isBlank = plain (w :: back) := by
    have head : ∀ c ∈ (plain (w :: back)).head?, isBlank c = false := by
      rw [head?_plain]
      exact fun c => w.spelling.isBlank_head visible
    rw [split, dropWhile_append_text (.inr head), dropWhile_blanks, List.nil_append]
  have passes := Cursor.passes_foldl_write (Cursor.sound_start blanks) (w :: back)
    (.inr fun _ head => by cases head; exact visible)
  have ended : newline.Closes ((w :: back).foldl Cursor.write (Cursor.start blanks)).line := by
    have filled := List.cons_ne_nil w back
    rwa [Newline.Closes, Cursor.getLast?_line_foldl filled,
      ← List.getLast?_append_of_ne_nil _ (plain_ne_nil filled), ← split]
  calc logicalLines none (naturalLines (ws.flatMap Written.text ++ newline.text ++ cs))
      = logicalLines none (naturalLines (blanks.map (·.1) ++
          (w.text ++ (back.flatMap Written.text ++ (newline.text ++ cs))))) := by
        rw [same, List.flatMap_append, text_blanks, List.flatMap_cons]
        simp only [List.append_assoc]
    _ = (Cursor.start blanks).read ((w :: back).flatMap Written.text ++ (newline.text ++ cs)) := by
        rw [Cursor.read_start blanks starts, List.flatMap_cons, List.append_assoc]
    _ = plain (w :: back) :: logicalLines none (naturalLines cs) := by
        rw [passes.read, Cursor.read_close passes.sound ended, passes.joined, Cursor.joined_start,
          List.nil_append]
    _ = (plain ws).dropWhile isBlank :: logicalLines none (naturalLines cs) := by rw [dropped]

/-- A logical line loses no more than a carriage return that is written as a blank at its end. -/
theorem exists_logicalLine {ws : List Written} (begins : Begins ws)
    (last : ∀ w ∈ ws.getLast?, w.spelling.text.getLast? = some '\r' → ∃ b : Blank, w = b.written)
    (newline : Newline) (cs : List Char) :
    ∃ line, (line = plain ws ∨ line ++ ['\r'] = plain ws) ∧
      logicalLines none (naturalLines (ws.flatMap Written.text ++ newline.text ++ cs)) =
        line.dropWhile isBlank :: logicalLines none (naturalLines cs) := by
  rcases newline.cases_closes (plain ws) with closed | ⟨rfl, returns⟩
  · exact ⟨plain ws, .inl rfl, logicalLines_begins begins closed cs⟩
  · rcases List.eq_nil_or_concat ws with rfl | ⟨front, w, rfl⟩
    · cases returns
    · rw [List.concat_eq_append] at begins last returns ⊢
      rw [getLast?_plain List.getLast?_concat] at returns
      have ⟨b, same⟩ := last w List.getLast?_concat returns
      cases same
      -- The carriage return and the line feed end the line together.
      have own : b.1 = '\r' := Option.some.inj returns
      have whole : plain (front ++ [b.written]) = plain front ++ ['\r'] := by
        rw [plain_append, ← own]
        rfl
      have text : (front ++ [b.written]).flatMap Written.text = front.flatMap Written.text ++ ['\r'] := by
        rw [List.flatMap_append, List.flatMap_singleton, ← own]
        rfl
      refine ⟨plain front, .inr whole.symm, ?_⟩
      rw [text, Newline.append_lf, logicalLines_begins begins.front (.inl rfl)]

end SpringLint.Properties
