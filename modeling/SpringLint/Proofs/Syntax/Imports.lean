import SpringLint.Proofs.Text.Basic
import SpringLint.Syntax.Source

/-! Import declarations. However one is spaced, it is entered once, under its form. -/

namespace SpringLint

namespace Imports

/-- What a declaration can import: one name or all names, of types or of static members. -/
inductive Form where
  | single
  | onDemand
  | staticSingle
  | staticOnDemand
  deriving DecidableEq, Repr

def entries (imports : Imports) : Form → List String
  | .single => imports.single
  | .onDemand => imports.onDemand
  | .staticSingle => imports.staticSingle
  | .staticOnDemand => imports.staticOnDemand

def enter (imports : Imports) (name : String) : Form → Imports
  | .single => { imports with single := imports.single ++ [name] }
  | .onDemand => { imports with onDemand := imports.onDemand ++ [name] }
  | .staticSingle => { imports with staticSingle := imports.staticSingle ++ [name] }
  | .staticOnDemand => { imports with staticOnDemand := imports.staticOnDemand ++ [name] }

theorem entries_enter (imports : Imports) (name : String) (own form : Form) :
    (imports.enter name own).entries form =
      imports.entries form ++ if form = own then [name] else [] := by
  cases own <;> cases form <;> simp [enter, entries]

end Imports

namespace ImportDeclaration

open Text

abbrev Space := {cs : List Char // ∀ c ∈ cs, isBlank c = true}

/-- White space that keeps words apart. -/
abbrev Gap := {cs : List Char // cs ≠ [] ∧ ∀ c ∈ cs, isBlank c = true}

/-- What identifiers are made of: neither white space nor a sign that declarations have. -/
def isLetter (c : Char) : Bool :=
  !isBlank c && c != '.' && c != ';' && c != '*'

/-- An identifier. A keyword is none, but may be what it begins with. -/
structure Identifier where
  chars : List Char
  filled : chars ≠ []
  letters : ∀ c ∈ chars, isLetter c = true
  free : chars ≠ "import".toList ∧ chars ≠ "static".toList

/-- A further identifier of a path, behind its dot. -/
structure Part where
  ahead : Space
  behind : Space
  name : Identifier

def Part.text (part : Part) : List Char :=
  part.ahead.1 ++ '.' :: part.behind.1 ++ part.name.chars

end ImportDeclaration

open Text ImportDeclaration in
/-- An import declaration by its tokens, with the white space between them. -/
structure ImportDeclaration where
  gap : Gap
  /-- The white space behind the keyword `static`, where there is one. -/
  static? : Option Gap
  first : Identifier
  further : List ImportDeclaration.Part
  /-- The white space ahead of the last dot and behind it, where a star ends the path. -/
  star? : Option (Space × Space)
  last : Space

namespace ImportDeclaration

open Text Imports

def path (d : ImportDeclaration) : List Char :=
  d.first.chars ++ d.further.flatMap fun part => '.' :: part.name.chars

/-- What follows the first identifier of the path, up to the semicolon. -/
def tail (d : ImportDeclaration) : List Char :=
  d.further.flatMap Part.text ++
    (match d.star? with
      | some (ahead, behind) => ahead.1 ++ '.' :: behind.1 ++ ['*']
      | none => []) ++ d.last.1

def body (d : ImportDeclaration) : List Char :=
  (match d.static? with
    | some gap => "static".toList ++ gap.1
    | none => []) ++ (d.first.chars ++ d.tail)

def text (d : ImportDeclaration) : String :=
  "import" ++ String.ofList (d.gap.1 ++ d.body ++ [';'])

def form (d : ImportDeclaration) : Form :=
  match d.static?, d.star? with
  | none, none => .single
  | none, some _ => .onDemand
  | some _, none => .staticSingle
  | some _, some _ => .staticOnDemand

theorem isLetter_iff {c : Char} :
    isLetter c = true ↔ isBlank c = false ∧ c ≠ '.' ∧ c ≠ ';' ∧ c ≠ '*' := by
  simp [isLetter, and_assoc]

theorem ne_of_isBlank {c d : Char} (blank : isBlank c = true) (sign : isBlank d = false) : c ≠ d := by
  intro same
  rw [same, sign] at blank
  cases blank

/-! White space goes, all else stays. -/

theorem filter_blanks {cs : List Char} (blanks : ∀ c ∈ cs, isBlank c = true) :
    (cs.filter fun c => !isBlank c) = [] := by
  simpa using blanks

theorem filter_identifier (name : Identifier) :
    (name.chars.filter fun c => !isBlank c) = name.chars := by
  apply List.filter_eq_self.mpr
  intro c member
  simpa using (isLetter_iff.mp (name.letters c member)).1

theorem filter_part (part : Part) :
    (part.text.filter fun c => !isBlank c) = '.' :: part.name.chars := by
  have dot : isBlank '.' = false := by decide
  simp [Part.text, filter_blanks part.ahead.2, filter_blanks part.behind.2, filter_identifier, dot]

theorem filter_further (parts : List Part) :
    ((parts.flatMap Part.text).filter fun c => !isBlank c) =
      parts.flatMap fun part => '.' :: part.name.chars := by
  induction parts with
  | nil => rfl
  | cons part parts ih => simp [filter_part, ih]

variable (d : ImportDeclaration)

theorem compact_named :
    compact (String.ofList (d.first.chars ++ d.tail)) =
      String.ofList d.path ++ if d.star?.isSome then ".*" else "" := by
  have signs : isBlank '.' = false ∧ isBlank '*' = false := by decide
  rw [← String.toList_inj, toList_compact, String.toList_ofList, List.filter_append, filter_identifier,
    tail, List.filter_append, List.filter_append, filter_further, filter_blanks d.last.2]
  cases d.star? with
  | none => simp [path]
  | some star => simp [path, filter_blanks star.1.2, filter_blanks star.2.2, signs]

/-! The keyword and the semicolon are taken off, and nothing else. -/

theorem semicolon_not_mem_space {cs : List Char} (blanks : ∀ c ∈ cs, isBlank c = true) : ';' ∉ cs :=
  fun member => ne_of_isBlank (blanks _ member) (by decide) rfl

theorem semicolon_not_mem_identifier (name : Identifier) : ';' ∉ name.chars :=
  fun member => (isLetter_iff.mp (name.letters _ member)).2.2.1 rfl

theorem semicolon_not_mem_further (parts : List Part) : ';' ∉ parts.flatMap Part.text := by
  intro member
  have ⟨part, _, inside⟩ := List.mem_flatMap.mp member
  simp [Part.text, semicolon_not_mem_space part.ahead.2, semicolon_not_mem_space part.behind.2,
    semicolon_not_mem_identifier] at inside

theorem semicolon_not_mem_body : ';' ∉ d.body := by
  have further := semicolon_not_mem_further d.further
  have last := semicolon_not_mem_space d.last.2
  have tail : ';' ∉ d.tail := by
    rw [tail, List.mem_append, List.mem_append, not_or, not_or]
    refine ⟨⟨further, ?_⟩, last⟩
    cases d.star? with
    | none => exact List.not_mem_nil
    | some star => simp [semicolon_not_mem_space star.1.2, semicolon_not_mem_space star.2.2]
  rw [body]
  cases d.static? with
  | none => simp [semicolon_not_mem_identifier, tail]
  | some gap => simp [semicolon_not_mem_identifier, tail, semicolon_not_mem_space gap.2.2]

theorem dropHeads_import {gap rest : List Char} (parted : gap ≠ [] ∧ ∀ c ∈ gap, isBlank c = true)
    (fuel : Nat) :
    dropHeads "import" (fuel + 1) ("import" ++ String.ofList (gap ++ rest)) =
      String.ofList (gap ++ rest) := by
  have again : afterHead? "import" (String.ofList (gap ++ rest)) = none := by
    cases gap with
    | nil => exact absurd rfl parted.1
    | cons c gap =>
      have other : ('i' == c) = false :=
        beq_eq_false_iff_ne.mpr (ne_of_isBlank (parted.2 c List.mem_cons_self) (by decide)).symm
      simp [afterHead?, listAfter?, other]
  rw [dropHeads, afterHead?_append]
  cases fuel with
  | zero => rfl
  | succ fuel => simp only [dropHeads, again]

/-- Of a declaration its words between keyword and semicolon are read. -/
theorem words_stripped :
    words (String.ofList (dropTail (· == ';')
      (trimEnd (dropHeads "import" (trim d.text).length (trim d.text))).toList)) =
        words (String.ofList d.body) := by
  have ends (front : List Char) : ∀ c ∈ (front ++ [';']).getLast?, isBlank c = false := by
    have sign : isBlank ';' = false := by decide
    simpa using sign
  have whole : trim d.text = d.text := by
    have letter : isBlank 'i' = false := by decide
    have chars : d.text.toList = "import".toList ++ (d.gap.1 ++ d.body) ++ [';'] := by simp [text]
    apply trim_eq
    · simpa [text] using letter
    · rw [chars]
      exact ends _
  have stripped : dropHeads "import" d.text.length d.text =
      String.ofList (d.gap.1 ++ d.body ++ [';']) := by
    have size : d.text.length = (d.text.length - 1) + 1 := by
      have keyword : "import".length = 6 := rfl
      simp [text, keyword]
      omega
    rw [size, text, List.append_assoc]
    exact dropHeads_import d.gap.2 _
  have closed : dropTail (· == ';') (d.gap.1 ++ d.body ++ [';']) = d.gap.1 ++ d.body := by
    have absent : ';' ∉ d.gap.1 ++ d.body := by
      simp [semicolon_not_mem_space d.gap.2.2, semicolon_not_mem_body]
    have kept : dropTail (· == ';') (d.gap.1 ++ d.body) = d.gap.1 ++ d.body := by
      apply dropTail_of_last
      intro c last
      apply beq_eq_false_iff_ne.mpr
      intro same
      exact absent (same ▸ List.mem_of_getLast? last)
    rw [dropTail, List.reverse_append]
    exact kept
  have trailing : ∀ c ∈ (String.ofList (d.gap.1 ++ d.body ++ [';'])).toList.getLast?,
      isBlank c = false := by
    rw [String.toList_ofList]
    exact ends _
  rw [whole, stripped, trimEnd_eq trailing, String.toList_ofList, closed, words, words,
    String.toList_ofList, String.toList_ofList, runs_blanks d.gap.2.2]

/-! The first word tells whether the keyword `static` comes first. -/

def Parted (cs : List Char) : Prop :=
  ∀ c ∈ cs.head?, isBlank c = true ∨ c = '.'

theorem parted_dot (cs : List Char) : Parted ('.' :: cs) :=
  fun _ first => .inr (Option.some.inj first).symm

theorem parted_space (blanks : Space) {cs : List Char} (parted : Parted cs) :
    Parted (blanks.1 ++ cs) := by
  intro c first
  cases filled : blanks.1 with
  | nil => exact parted c (by simpa [filled] using first)
  | cons b rest =>
    have same : b = c := by simpa [filled] using first
    exact .inl (blanks.2 c (by rw [filled, same]; exact List.mem_cons_self))

theorem parted_tail : Parted d.tail := by
  rw [tail]
  cases d.further with
  | cons part rest =>
    simp only [List.flatMap_cons, Part.text, List.append_assoc]
    exact parted_space part.ahead (parted_dot _)
  | nil =>
    rw [List.flatMap_nil, List.nil_append]
    cases d.star? with
    | none => simpa using @parted_space d.last [] nofun
    | some star =>
      simp only [List.append_assoc]
      exact parted_space star.1 (parted_dot _)

/-- The first word of a path is not the keyword: it is the first identifier, or has a dot in it. -/
theorem first_word : ∃ word rest, d.first.chars ++ d.tail = word ++ rest ∧ word ≠ [] ∧
    (∀ c ∈ word, isBlank c = false) ∧ (∀ c ∈ rest.head?, isBlank c = true) ∧
      word ≠ "static".toList := by
  have split := List.takeWhile_append_dropWhile (p := fun c => !isBlank c) (l := d.tail)
  have parted := d.parted_tail
  refine ⟨d.first.chars ++ d.tail.takeWhile fun c => !isBlank c, d.tail.dropWhile fun c => !isBlank c,
    ?_, ?_, ?_, ?_, ?_⟩
  · rw [List.append_assoc, split]
  · simp [d.first.filled]
  · intro c member
    rcases List.mem_append.mp member with own | later
    · exact (isLetter_iff.mp (d.first.letters c own)).1
    · simpa using List.all_eq_true.mp List.all_takeWhile c later
  · intro c first
    have stops := List.head?_dropWhile_not (fun c => !isBlank c) d.tail
    rw [Option.mem_def.mp first] at stops
    simpa using stops
  · intro same
    cases run : d.tail.takeWhile fun c => !isBlank c with
    | nil =>
      rw [run, List.append_nil] at same
      exact d.first.free.2 same
    | cons c rest =>
      -- what follows the identifier in one word with it begins with a dot
      have visible : isBlank c = false := by
        have inside : c ∈ d.tail.takeWhile fun c => !isBlank c := by rw [run]; exact List.mem_cons_self
        simpa using List.all_eq_true.mp List.all_takeWhile c inside
      have head : d.tail.head? = some c := by rw [← split, run]; rfl
      have dot : c = '.' := (parted c head).resolve_left (by simp [visible])
      have absent : '.' ∉ "static".toList := by decide
      rw [run, dot] at same
      exact absent (same ▸ by simp)

theorem takeWhile_intercalate {word : List Char} (whole : ∀ c ∈ word, isBlank c = false)
    (rest : List (List Char)) :
    ([' '].intercalate (word :: rest)).takeWhile (fun c => !isBlank c) = word := by
  have all : ∀ c ∈ word, (!isBlank c) = true := by simpa using whole
  have blank : isBlank ' ' = true := by decide
  cases rest with
  | nil =>
    have taken := (takeWhile_of_head all (show ∀ c ∈ [].head?, (!isBlank c) = false from nofun)).1
    simpa using taken
  | cons second rest => simp [List.takeWhile_append_of_pos all, blank]

theorem runs_named : ∃ word rest, runs isBlank (d.first.chars ++ d.tail) = word :: rest ∧
    (∀ c ∈ word, isBlank c = false) ∧ word ≠ "static".toList := by
  have ⟨word, rest, split, filled, whole, ends, other⟩ := d.first_word
  exact ⟨word, runs isBlank rest, by rw [split, runs_word filled whole ends], whole, other⟩

theorem afterHead?_absent :
    afterHead? "static " (joinWith " " (words (String.ofList (d.first.chars ++ d.tail)))) = none := by
  have ⟨word, rest, runs, whole, other⟩ := d.runs_named
  rw [Option.eq_none_iff_forall_ne_some]
  intro later found
  have chars := congrArg String.toList (afterHead?_eq_some found)
  rw [toList_joinWith_words, String.toList_ofList, runs] at chars
  have front := congrArg (List.takeWhile fun c => !isBlank c) chars
  rw [takeWhile_intercalate whole] at front
  apply other
  rw [front, String.toList_append]
  rfl

theorem afterHead?_present (gap : Gap) :
    afterHead? "static " (joinWith " " (words (String.ofList
      ("static".toList ++ gap.1 ++ (d.first.chars ++ d.tail))))) =
        some (joinWith " " (words (String.ofList (d.first.chars ++ d.tail)))) := by
  have keyword : ∀ c ∈ "static".toList, isBlank c = false := by simp [isBlank]
  have ends : ∀ c ∈ (gap.1 ++ (d.first.chars ++ d.tail)).head?, isBlank c = true := by
    intro c first
    cases filled : gap.1 with
    | nil => exact absurd filled gap.2.1
    | cons b rest =>
      have same : b = c := by simpa [filled] using first
      exact gap.2.2 c (by rw [filled, same]; exact List.mem_cons_self)
  have ⟨word, rest, runs, _, _⟩ := d.runs_named
  have more : words (String.ofList (d.first.chars ++ d.tail)) ≠ [] := by simp [words, runs]
  have listed : words (String.ofList ("static".toList ++ gap.1 ++ (d.first.chars ++ d.tail))) =
      "static" :: words (String.ofList (d.first.chars ++ d.tail)) := by
    have run := runs_word (by decide) keyword ends
    rw [runs_blanks gap.2.2, ← List.append_assoc] at run
    simp only [words, String.toList_ofList] at *
    rw [run]
    rfl
  have joined : joinWith " " ("static" :: words (String.ofList (d.first.chars ++ d.tail))) =
      "static " ++ joinWith " " (words (String.ofList (d.first.chars ++ d.tail))) := by
    rw [joinWith, String.intercalate_cons_of_ne_nil more]
    rfl
  rw [listed, joined, afterHead?_append]

theorem beforeTail?_path : beforeTail? ".*" (String.ofList d.path) = none := by
  rw [Option.eq_none_iff_forall_ne_some]
  intro front found
  have chars := congrArg String.toList (beforeTail?_eq_some found)
  have star : '*' ∈ d.path := by
    rw [String.toList_ofList, String.toList_append] at chars
    rw [chars]
    exact List.mem_append_right _ (by decide)
  have absent (name : Identifier) : '*' ∉ name.chars :=
    fun member => (isLetter_iff.mp (name.letters _ member)).2.2.2 rfl
  simp [path, absent] at star

theorem add_eq_enter (imports : Imports) :
    imports.add d.text = imports.enter (String.ofList d.path) d.form := by
  have name := d.compact_named
  unfold Imports.add
  dsimp only
  rw [words_stripped, body, ImportDeclaration.form]
  cases d.static? with
  | none =>
    rw [List.nil_append, afterHead?_absent]
    cases star : d.star? with
    | none =>
      rw [star, Option.isSome_none, if_neg Bool.false_ne_true, String.append_empty] at name
      simp only [compact_joinWith_words, name, beforeTail?_path]
      rfl
    | some _ =>
      rw [star, Option.isSome_some, if_pos rfl] at name
      simp only [compact_joinWith_words, name, beforeTail?_append]
      rfl
  | some gap =>
    rw [afterHead?_present]
    cases star : d.star? with
    | none =>
      rw [star, Option.isSome_none, if_neg Bool.false_ne_true, String.append_empty] at name
      simp only [compact_joinWith_words, name, beforeTail?_path]
      rfl
    | some _ =>
      rw [star, Option.isSome_some, if_pos rfl] at name
      simp only [compact_joinWith_words, name, beforeTail?_append]
      rfl

/-- A declaration adds its path to the names of its form, and nothing to the others. -/
theorem add_enters_once (imports : Imports) (form : Form) :
    (imports.add d.text).entries form =
      imports.entries form ++ if form = d.form then [String.ofList d.path] else [] := by
  rw [add_eq_enter, entries_enter]

example : ({} : Imports).add "import\tstatic  staticx .importy\n. * ;" =
    { staticOnDemand := ["staticx.importy"] } := by decide +kernel

end ImportDeclaration

end SpringLint
