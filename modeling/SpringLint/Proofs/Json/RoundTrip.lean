import Mathlib.Data.List.DropRight
import SpringLint.Json.Reader
import SpringLint.Proofs.Text.Basic

/-! What is written as JSON is read back. -/

namespace SpringLint.Json

/-! Strings. -/

theorem unit?_control : ∀ n < 32,
    unit? '0' '0' (Nat.digitChar (n / 16)) (Nat.digitChar (n % 16)) = some n := by
  decide

theorem readString_control {c : Char} (control : c.toNat < 32) (rest : List Char) :
    readString ('\\' :: 'u' :: '0' :: '0' :: Nat.digitChar (c.toNat / 16) ::
        Nat.digitChar (c.toNat % 16) :: rest) =
      (readString rest).map fun (text, rest) => (c :: text, rest) := by
  have low : (decide (0xD800 ≤ c.toNat) && decide (c.toNat < 0xDC00)) = false := by
    simp only [Bool.and_eq_false_iff, decide_eq_false_iff_not]
    omega
  have high : (decide (0xDC00 ≤ c.toNat) && decide (c.toNat < 0xE000)) = false := by
    simp only [Bool.and_eq_false_iff, decide_eq_false_iff_not]
    omega
  rw [readString, unit?_control c.toNat control]
  simp only [low, high, Bool.false_eq_true, if_false, Char.ofNat_toNat]

theorem readString_plain {c : Char} (quote : c ≠ '"') (escape : c ≠ '\\') (visible : ¬c.toNat < 32)
    (rest : List Char) :
    readString (c :: rest) = (readString rest).map fun (text, rest) => (c :: text, rest) := by
  simp [readString, escape, visible]

theorem readString_escapeChar (c : Char) (rest : List Char) :
    readString (escapeChar c ++ rest) =
      (readString rest).map fun (text, rest) => (c :: text, rest) := by
  by_cases quote : c = '"'
  · subst quote
    rfl
  by_cases escape : c = '\\'
  · subst escape
    rfl
  by_cases newline : c = '\n'
  · subst newline
    rfl
  by_cases carriage : c = '\r'
  · subst carriage
    rfl
  by_cases tab : c = '\t'
  · subst tab
    rfl
  by_cases back : c = '\x08'
  · subst back
    rfl
  by_cases feed : c = '\x0c'
  · subst feed
    rfl
  have written : escapeChar c = if c.toNat < 32 then
      ['\\', 'u', '0', '0', Nat.digitChar (c.toNat / 16), Nat.digitChar (c.toNat % 16)]
      else [c] := by
    simp [escapeChar, quote, escape, newline, carriage, tab, back, feed]
  rw [written]
  by_cases control : c.toNat < 32
  · rw [if_pos control]
    exact readString_control control rest
  · rw [if_neg control]
    exact readString_plain quote escape control rest

theorem readString_flatMap (text rest : List Char) :
    readString (text.flatMap escapeChar ++ '"' :: rest) = some (text, rest) := by
  induction text with
  | nil => rfl
  | cons c text ih =>
    rw [List.flatMap_cons, List.append_assoc, readString_escapeChar, ih]
    rfl

theorem readText?_flatMap (text : String) (rest : List Char) :
    readText? (text.toList.flatMap escapeChar ++ '"' :: rest) = some (some text, rest) := by
  rw [readText?, readString_flatMap]
  simp only [String.ofList_toList]

/-! Numbers. -/

/-- What may follow a value: nothing that would go on with a number. -/
def Follows (rest : List Char) : Prop :=
  ∀ c ∈ rest.head?, isDigit c = false ∧ c ≠ '.' ∧ c ≠ 'e' ∧ c ≠ 'E'

theorem isDigit_of_mem_toDigits {n : Nat} {c : Char} (member : c ∈ Nat.toDigits 10 n) :
    isDigit c = true := by
  have digit := Nat.isDigit_of_mem_toDigits (by decide) (by decide) member
  simpa [Char.isDigit, isDigit, UInt32.le_iff_toNat_le] using digit

theorem readDigits?_toDigits (n : Nat) {rest : List Char} (follows : Follows rest) :
    readDigits? (Nat.toDigits 10 n ++ rest) = some (Nat.toDigits 10 n, rest) := by
  have digits : ∀ c ∈ Nat.toDigits 10 n, isDigit c = true := fun c => isDigit_of_mem_toDigits
  have stop : rest.takeWhile isDigit = [] ∧ rest.dropWhile isDigit = rest := by
    cases rest with
    | nil => exact ⟨rfl, rfl⟩
    | cons c rest =>
      have none : isDigit c = false := (follows c rfl).1
      simp [none]
  unfold readDigits?
  rw [List.takeWhile_append_of_pos digits, List.dropWhile_append_of_pos digits, stop.1, stop.2,
    List.append_nil]
  have filled : (Nat.toDigits 10 n).isEmpty = false := List.isEmpty_eq_false_iff.mpr Nat.toDigits_ne_nil
  simp [filled]

theorem readMagnitude?_toDigits (n : Nat) {rest : List Char} (follows : Follows rest) :
    readMagnitude? (Nat.toDigits 10 n ++ rest) = some (.nat n, rest) := by
  have leading : (decide ((Nat.toDigits 10 n).length > 1) &&
      (Nat.toDigits 10 n).head? == some '0') = false := by
    rw [Bool.and_eq_false_iff, decide_eq_false_iff_not, beq_eq_false_iff_ne]
    by_cases head : (Nat.toDigits 10 n).head? = some '0'
    · rw [Text.eq_zero_of_head?_toDigits head]
      exact .inl (by decide)
    · exact .inr head
  have fraction : readFraction? rest = some ([], rest) := by
    unfold readFraction?
    split
    · exact absurd rfl (follows '.' rfl).2.1
    · rfl
  have exponent : readExponent? rest = some ([], rest) := by
    cases rest with
    | nil => rfl
    | cons c rest =>
      obtain ⟨-, -, lower, upper⟩ := follows c rfl
      simp [readExponent?, lower, upper]
  unfold readMagnitude?
  simp only [readDigits?_toDigits n follows, leading, fraction, exponent, Text.digits?_toDigits]
  rfl

theorem skipBlanks_of_head {c : Char} (solid : c ≠ ' ' ∧ c ≠ '\n' ∧ c ≠ '\r' ∧ c ≠ '\t')
    (rest : List Char) : skipBlanks (c :: rest) = c :: rest := by
  simp [skipBlanks, solid]

theorem ne_of_isDigit {c other : Char} (digit : isDigit c = true) (plain : isDigit other = false) :
    c ≠ other := by
  rintro rfl
  rw [digit] at plain
  cases plain

theorem readValue_of_isDigit {c : Char} (digit : isDigit c = true) (fuel : Nat) (rest : List Char) :
    readValue (fuel + 1) (c :: rest) = readMagnitude? (c :: rest) := by
  have other {d : Char} (plain : isDigit d = false) : c ≠ d := ne_of_isDigit digit plain
  have number : readNumber? (c :: rest) = readMagnitude? (c :: rest) := by
    rw [readNumber?]
    intro cs same
    exact other rfl (List.cons.inj same).1
  rw [readValue, skipBlanks_of_head ⟨other rfl, other rfl, other rfl, other rfl⟩]
  split
  case h_7 => exact number
  all_goals
    rename_i same
    exact absurd (List.cons.inj same).1 (other rfl)

/-! Layout. -/

def indent (depth : Nat) : List Char :=
  List.replicate (2 * depth) ' '

theorem toList_indentation (depth : Nat) : (indentation depth).toList = indent depth := by
  rw [indentation, String.toList_ofList]
  rfl

/-- Items one a line, from the first line's blanks to the closing bracket. -/
def lines (depth : Nat) (closing : List Char) : List (List Char) → List Char
  | [] => closing
  | [item] => indent (depth + 1) ++ (item ++ '\n' :: (indent depth ++ closing))
  | item :: rest => indent (depth + 1) ++ (item ++ ',' :: '\n' :: lines depth closing rest)

theorem toList_lines (depth : Nat) (closing : String) (item : String) (items : List String) :
    (String.intercalate ",\n" ((item :: items).map fun item => indentation (depth + 1) ++ item)
        ++ "\n" ++ indentation depth ++ closing).toList =
      lines depth closing.toList ((item :: items).map String.toList) := by
  induction items generalizing item with
  | nil =>
    simp [lines, toList_indentation]
  | cons next rest ih =>
    let text (items : List String) :=
      String.intercalate ",\n" (items.map fun item => indentation (depth + 1) ++ item)
    have split : text (item :: next :: rest) =
        indentation (depth + 1) ++ item ++ ",\n" ++ text (next :: rest) := String.intercalate_cons_cons
    calc (text (item :: next :: rest) ++ "\n" ++ indentation depth ++ closing).toList
        = indent (depth + 1) ++ item.toList ++ ",\n".toList ++
            (text (next :: rest) ++ "\n" ++ indentation depth ++ closing).toList := by
          rw [split]
          simp [toList_indentation]
      _ = indent (depth + 1) ++ item.toList ++ ",\n".toList ++
            lines depth closing.toList ((next :: rest).map String.toList) := by rw [ih next]
      _ = lines depth closing.toList ((item :: next :: rest).map String.toList) := by simp [lines]

theorem toList_bracket_nil (depth : Nat) (opening closing : String) :
    (bracket depth opening closing []).toList = opening.toList ++ closing.toList := by
  simp [bracket]

theorem toList_bracket (depth : Nat) (opening closing : String) {items : List String}
    (filled : items ≠ []) :
    (bracket depth opening closing items).toList =
      opening.toList ++ '\n' :: lines depth closing.toList (items.map String.toList) := by
  obtain ⟨item, rest, rfl⟩ := List.exists_cons_of_ne_nil filled
  rw [bracket, if_neg (by simp), ← toList_lines]
  simp

theorem skipBlanks_indent (depth : Nat) (cs : List Char) :
    skipBlanks (indent depth ++ cs) = skipBlanks cs := by
  unfold skipBlanks indent
  rw [List.dropWhile_append_of_pos]
  intro c member
  rw [List.eq_of_mem_replicate member]
  rfl

theorem skipBlanks_newline (cs : List Char) : skipBlanks ('\n' :: cs) = skipBlanks cs := rfl

theorem skipBlanks_skipBlanks (cs : List Char) : skipBlanks (skipBlanks cs) = skipBlanks cs :=
  List.dropWhile_idempotent _ cs

theorem readValue_skipBlanks (fuel : Nat) (cs : List Char) :
    readValue fuel (skipBlanks cs) = readValue fuel cs := by
  cases fuel with
  | zero => rw [readValue, readValue]
  | succ fuel => rw [readValue, readValue, skipBlanks_skipBlanks]

theorem readItems_skipBlanks (fuel : Nat) (cs : List Char) :
    readItems fuel (skipBlanks cs) = readItems fuel cs := by
  cases fuel with
  | zero => rw [readItems, readItems]
  | succ fuel => rw [readItems, readItems, readValue_skipBlanks]

theorem readMembers_skipBlanks (fuel : Nat) (cs : List Char) :
    readMembers fuel (skipBlanks cs) = readMembers fuel cs := by
  cases fuel with
  | zero => rw [readMembers, readMembers]
  | succ fuel => rw [readMembers, readMembers, skipBlanks_skipBlanks]

theorem readValue_indent (fuel depth : Nat) (cs : List Char) :
    readValue fuel (indent depth ++ cs) = readValue fuel cs := by
  rw [← readValue_skipBlanks, skipBlanks_indent, readValue_skipBlanks]

/-! Values. -/

mutual

/-- Whether all numbers in a value are whole ones and all its strings have a text. -/
def Whole : Json → Prop
  | .decimal _ | .halved _ => False
  | .array items => WholeItems items
  | .object members => WholeMembers members
  | _ => True

def WholeItems : List Json → Prop
  | [] => True
  | item :: items => item.Whole ∧ WholeItems items

def WholeMembers : List (String × Json) → Prop
  | [] => True
  | (_, value) :: members => value.Whole ∧ WholeMembers members

end

def Opens (cs : List Char) : Prop :=
  ∃ c rest, cs = c :: rest ∧ (c ≠ ' ' ∧ c ≠ '\n' ∧ c ≠ '\r' ∧ c ≠ '\t') ∧ c ≠ ']'

theorem Opens.append {cs : List Char} (opens : Opens cs) (more : List Char) : Opens (cs ++ more) := by
  obtain ⟨c, rest, rfl, solid⟩ := opens
  exact ⟨c, rest ++ more, rfl, solid⟩

theorem opens_bracket (depth : Nat) {opening : String} (starts : Opens opening.toList)
    (closing : String) (items : List String) :
    Opens (bracket depth opening closing items).toList := by
  by_cases empty : items = []
  · rw [empty, toList_bracket_nil]
    exact starts.append _
  · rw [toList_bracket depth opening closing empty]
    exact starts.append _

theorem opens_pretty (depth : Nat) {j : Json} (whole : j.Whole) : Opens (pretty depth j).toList := by
  cases j with
  | null =>
    rw [pretty]
    exact ⟨'n', ['u', 'l', 'l'], rfl, by decide⟩
  | bool value =>
    cases value with
    | true =>
      rw [pretty]
      exact ⟨'t', ['r', 'u', 'e'], rfl, by decide⟩
    | false =>
      rw [pretty]
      exact ⟨'f', ['a', 'l', 's', 'e'], rfl, by decide⟩
  | nat n =>
    rw [pretty, Nat.toString_eq_ofList_toDigits, String.toList_ofList]
    obtain ⟨c, rest, digits⟩ := List.exists_cons_of_ne_nil (Nat.toDigits_ne_nil (n := n) (b := 10))
    have digit : isDigit c = true := isDigit_of_mem_toDigits (n := n) (by simp [digits])
    have other {d : Char} (plain : isDigit d = false) : c ≠ d := ne_of_isDigit digit plain
    exact ⟨c, rest, digits, ⟨other rfl, other rfl, other rfl, other rfl⟩, other rfl⟩
  | decimal text | halved text => cases whole
  | string text =>
    rw [pretty, quote, String.toList_ofList]
    exact ⟨'"', _, rfl, by decide⟩
  | array items =>
    rw [pretty]
    exact opens_bracket depth ⟨'[', [], rfl, by decide⟩ _ _
  | object members =>
    rw [pretty]
    exact opens_bracket depth ⟨'\x7b', [], rfl, by decide⟩ _ _

theorem follows_newline (rest : List Char) : Follows ('\n' :: rest) := by
  rintro c ⟨⟩
  decide

theorem follows_comma (rest : List Char) : Follows (',' :: rest) := by
  rintro c ⟨⟩
  decide

theorem skipBlanks_of_opens {cs : List Char} (opens : Opens cs) : skipBlanks cs = cs := by
  obtain ⟨c, rest, rfl, solid, -⟩ := opens
  exact skipBlanks_of_head solid rest

theorem readValue_array {fuel : Nat} {cs : List Char} (opens : Opens (skipBlanks cs)) :
    readValue (fuel + 1) ('[' :: cs) =
      (readItems fuel cs).map fun (items, rest) => (.array items, rest) := by
  obtain ⟨c, rest, found, -, closing⟩ := opens
  rw [readValue, skipBlanks_of_head (by decide), ← readItems_skipBlanks]
  simp only [found]
  split
  · rename_i same
    exact absurd (List.cons.inj same).1 closing
  · rfl

/-- The members of an object as they are read: every name is a text. -/
def named (members : List (String × Json)) : List (Option String × Json) :=
  members.map fun (name, value) => (some name, value)

theorem objectOf?_named (members : List (String × Json)) :
    objectOf? (named members) = some (.object members) := by
  have read : (named members).mapM (fun member => member.1.map fun name => (name, member.2)) =
      some members := by
    induction members with
    | nil => rfl
    | cons member members ih =>
      unfold named at ih ⊢
      rw [List.map_cons, List.mapM_cons, ih]
      rfl
  unfold objectOf?
  rw [read]
  rfl

theorem readValue_object {fuel : Nat} {cs rest : List Char} {members : List (String × Json)}
    (opens : ∃ rest, skipBlanks cs = '"' :: rest)
    (inside : readMembers fuel cs = some (named members, rest)) :
    readValue (fuel + 1) ('\x7b' :: cs) = some (.object members, rest) := by
  obtain ⟨first, found⟩ := opens
  rw [← readMembers_skipBlanks, found] at inside
  rw [readValue, skipBlanks_of_head (by decide)]
  simp only [found]
  change (readMembers fuel ('"' :: first)).map _ = _
  rw [inside, Option.map_some, objectOf?_named, Option.getD_some]

section Items

variable {fuel : Nat} {cs rest more : List Char} {item : Json}
  (first : readValue fuel cs = some (item, rest))

include first

theorem readItems_last (closes : skipBlanks rest = ']' :: more) :
    readItems (fuel + 1) cs = some ([item], more) := by
  rw [readItems, first]
  simp only [closes]

theorem readItems_more (goesOn : skipBlanks rest = ',' :: more) :
    readItems (fuel + 1) cs = (readItems fuel more).map fun (items, rest) => (item :: items, rest) := by
  rw [readItems, first]
  simp only [goesOn]

end Items

def memberText (depth : Nat) (name : String) (value : Json) : List Char :=
  '"' :: (name.toList.flatMap escapeChar ++ '"' :: ':' :: ' ' :: (pretty depth value).toList)

theorem toList_member (depth : Nat) (name : String) (value : Json) :
    (quote name ++ ": " ++ pretty depth value).toList = memberText depth name value := by
  simp [quote, memberText]

theorem skipBlanks_member (indented depth : Nat) (name : String) (value : Json) (cs : List Char) :
    skipBlanks (indent indented ++ (memberText depth name value ++ cs)) =
      '"' :: (name.toList.flatMap escapeChar ++
        '"' :: ':' :: ' ' :: ((pretty depth value).toList ++ cs)) := by
  rw [skipBlanks_indent]
  simp [memberText, skipBlanks]

section Members

variable {fuel depth : Nat} {value : Json} {cs rest more : List Char}
  (second : readValue fuel ((pretty depth value).toList ++ cs) = some (value, rest))
  (indented : Nat) (name : String)

include second

theorem readValue_blank :
    readValue fuel (' ' :: ((pretty depth value).toList ++ cs)) = some (value, rest) := by
  have same : skipBlanks (' ' :: ((pretty depth value).toList ++ cs)) =
      skipBlanks ((pretty depth value).toList ++ cs) := rfl
  rw [← readValue_skipBlanks, same, readValue_skipBlanks, second]

theorem readMembers_last (closes : skipBlanks rest = '\x7d' :: more) :
    readMembers (fuel + 1) (indent indented ++ (memberText depth name value ++ cs)) =
      some (named [(name, value)], more) := by
  rw [readMembers, skipBlanks_member]
  simp only [readText?_flatMap, skipBlanks_of_head (c := ':') (by decide), readValue_blank second,
    closes]
  rfl

theorem readMembers_more (goesOn : skipBlanks rest = ',' :: more) :
    readMembers (fuel + 1) (indent indented ++ (memberText depth name value ++ cs)) =
      (readMembers fuel more).map fun (members, rest) => ((some name, value) :: members, rest) := by
  rw [readMembers, skipBlanks_member]
  simp only [readText?_flatMap, skipBlanks_of_head (c := ':') (by decide), readValue_blank second,
    goesOn]

end Members

theorem skipBlanks_newline_indent (depth : Nat) {c : Char}
    (solid : c ≠ ' ' ∧ c ≠ '\n' ∧ c ≠ '\r' ∧ c ≠ '\t') (rest : List Char) :
    skipBlanks ('\n' :: (indent depth ++ c :: rest)) = c :: rest := by
  rw [skipBlanks_newline, skipBlanks_indent, skipBlanks_of_head solid]

/-! The texts of lists and objects, line by line. -/

def itemLines (depth : Nat) (items : List Json) : List Char :=
  lines depth [']'] ((prettyItems (depth + 1) items).map String.toList)

def memberLines (depth : Nat) (members : List (String × Json)) : List Char :=
  lines depth ['\x7d'] ((prettyMembers (depth + 1) members).map String.toList)

theorem toList_array (depth : Nat) (item : Json) (items : List Json) :
    (pretty depth (.array (item :: items))).toList = '[' :: '\n' :: itemLines depth (item :: items) := by
  rw [pretty, toList_bracket depth _ _ (by rw [prettyItems]; simp)]
  rfl

theorem toList_object (depth : Nat) (member : String × Json) (members : List (String × Json)) :
    (pretty depth (.object (member :: members))).toList =
      '\x7b' :: '\n' :: memberLines depth (member :: members) := by
  rw [pretty, toList_bracket depth _ _ (by rw [prettyMembers]; simp)]
  rfl

theorem itemLines_last (depth : Nat) (item : Json) :
    itemLines depth [item] =
      indent (depth + 1) ++ ((pretty (depth + 1) item).toList ++ '\n' :: (indent depth ++ [']'])) := by
  rw [itemLines, prettyItems, prettyItems]
  rfl

theorem itemLines_more (depth : Nat) (item next : Json) (items : List Json) :
    itemLines depth (item :: next :: items) =
      indent (depth + 1) ++
        ((pretty (depth + 1) item).toList ++ ',' :: '\n' :: itemLines depth (next :: items)) := by
  rw [itemLines, itemLines, prettyItems, prettyItems]
  rfl

theorem memberLines_last (depth : Nat) (name : String) (value : Json) :
    memberLines depth [(name, value)] =
      indent (depth + 1) ++
        (memberText (depth + 1) name value ++ '\n' :: (indent depth ++ ['\x7d'])) := by
  rw [memberLines, prettyMembers, prettyMembers, ← toList_member]
  rfl

theorem memberLines_more (depth : Nat) (name : String) (value : Json) (next : String × Json)
    (members : List (String × Json)) :
    memberLines depth ((name, value) :: next :: members) =
      indent (depth + 1) ++
        (memberText (depth + 1) name value ++ ',' :: '\n' :: memberLines depth (next :: members)) := by
  rw [memberLines, memberLines, prettyMembers, prettyMembers, ← toList_member]
  rfl

theorem opens_itemLines (depth : Nat) {item : Json} (whole : item.Whole) (items : List Json)
    (rest : List Char) : Opens (skipBlanks ('\n' :: (itemLines depth (item :: items) ++ rest))) := by
  have opens := opens_pretty (depth + 1) whole
  cases items with
  | nil =>
    rw [itemLines_last, List.append_assoc, skipBlanks_newline, skipBlanks_indent, List.append_assoc,
      skipBlanks_of_opens (opens.append _)]
    exact opens.append _
  | cons next items =>
    rw [itemLines_more, List.append_assoc, skipBlanks_newline, skipBlanks_indent, List.append_assoc,
      skipBlanks_of_opens (opens.append _)]
    exact opens.append _

theorem quote_memberLines (depth : Nat) (member : String × Json) (members : List (String × Json))
    (rest : List Char) :
    ∃ more, skipBlanks ('\n' :: (memberLines depth (member :: members) ++ rest)) = '"' :: more := by
  obtain ⟨name, value⟩ := member
  cases members with
  | nil =>
    rw [memberLines_last, List.append_assoc, skipBlanks_newline, List.append_assoc, skipBlanks_member]
    exact ⟨_, rfl⟩
  | cons next members =>
    rw [memberLines_more, List.append_assoc, skipBlanks_newline, List.append_assoc, skipBlanks_member]
    exact ⟨_, rfl⟩

theorem length_memberText (depth : Nat) (name : String) (value : Json) :
    (pretty depth value).toList.length ≤ (memberText depth name value).length := by
  simp only [memberText, List.length_cons, List.length_append]
  omega

theorem exists_fuel {cs : List Char} (opens : Opens cs) {fuel : Nat} (enough : cs.length ≤ fuel) :
    ∃ less, fuel = less + 1 := by
  obtain ⟨c, rest, rfl, -⟩ := opens
  rw [List.length_cons] at enough
  exact ⟨fuel - 1, by omega⟩

theorem readValue_nat (depth n : Nat) (fuel : Nat) {rest : List Char} (follows : Follows rest) :
    readValue (fuel + 1) ((pretty depth (.nat n)).toList ++ rest) = some (.nat n, rest) := by
  obtain ⟨c, digits, split⟩ := List.exists_cons_of_ne_nil (Nat.toDigits_ne_nil (n := n) (b := 10))
  have digit : isDigit c = true := isDigit_of_mem_toDigits (n := n) (by simp [split])
  have whole := readMagnitude?_toDigits n follows
  rw [pretty, Nat.toString_eq_ofList_toDigits, String.toList_ofList]
  rw [split] at whole ⊢
  exact (readValue_of_isDigit digit _ _).trans whole

theorem readValue_string (depth : Nat) (text : String) (fuel : Nat) (rest : List Char) :
    readValue (fuel + 1) ((pretty depth (.string text)).toList ++ rest) = some (.string text, rest) := by
  have inner : (pretty depth (.string text)).toList ++ rest =
      '"' :: (text.toList.flatMap escapeChar ++ '"' :: rest) := by
    rw [pretty, quote, String.toList_ofList]
    simp
  rw [inner, readValue, skipBlanks_of_head (by decide)]
  simp only [readText?_flatMap, Option.map_some, Option.getD_some]

mutual

/-- A value is read back from its text, whatever follows. The length of the text is fuel enough, as
each part of a value is shorter than the value. -/
theorem readValue_pretty (depth : Nat) : (j : Json) → j.Whole → ∀ (fuel : Nat) (rest : List Char),
    (pretty depth j).toList.length ≤ fuel → Follows rest →
      readValue fuel ((pretty depth j).toList ++ rest) = some (j, rest)
  | .null, whole => by
    intro fuel rest enough _
    obtain ⟨fuel, rfl⟩ := exists_fuel (opens_pretty depth whole) enough
    rw [pretty]
    rfl
  | .bool true, whole => by
    intro fuel rest enough _
    obtain ⟨fuel, rfl⟩ := exists_fuel (opens_pretty depth whole) enough
    rw [pretty]
    rfl
  | .bool false, whole => by
    intro fuel rest enough _
    obtain ⟨fuel, rfl⟩ := exists_fuel (opens_pretty depth whole) enough
    rw [pretty]
    rfl
  | .nat n, whole => by
    intro fuel rest enough follows
    obtain ⟨fuel, rfl⟩ := exists_fuel (opens_pretty depth whole) enough
    exact readValue_nat depth n fuel follows
  | .string text, whole => by
    intro fuel rest enough _
    obtain ⟨fuel, rfl⟩ := exists_fuel (opens_pretty depth whole) enough
    exact readValue_string depth text fuel rest
  | .array [], whole => by
    intro fuel rest enough _
    obtain ⟨fuel, rfl⟩ := exists_fuel (opens_pretty depth whole) enough
    rw [pretty, prettyItems, toList_bracket_nil]
    rfl
  | .array (item :: items), whole => by
    intro fuel rest enough _
    obtain ⟨fuel, rfl⟩ := exists_fuel (opens_pretty depth whole) enough
    have inside := readItems_lines depth (item :: items) (by simp) whole fuel rest
    rw [toList_array] at enough ⊢
    simp only [List.length_cons] at enough
    rw [List.cons_append, List.cons_append, readValue_array (opens_itemLines depth whole.1 items rest),
      ← readItems_skipBlanks, skipBlanks_newline, readItems_skipBlanks, inside (by omega)]
    rfl
  | .object [], whole => by
    intro fuel rest enough _
    obtain ⟨fuel, rfl⟩ := exists_fuel (opens_pretty depth whole) enough
    rw [pretty, prettyMembers, toList_bracket_nil]
    rfl
  | .object (member :: members), whole => by
    intro fuel rest enough _
    obtain ⟨fuel, rfl⟩ := exists_fuel (opens_pretty depth whole) enough
    rw [toList_object] at enough ⊢
    simp only [List.length_cons] at enough
    have inside := readMembers_lines depth (member :: members) (by simp) whole fuel rest (by omega)
    rw [← readMembers_skipBlanks, ← skipBlanks_newline, readMembers_skipBlanks] at inside
    exact readValue_object (quote_memberLines depth member members rest) inside

theorem readItems_lines (depth : Nat) : (items : List Json) → items ≠ [] → WholeItems items →
    ∀ (fuel : Nat) (rest : List Char), (itemLines depth items).length ≤ fuel →
      readItems fuel (itemLines depth items ++ rest) = some (items, rest)
  | [], filled, _ => absurd rfl filled
  | [item], _, ⟨whole, _⟩ => by
    intro fuel rest enough
    rw [itemLines_last] at enough ⊢
    simp only [List.length_append, List.length_cons] at enough
    obtain ⟨fuel, rfl⟩ : ∃ less, fuel = less + 1 := ⟨fuel - 1, by omega⟩
    have first := readValue_pretty (depth + 1) item whole fuel
      ('\n' :: (indent depth ++ ']' :: rest)) (by omega) (follows_newline _)
    have closes : skipBlanks ('\n' :: (indent depth ++ ']' :: rest)) = ']' :: rest :=
      skipBlanks_newline_indent depth (by decide) rest
    rw [← readValue_indent fuel (depth + 1)] at first
    have done := readItems_last first closes
    simpa using done
  | item :: next :: items, _, ⟨whole, others⟩ => by
    intro fuel rest enough
    rw [itemLines_more] at enough ⊢
    simp only [List.length_append, List.length_cons] at enough
    obtain ⟨fuel, rfl⟩ : ∃ less, fuel = less + 1 := ⟨fuel - 1, by omega⟩
    have first := readValue_pretty (depth + 1) item whole fuel
      (',' :: '\n' :: (itemLines depth (next :: items) ++ rest)) (by omega) (follows_comma _)
    have later := readItems_lines depth (next :: items) (by simp) others fuel rest (by omega)
    rw [← readValue_indent fuel (depth + 1)] at first
    have done := readItems_more first (skipBlanks_of_head (by decide) _)
    rw [← readItems_skipBlanks fuel ('\n' :: _), skipBlanks_newline, readItems_skipBlanks, later] at done
    simpa using done

theorem readMembers_lines (depth : Nat) : (members : List (String × Json)) → members ≠ [] →
    WholeMembers members → ∀ (fuel : Nat) (rest : List Char),
      (memberLines depth members).length ≤ fuel →
        readMembers fuel (memberLines depth members ++ rest) = some (named members, rest)
  | [], filled, _ => absurd rfl filled
  | [(name, value)], _, ⟨whole, _⟩ => by
    intro fuel rest enough
    rw [memberLines_last] at enough ⊢
    simp only [List.length_append, List.length_cons] at enough
    obtain ⟨fuel, rfl⟩ : ∃ less, fuel = less + 1 := ⟨fuel - 1, by omega⟩
    have shorter := length_memberText (depth + 1) name value
    have second := readValue_pretty (depth + 1) value whole fuel
      ('\n' :: (indent depth ++ '\x7d' :: rest)) (by omega) (follows_newline _)
    have done := readMembers_last second (depth + 1) name
      (skipBlanks_newline_indent depth (by decide) rest)
    simpa using done
  | (name, value) :: next :: members, _, ⟨whole, others⟩ => by
    intro fuel rest enough
    rw [memberLines_more] at enough ⊢
    simp only [List.length_append, List.length_cons] at enough
    obtain ⟨fuel, rfl⟩ : ∃ less, fuel = less + 1 := ⟨fuel - 1, by omega⟩
    have shorter := length_memberText (depth + 1) name value
    have second := readValue_pretty (depth + 1) value whole fuel
      (',' :: '\n' :: (memberLines depth (next :: members) ++ rest)) (by omega) (follows_comma _)
    have later := readMembers_lines depth (next :: members) (by simp) others fuel rest (by omega)
    have done := readMembers_more second (depth + 1) name (skipBlanks_of_head (by decide) _)
    rw [← readMembers_skipBlanks fuel ('\n' :: _), skipBlanks_newline, readMembers_skipBlanks,
      later] at done
    simpa [named] using done

end

/-- What is written as JSON is read back as it was. -/
theorem parse?_pretty {j : Json} (whole : j.Whole) : parse? (pretty 0 j) = some j := by
  have ends : Follows [] := by
    rintro c ⟨⟩
  have read := readValue_pretty 0 j whole ((pretty 0 j).toList.length + 1) [] (by omega) ends
  rw [List.append_nil] at read
  unfold parse?
  simp only [read]
  rfl

end SpringLint.Json
