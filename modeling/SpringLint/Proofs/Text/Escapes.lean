import SpringLint.Text.Properties

/-! The ways to write a character in a document of keys and values, and that the reader takes each of
them back to the character. -/

namespace SpringLint.Properties

open Text

def isEscapable (c : Char) : Bool :=
  c == '\\' || c == '=' || c == ':' || c == '#' || c == '!' || (isBlank c && c != '\n')

/-- The characters that a backslash and a letter stand for. -/
inductive Control where
  | tab
  | lineFeed
  | carriageReturn
  | formFeed

def Control.char : Control → Char
  | tab => '\t'
  | lineFeed => '\n'
  | carriageReturn => '\r'
  | formFeed => '\x0c'

def Control.letter : Control → Char
  | tab => 't'
  | lineFeed => 'n'
  | carriageReturn => 'r'
  | formFeed => 'f'

/-- A hexadecimal digit, as a capital if it has one and `capital` says so. -/
def hexDigit (n : Nat) (capital : Bool) : Char :=
  if capital then (Nat.digitChar n).toUpper else Nat.digitChar n

def hexDigits (n : Nat) (capital : Fin 4 → Bool) : List Char :=
  [hexDigit (n / 0x1000 % 16) (capital 0), hexDigit (n / 0x100 % 16) (capital 1),
    hexDigit (n / 0x10 % 16) (capital 2), hexDigit (n % 16) (capital 3)]

/-- A way to write a character: as it is, behind a backslash, by its letter, or by its number. -/
inductive Spelling where
  | raw (c : Char) (plain : c ≠ '\\' ∧ c ≠ '\n')
  | escaped (c : Char) (escapable : isEscapable c = true)
  | letter (c : Control)
  | code (c : Char) (short : c.toNat < 0x10000) (capital : Fin 4 → Bool)

namespace Spelling

def char : Spelling → Char
  | raw c _ => c
  | escaped c _ => c
  | letter c => c.char
  | code c _ _ => c

def text : Spelling → List Char
  | raw c _ => [c]
  | escaped c _ => ['\\', c]
  | letter c => ['\\', c.letter]
  | code c _ capital => '\\' :: 'u' :: hexDigits c.toNat capital

def raw? : Spelling → Option Char
  | raw c _ => some c
  | _ => none

end Spelling

theorem digit?_hexDigit : ∀ n < 16, ∀ capital, digit? 16 (hexDigit n capital) = some n := by
  decide

/-- The characters that end a key, unless a backslash protects them. -/
def endsKey (c : Char) : Bool :=
  c == '=' || c == ':' || isBlank c

theorem isBlank_of_endsKey {c : Char} (inside : endsKey c = false) : isBlank c = false :=
  (Bool.or_eq_false_iff.mp inside).2

theorem hexDigit_ne : ∀ n < 16, ∀ capital, hexDigit n capital ≠ '+' ∧ hexDigit n capital ≠ '\\' ∧
    endsKey (hexDigit n capital) = false := by
  decide

theorem word?_hexDigits {n : Nat} (short : n < 0x10000) (capital : Fin 4 → Bool) :
    word? 16 (hexDigits n capital) = some n := by
  have digit (m : Nat) (i : Fin 4) : digit? 16 (hexDigit (m % 16) (capital i)) = some (m % 16) :=
    digit?_hexDigit _ (Nat.mod_lt m (by decide)) _
  have value : (((n / 0x1000 % 16) * 16 + n / 0x100 % 16) * 16 + n / 0x10 % 16) * 16 + n % 16 = n := by
    omega
  have read : digits? 16 0 (hexDigits n capital) = some n := by
    simp only [hexDigits, digits?, digit, Nat.zero_mul, Nat.zero_add, value]
  have unsigned : ∀ rest, hexDigits n capital ≠ '+' :: rest := fun rest signed =>
    (hexDigit_ne _ (Nat.mod_lt _ (by decide)) _).1 (List.cons.inj signed).1
  have small : n < 4294967296 := Nat.lt_trans short (by decide)
  have filled : (hexDigits n capital).isEmpty = false := rfl
  rw [word?]
  · rw [read, filled, Option.filter_some, if_pos (decide_eq_true small)]
    rfl
  · exact unsigned

theorem decodeHex_hexDigits (c : Char) (short : c.toNat < 0x10000) (capital : Fin 4 → Bool) :
    decodeHex (hexDigits c.toNat capital) = [c] := by
  have valid : c.toNat.isValidChar := c.valid
  rw [decodeHex, word?_hexDigits short]
  simp only [valid, if_true, Char.ofNat_toNat]

theorem unescape_escaped {c : Char} (escapable : isEscapable c = true) (cs : List Char) :
    unescape ('\\' :: c :: cs) = c :: unescape cs := by
  have other (letter : Char) (free : isEscapable letter = false) : c ≠ letter := by
    rintro rfl
    exact absurd (free.symm.trans escapable) nofun
  have t : c ≠ 't' := other 't' (by decide)
  have n : c ≠ 'n' := other 'n' (by decide)
  have r : c ≠ 'r' := other 'r' (by decide)
  have f : c ≠ 'f' := other 'f' (by decide)
  have u : c ≠ 'u' := other 'u' (by decide)
  rw [unescape]
  all_goals simp only [t, n, r, f, u, false_imp_iff, implies_true]

theorem unescape_raw {c : Char} (plain : c ≠ '\\') (cs : List Char) :
    unescape (c :: cs) = c :: unescape cs := by
  rw [unescape]
  all_goals simp only [plain, false_imp_iff, implies_true]

theorem unescape_text (s : Spelling) (cs : List Char) :
    unescape (s.text ++ cs) = s.char :: unescape cs := by
  cases s with
  | raw c plain => exact unescape_raw plain.1 cs
  | escaped c escapable => exact unescape_escaped escapable cs
  | letter c => cases c <;> rfl
  | code c short capital =>
    calc unescape ('\\' :: 'u' :: (hexDigits c.toNat capital ++ cs))
        = decodeHex (hexDigits c.toNat capital) ++ unescape cs := by
          rw [hexDigits, List.cons_append, List.cons_append, List.cons_append, List.cons_append,
            List.nil_append, unescape]
      _ = c :: unescape cs := by rw [decodeHex_hexDigits c short, List.singleton_append]

theorem splitKey_raw {c : Char} (plain : c ≠ '\\') (inside : endsKey c = false) (cs : List Char) :
    splitKey (c :: cs) = (c :: (splitKey cs).1, (splitKey cs).2) := by
  have inside : (c == '=' || c == ':' || isBlank c) = false := inside
  rw [splitKey]
  · rw [inside]
    rfl
  all_goals simp only [plain, false_imp_iff, implies_true]

theorem splitKey_append {ds : List Char} (plain : '\\' ∉ ds) (inside : ∀ c ∈ ds, endsKey c = false)
    (cs : List Char) : splitKey (ds ++ cs) = (ds ++ (splitKey cs).1, (splitKey cs).2) := by
  induction ds with
  | nil => rfl
  | cons c ds ih =>
    have ⟨here, later⟩ := List.forall_mem_cons.mp inside
    rw [List.cons_append, splitKey_raw (List.ne_of_not_mem_cons plain).symm here,
      ih (List.not_mem_of_not_mem_cons plain) later]
    rfl

theorem splitKey_stop {c : Char} (ends : endsKey c = true) (cs : List Char) :
    splitKey (c :: cs) = ([], c :: cs) := by
  have plain : c ≠ '\\' := by
    rintro rfl
    exact absurd ends (by decide)
  have ends : (c == '=' || c == ':' || isBlank c) = true := ends
  rw [splitKey]
  · rw [ends]
    rfl
  all_goals simp only [plain, false_imp_iff, implies_true]

theorem mem_hexDigits {n : Nat} {capital : Fin 4 → Bool} {c : Char} (digit : c ∈ hexDigits n capital) :
    c ≠ '\\' ∧ endsKey c = false := by
  have known (m : Nat) (i : Fin 4) := (hexDigit_ne _ (Nat.mod_lt m (by decide)) (capital i)).2
  simp only [hexDigits, List.mem_cons, List.not_mem_nil, or_false] at digit
  rcases digit with rfl | rfl | rfl | rfl
  · exact known _ 0
  · exact known _ 1
  · exact known _ 2
  · exact known _ 3

theorem splitKey_text (s : Spelling) (inside : ∀ c ∈ s.raw?, endsKey c = false) (cs : List Char) :
    splitKey (s.text ++ cs) = (s.text ++ (splitKey cs).1, (splitKey cs).2) := by
  cases s with
  | raw c plain => exact splitKey_raw plain.1 (inside c rfl) cs
  | escaped c escapable => rfl
  | letter c => rfl
  | code c short capital =>
    have inside : ∀ d ∈ hexDigits c.toNat capital, endsKey d = false := fun _ digit =>
      (mem_hexDigits digit).2
    have digits := splitKey_append (fun digit => (mem_hexDigits digit).1 rfl) inside cs
    calc splitKey ('\\' :: 'u' :: (hexDigits c.toNat capital ++ cs))
        = ('\\' :: 'u' :: (splitKey (hexDigits c.toNat capital ++ cs)).1,
            (splitKey (hexDigits c.toNat capital ++ cs)).2) := rfl
      _ = _ := by rw [digits]; rfl

namespace Spelling

variable (s : Spelling)

theorem text_cases : (∃ c, s.raw? = some c ∧ s.text = [c]) ∨ (s.raw? = none ∧ ∃ t, s.text = '\\' :: t) := by
  cases s with
  | raw c plain => exact .inl ⟨c, rfl, rfl⟩
  | escaped c escapable => exact .inr ⟨rfl, _, rfl⟩
  | letter c => exact .inr ⟨rfl, _, rfl⟩
  | code c short capital => exact .inr ⟨rfl, _, rfl⟩

theorem isBlank_head {c : Char} (free : ∀ c ∈ s.raw?, isBlank c = false) (first : c ∈ s.text.head?) :
    isBlank c = false := by
  rcases s.text_cases with ⟨d, own, same⟩ | ⟨-, t, same⟩
  · rw [same] at first
    cases first
    exact free c own
  · rw [same] at first
    cases first
    decide

theorem text_ne_nil : s.text ≠ [] := by
  rcases s.text_cases with ⟨c, -, same⟩ | ⟨-, t, same⟩
  · exact same ▸ List.cons_ne_nil _ _
  · exact same ▸ List.cons_ne_nil _ _

theorem inline_text : '\n' ∉ s.text := by
  have digits {n : Nat} {capital : Fin 4 → Bool} : '\n' ∉ hexDigits n capital := fun digit =>
    absurd (mem_hexDigits digit).2 (by decide)
  cases s with
  | raw c plain => exact mt List.mem_singleton.mp plain.2.symm
  | escaped c escapable =>
    have other : '\n' ≠ c := by
      rintro rfl
      exact absurd escapable (by decide)
    exact List.not_mem_cons_of_ne_of_not_mem (by decide) (mt List.mem_singleton.mp other)
  | letter c => cases c <;> decide
  | code c short capital =>
    exact List.not_mem_cons_of_ne_of_not_mem (by decide)
      (List.not_mem_cons_of_ne_of_not_mem (by decide) digits)

end Spelling

end SpringLint.Properties
