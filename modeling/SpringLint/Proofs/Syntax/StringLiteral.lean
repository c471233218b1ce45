import Mathlib.Algebra.Group.Nat.Defs
import Mathlib.Data.List.TakeWhile
import SpringLint.Proofs.Path
import SpringLint.Proofs.Text.Escapes
import SpringLint.Syntax.StringLiteral

/-! String literals as the language reads them, in units of UTF-16. First each unit is read off the
characters, where `\u` and a number may stand for any unit; then escape sequences are read off the
units, whichever way these are written. The decoder takes one step for both and counts characters. -/

namespace SpringLint.StringLiteral

open Text
open Properties (hexDigit hexDigits hexDigit_ne word?_hexDigits)

/-- A unit of a literal, and whether it is written by its number. -/
structure Sign where
  unit : Nat
  isNumbered : Bool := false
  deriving DecidableEq, Repr

def unitsOf (c : Char) : List Nat :=
  if c.toNat < 0x10000 then [c.toNat]
  else [0xD800 + (c.toNat - 0x10000) / 0x400, 0xDC00 + (c.toNat - 0x10000) % 0x400]

/-- The units that characters write. A backslash right behind another one starts no number. -/
inductive Spelled : List Char → List Sign → Prop
  | nil : Spelled [] []
  | char {cs signs} (c : Char) (plain : c ≠ '\\') :
      Spelled cs signs → Spelled (c :: cs) ((unitsOf c).map ({ unit := · }) ++ signs)
  | pair {cs signs} :
      Spelled cs signs →
        Spelled ('\\' :: '\\' :: cs) ({ unit := 0x5C } :: { unit := 0x5C } :: signs)
  | lone {c cs signs} (other : c ≠ '\\') (unmarked : c ≠ 'u') :
      Spelled (c :: cs) signs → Spelled ('\\' :: c :: cs) ({ unit := 0x5C } :: signs)
  | number {cs signs} (n : Nat) (short : n < 0x10000) (marks : Nat) (capital : Fin 4 → Bool) :
      Spelled cs signs →
        Spelled ('\\' :: 'u' :: (List.replicate marks 'u' ++ hexDigits n capital ++ cs))
          ({ unit := n, isNumbered := true } :: signs)

/-- The characters that stand behind a backslash for one character. -/
def letters : List (Char × Char) :=
  [('b', '\x08'), ('s', ' '), ('t', '\t'), ('n', '\n'), ('f', '\x0c'), ('r', '\r'), ('"', '"'),
    ('\x27', '\x27'), ('\\', '\\')]

def isOctal (sign : Sign) : Bool :=
  48 ≤ sign.unit && sign.unit ≤ 55

def octalLimit (first : Nat) : Nat :=
  if first ≤ 51 then 3 else 2

/-- The digits of an octal escape, which takes as many as it can of what follows. -/
structure OctalRun (first : Sign) (more rest : List Sign) : Prop where
  octal : ∀ sign ∈ first :: more, isOctal sign = true
  short : more.length + 1 ≤ octalLimit first.unit
  greedy : more.length + 1 = octalLimit first.unit ∨ ∀ sign ∈ rest.head?, isOctal sign = false

def octalValue (digits : List Sign) : Nat :=
  digits.foldl (fun value digit => value * 8 + (digit.unit - 48)) 0

/-- The units that the inside of a literal stands for. A quotation mark, a line end or a backslash
does not stand for itself. -/
inductive Denotes : List Sign → List Nat → Prop
  | nil : Denotes [] []
  | plain {signs units} (sign : Sign) (ordinary : sign.unit ∉ [0x22, 0x5C, 0x0A, 0x0D]) :
      Denotes signs units → Denotes (sign :: signs) (sign.unit :: units)
  | letter {signs units} (mark sign : Sign) (escapes : mark.unit = 0x5C) (c value : Char)
      (listed : (c, value) ∈ letters) (writes : sign.unit = c.toNat) :
      Denotes signs units → Denotes (mark :: sign :: signs) (value.toNat :: units)
  | octal {signs units} (mark first : Sign) (more : List Sign) (escapes : mark.unit = 0x5C)
      (run : OctalRun first more signs) :
      Denotes signs units →
        Denotes (mark :: first :: (more ++ signs)) (octalValue (first :: more) :: units)

/-- The units of a single escape are written in a way that the decoder does not see through: the
number of half a character, or a longer sequence with a number in it. -/
def Masked (signs : List Sign) : Prop :=
  (∃ n, signs = [{ unit := n, isNumbered := true }] ∧ 0xD800 ≤ n ∧ n ≤ 0xDFFF) ∨
    1 < signs.length ∧ ∃ sign ∈ signs, sign.isNumbered = true

variable {c : Char} {cs body : List Char} {signs : List Sign} {units : List Nat}

theorem unitsOf_of_lt (narrow : c.toNat < 0x10000) : unitsOf c = [c.toNat] :=
  if_pos narrow

theorem exists_unitsOf (wide : 0x10000 ≤ c.toNat) :
    ∃ high low, unitsOf c = [high, low] ∧ 0xD800 ≤ high ∧ 0xDC00 ≤ low :=
  ⟨_, _, if_neg (Nat.not_lt.mpr wide), Nat.le_add_right .., Nat.le_add_right ..⟩

theorem spelled_nil_iff (spelled : Spelled body signs) : signs = [] ↔ body = [] := by
  cases spelled with
  | nil => exact iff_of_true rfl rfl
  | char c _ _ =>
    rcases Nat.lt_or_ge c.toNat 0x10000 with narrow | wide
    · simp [unitsOf_of_lt narrow]
    · have ⟨high, low, two, _⟩ := exists_unitsOf wide
      simp [two]
  | _ => simp

theorem denotes_nil_iff (denotes : Denotes signs units) : units = [] ↔ signs = [] := by
  cases denotes <;> simp

theorem length_eq_one_iff {unit : Nat} (denotes : Denotes signs units)
    (spelled : Spelled body signs) : (unit :: units).length = 1 ↔ body = [] := by
  rw [← spelled_nil_iff spelled, ← denotes_nil_iff denotes, List.length_cons, Nat.add_eq_right,
    List.length_eq_zero_iff]

section Decoder

theorem decode_eq_nil_iff {skip : Nat} : decode skip cs = some [] ↔ cs.length ≤ skip := by
  induction cs generalizing skip with
  | nil => simp [decode]
  | cons c cs ih =>
    cases skip with
    | succ skip =>
      rw [decode, ih, List.length_cons]
      omega
    | zero =>
      refine iff_of_false ?_ (by simp)
      intro empty
      rw [decode] at empty
      split at empty
      · split at empty
        · have ⟨_, _, impossible⟩ := Option.map_eq_some_iff.mp empty
          cases impossible
        · cases empty
      · have ⟨_, _, impossible⟩ := Option.map_eq_some_iff.mp empty
        cases impossible

theorem map_cons_eq_single_iff {α : Type} {rest : Option (List α)} {a : α} :
    (∃ b, rest.map (a :: ·) = some [b]) ↔ rest = some [] := by
  constructor
  · intro ⟨b, single⟩
    have ⟨tail, found, same⟩ := Option.map_eq_some_iff.mp single
    rw [found, (List.cons.inj same).2]
  · intro empty
    exact ⟨a, by rw [empty]; rfl⟩

theorem decode_char_iff (plain : c ≠ '\\') :
    (∃ d, decode 0 (c :: cs) = some [d]) ↔ cs = [] := by
  have step : decode 0 (c :: cs) = (decode 0 cs).map (c :: ·) := by
    rw [decode, if_neg (by simpa using plain)]
  rw [step, map_cons_eq_single_iff, decode_eq_nil_iff, Nat.le_zero, List.length_eq_zero_iff]

theorem decode_escape_iff :
    (∃ d, decode 0 ('\\' :: cs) = some [d]) ↔
      ∃ value length, escape? cs = some (value, length) ∧ cs.length ≤ length := by
  rw [decode, if_pos (by simp)]
  cases escape? cs with
  | none => simp
  | some escape =>
    have ⟨value, length⟩ := escape
    dsimp only
    rw [map_cons_eq_single_iff, decode_eq_nil_iff]
    constructor
    · exact fun short => ⟨value, length, rfl, short⟩
    · intro ⟨_, _, same, short⟩
      cases same
      exact short

end Decoder

section Octal

theorem digit?_octal (c : Char) :
    digit? 8 c = if 48 ≤ c.toNat ∧ c.toNat ≤ 55 then some (c.toNat - 48) else none := by
  grind [digit?]

theorem isOctal_char (c : Char) : isOctal { unit := c.toNat } = (digit? 8 c).isSome := by
  rw [digit?_octal, isOctal]
  split <;> simp <;> omega

theorem digits?_octal (acc : Nat) (octal : ∀ d ∈ cs, (digit? 8 d).isSome = true) :
    ∃ n, digits? 8 acc cs = some n ∧ n < (acc + 1) * 8 ^ cs.length := by
  induction cs generalizing acc with
  | nil => exact ⟨acc, rfl, by simp⟩
  | cons c cs ih =>
    have ⟨first, others⟩ := List.forall_mem_cons.mp octal
    have ⟨value, known⟩ := Option.isSome_iff_exists.mp first
    have small : value < 8 := by
      rw [digit?_octal] at known
      have ⟨_, same⟩ := Option.ite_none_right_eq_some.mp known
      have := Option.some.inj same
      omega
    have ⟨n, read, bound⟩ := ih (acc * 8 + value) others
    refine ⟨n, by rw [digits?, known]; exact read, Nat.lt_of_lt_of_le bound ?_⟩
    rw [List.length_cons, Nat.pow_succ, Nat.mul_comm (8 ^ cs.length) 8, ← Nat.mul_assoc]
    exact Nat.mul_le_mul_right _ (by omega)

theorem octalLimit_char (c : Char) : octalLimit c.toNat = (if c ≤ '3' then 2 else 1) + 1 := by
  have same : c ≤ '3' ↔ c.toNat ≤ 51 := Iff.rfl
  simp only [octalLimit, same]
  split <;> rfl

theorem digit_of_mem_octalDigits {count : Nat} {d : Char} (member : d ∈ octalDigits count cs) :
    (digit? 8 d).isSome = true :=
  List.mem_takeWhile_imp (p := fun c => (digit? 8 c).isSome) member

theorem escape?_octal (octal : (digit? 8 c).isSome = true) :
    ∃ value, escape? (c :: cs) =
      some (value, (octalDigits (octalLimit c.toNat - 1) cs).length + 1) := by
  rw [octalLimit_char, Nat.add_sub_cancel]
  have unmarked : c ≠ 'u' := by
    intro same
    rw [same] at octal
    exact absurd octal (by decide)
  have digits : ∀ d ∈ c :: octalDigits (if c ≤ '3' then 2 else 1) cs, (digit? 8 d).isSome = true :=
    List.forall_mem_cons.mpr ⟨octal, fun _ => digit_of_mem_octalDigits⟩
  have short : (octalDigits (if c ≤ '3' then 2 else 1) cs).length ≤ 2 := by
    have first := (List.takeWhile_prefix (fun c => (digit? 8 c).isSome)
      (l := cs.take (if c ≤ '3' then 2 else 1))).length_le
    have second := List.length_take_le (if c ≤ '3' then 2 else 1) cs
    have limit : (if c ≤ '3' then 2 else 1) ≤ 2 := by
      split <;> decide
    exact Nat.le_trans first (Nat.le_trans second limit)
  have ⟨n, read, bound⟩ := digits?_octal 0 digits
  have small : n < 512 := by
    rw [List.length_cons, Nat.zero_add, Nat.one_mul] at bound
    exact Nat.lt_of_lt_of_le bound (Nat.pow_le_pow_right (by decide) (Nat.succ_le_succ short))
  have valid : n.isValidChar := .inl (by omega)
  refine ⟨Char.ofNat n, ?_⟩
  rw [escape?]
  · dsimp only
    rw [if_pos octal, read]
    simp [numbered?, valid]
  · exact fun same => unmarked same

theorem length_le_octalDigits_iff {count : Nat} :
    cs.length ≤ (octalDigits count cs).length ↔
      cs.length ≤ count ∧ ∀ d ∈ cs, (digit? 8 d).isSome = true := by
  have kept : octalDigits count cs <+: cs.take count := List.takeWhile_prefix _
  have taken : cs.take count <+: cs := List.take_prefix count cs
  constructor
  · intro all
    have first := kept.length_le
    have second := taken.length_le
    have third := List.length_take_le count cs
    have whole : cs.take count = cs := taken.eq_of_length (by omega)
    have same : octalDigits count cs = cs.take count := kept.eq_of_length (by omega)
    refine ⟨by omega, fun d member => ?_⟩
    rw [← whole, ← same] at member
    exact digit_of_mem_octalDigits member
  · intro ⟨short, octal⟩
    have whole : cs.take count = cs := List.take_of_length_le short
    unfold octalDigits
    rw [whole, List.takeWhile_eq_self_iff.mpr octal]

theorem signs_of_octal (spelled : Spelled cs signs)
    (octal : ∀ d ∈ cs, (digit? 8 d).isSome = true) :
    signs.length = cs.length ∧ ∀ sign ∈ signs, isOctal sign = true ∧ sign.isNumbered = false := by
  induction spelled with
  | nil => exact ⟨rfl, fun _ member => nomatch member⟩
  | @char cs signs c _ _ ih =>
    have ⟨first, others⟩ := List.forall_mem_cons.mp octal
    have ⟨length, fine⟩ := ih others
    have narrow : c.toNat < 0x10000 := by
      rw [← isOctal_char, isOctal] at first
      simp at first
      omega
    rw [unitsOf_of_lt narrow]
    refine ⟨congrArg (· + 1) length, List.forall_mem_cons.mpr ⟨⟨?_, rfl⟩, fine⟩⟩
    rw [isOctal_char]
    exact first
  | pair => exact absurd (octal '\\' List.mem_cons_self) (by decide)
  | lone => exact absurd (octal '\\' List.mem_cons_self) (by decide)
  | number => exact absurd (octal '\\' List.mem_cons_self) (by decide)

theorem octal_of_signs (spelled : Spelled cs signs)
    (octal : ∀ sign ∈ signs, isOctal sign = true ∧ sign.isNumbered = false) :
    cs.length = signs.length ∧ ∀ d ∈ cs, (digit? 8 d).isSome = true := by
  induction spelled with
  | nil => exact ⟨rfl, fun _ member => nomatch member⟩
  | @char cs signs c _ _ ih =>
    have ⟨ahead, behind⟩ := List.forall_mem_append.mp octal
    have ⟨length, fine⟩ := ih behind
    rcases Nat.lt_or_ge c.toNat 0x10000 with narrow | wide
    · rw [unitsOf_of_lt narrow] at ahead ⊢
      have ⟨first, _⟩ := ahead _ List.mem_cons_self
      rw [isOctal_char] at first
      exact ⟨congrArg (· + 1) length, List.forall_mem_cons.mpr ⟨first, fine⟩⟩
    · have ⟨high, low, two, large, _⟩ := exists_unitsOf wide
      rw [two] at ahead
      have ⟨first, _⟩ := ahead _ List.mem_cons_self
      simp [isOctal] at first
      omega
  | pair => exact absurd (octal _ List.mem_cons_self).1 (by decide)
  | lone => exact absurd (octal _ List.mem_cons_self).1 (by decide)
  | number => exact absurd (octal _ List.mem_cons_self).2 nofun

end Octal

section Single

def Wide (body : List Char) : Prop :=
  ∃ c, body = [c] ∧ 0x10000 ≤ c.toNat

theorem not_masked (plain : ∀ sign ∈ signs, sign.isNumbered = false) : ¬ Masked signs := by
  intro masked
  rcases masked with ⟨n, only, _⟩ | ⟨_, sign, member, numbered⟩
  · rw [only] at plain
    exact absurd (plain _ List.mem_cons_self) nofun
  · rw [plain sign member] at numbered
    cases numbered

theorem denotes_plain {sign : Sign} (ordinary : sign.unit ≠ 0x5C)
    (denotes : Denotes (sign :: signs) units) :
    ∃ rest, units = sign.unit :: rest ∧ Denotes signs rest := by
  cases denotes with
  | plain _ _ later => exact ⟨_, rfl, later⟩
  | letter _ _ escapes => exact absurd escapes ordinary
  | octal _ _ _ escapes => exact absurd escapes ordinary

theorem denotes_wide (wide : 0x10000 ≤ c.toNat)
    (denotes : Denotes ((unitsOf c).map ({ unit := · }) ++ signs) units) :
    ∃ high low rest, units = high :: low :: rest := by
  have ⟨high, low, two, upper, lower⟩ := exists_unitsOf wide
  rw [two] at denotes
  have ⟨later, first, denotes⟩ := denotes_plain (by show high ≠ _; omega) denotes
  have ⟨rest, second, _⟩ := denotes_plain (by show low ≠ _; omega) denotes
  exact ⟨high, low, rest, by rw [first, second]⟩

theorem length_of_wide (spelled : Spelled body signs) (denotes : Denotes signs units)
    (wide : Wide body) : units.length ≠ 1 := by
  have ⟨c, only, large⟩ := wide
  cases spelled with
  | nil => cases only
  | char d _ _ =>
    obtain ⟨rfl, -⟩ := List.cons.inj only
    have ⟨high, low, rest, whole⟩ := denotes_wide large denotes
    simp [whole]
  | pair => cases only
  | lone => cases only
  | number => cases only

theorem single_char (plain : c ≠ '\\') (spelled : Spelled cs signs)
    (denotes : Denotes ((unitsOf c).map ({ unit := · }) ++ signs) units) :
    (∃ d, decode 0 (c :: cs) = some [d]) ↔ Wide (c :: cs) ∨ units.length = 1 ∧
      ¬ Masked ((unitsOf c).map ({ unit := · }) ++ signs) := by
  rw [decode_char_iff plain]
  rcases Nat.lt_or_ge c.toNat 0x10000 with narrow | wide
  · have itself : c.toNat ≠ 0x5C := fun same =>
      plain (Char.toNat_inj.mp (same.trans (by decide)))
    rw [unitsOf_of_lt narrow] at denotes ⊢
    have denotes : Denotes ({ unit := c.toNat } :: signs) units := denotes
    have ⟨rest, first, later⟩ := denotes_plain itself denotes
    rw [first, length_eq_one_iff later spelled]
    constructor
    · intro empty
      refine .inr ⟨empty, not_masked ?_⟩
      rw [(spelled_nil_iff spelled).mpr empty]
      exact List.forall_mem_singleton.mpr rfl
    · intro either
      rcases either with ⟨d, only, wide⟩ | ⟨empty, _⟩
      · obtain ⟨rfl, -⟩ := List.cons.inj only
        omega
      · exact empty
  · have ⟨high, low, rest, whole⟩ := denotes_wide wide denotes
    rw [whole]
    constructor
    · intro empty
      exact .inl ⟨c, by rw [empty], wide⟩
    · intro either
      rcases either with ⟨d, only, _⟩ | ⟨short, _⟩
      · exact (List.cons.inj only).2
      · simp at short

theorem escape?_letter {value : Char} (listed : (c, value) ∈ letters) :
    escape? (c :: cs) = some (value, 1) := by
  simp only [letters, List.mem_cons, Prod.mk.injEq, List.not_mem_nil, or_false] at listed
  rcases listed with ⟨rfl, rfl⟩ | ⟨rfl, rfl⟩ | ⟨rfl, rfl⟩ | ⟨rfl, rfl⟩ | ⟨rfl, rfl⟩ | ⟨rfl, rfl⟩ |
    ⟨rfl, rfl⟩ | ⟨rfl, rfl⟩ | ⟨rfl, rfl⟩ <;> rfl

theorem unit_letter {value : Char} (listed : (c, value) ∈ letters) : c.toNat < 0x80 := by
  have all : ∀ entry ∈ letters, entry.1.toNat < 0x80 := by decide
  exact all _ listed

theorem spelled_char (plain : c ≠ '\\') (spelled : Spelled (c :: cs) signs) :
    ∃ rest, signs = (unitsOf c).map ({ unit := · }) ++ rest ∧ Spelled cs rest := by
  cases spelled with
  | char _ _ later => exact ⟨_, rfl, later⟩
  | pair => exact absurd rfl plain
  | lone => exact absurd rfl plain
  | number => exact absurd rfl plain

theorem single_letter {value : Char} {unit : Nat} (listed : (c, value) ∈ letters)
    (spelled : Spelled cs signs) (denotes : Denotes signs units) :
    (∃ d, decode 0 ('\\' :: c :: cs) = some [d]) ↔ (unit :: units).length = 1 ∧
      ¬ Masked ({ unit := 0x5C } :: { unit := c.toNat } :: signs) := by
  rw [decode_escape_iff, escape?_letter listed, length_eq_one_iff denotes spelled]
  constructor
  · intro ⟨_, _, same, short⟩
    cases same
    have empty : cs = [] := List.length_eq_zero_iff.mp (by simpa using short)
    refine ⟨empty, not_masked ?_⟩
    rw [(spelled_nil_iff spelled).mpr empty]
    exact List.forall_mem_cons.mpr ⟨rfl, List.forall_mem_singleton.mpr rfl⟩
  · intro ⟨empty, _⟩
    exact ⟨value, 1, rfl, by simp [empty]⟩

theorem single_octal {unit : Nat} {more : List Sign} (spelled : Spelled cs (more ++ signs))
    (run : OctalRun { unit := c.toNat } more signs) (denotes : Denotes signs units) :
    (∃ d, decode 0 ('\\' :: c :: cs) = some [d]) ↔ (unit :: units).length = 1 ∧
      ¬ Masked ({ unit := 0x5C } :: { unit := c.toNat } :: (more ++ signs)) := by
  have ⟨first, others⟩ := List.forall_mem_cons.mp run.octal
  rw [isOctal_char] at first
  have ⟨value, taken⟩ : ∃ value, escape? (c :: cs) =
      some (value, (octalDigits (octalLimit c.toNat - 1) cs).length + 1) := escape?_octal first
  have short := run.short
  have single : (∃ d, decode 0 ('\\' :: c :: cs) = some [d]) ↔
      cs.length ≤ octalLimit c.toNat - 1 ∧ ∀ d ∈ cs, (digit? 8 d).isSome = true := by
    rw [decode_escape_iff, taken, ← length_le_octalDigits_iff]
    constructor
    · intro ⟨_, _, same, all⟩
      cases same
      exact Nat.le_of_succ_le_succ all
    · intro all
      exact ⟨value, _, rfl, Nat.succ_le_succ all⟩
  have length : (unit :: units).length = 1 ↔ signs = [] := by
    rw [List.length_cons, Nat.add_eq_right, List.length_eq_zero_iff, denotes_nil_iff denotes]
  rw [single, length]
  constructor
  · intro ⟨few, octal⟩
    have ⟨size, fine⟩ := signs_of_octal spelled octal
    refine ⟨?_, not_masked ?_⟩
    · cases signs with
      | nil => rfl
      | cons sign rest =>
        rw [List.length_append, List.length_cons] at size
        rcases run.greedy with full | stops
        · dsimp only at full short
          omega
        · have ⟨digit, _⟩ := fine sign (List.mem_append_right _ List.mem_cons_self)
          rw [stops sign rfl] at digit
          cases digit
    · exact List.forall_mem_cons.mpr ⟨rfl, List.forall_mem_cons.mpr ⟨rfl, fun s m => (fine s m).2⟩⟩
  · intro ⟨empty, seen⟩
    rw [empty, List.append_nil] at spelled seen
    have plain : ∀ sign ∈ more, isOctal sign = true ∧ sign.isNumbered = false := by
      intro sign member
      refine ⟨others sign member, Bool.eq_false_iff.mpr fun numbered => seen (.inr ⟨?_, sign, ?_, ?_⟩)⟩
      · simp
      · exact List.mem_cons_of_mem _ (List.mem_cons_of_mem _ member)
      · exact numbered
    have ⟨size, octal⟩ := octal_of_signs spelled plain
    dsimp only at short
    exact ⟨by omega, octal⟩

theorem single_pair (spelled : Spelled cs signs)
    (denotes : Denotes ({ unit := 0x5C } :: { unit := 0x5C } :: signs) units) :
    (∃ d, decode 0 ('\\' :: '\\' :: cs) = some [d]) ↔ units.length = 1 ∧
      ¬ Masked ({ unit := 0x5C } :: { unit := 0x5C } :: signs) := by
  have listed : ('\\', '\\') ∈ letters := by decide
  cases denotes with
  | plain _ ordinary => exact absurd (by decide) ordinary
  | letter _ _ _ _ _ _ _ later => exact single_letter listed spelled later
  | octal _ _ _ _ run => exact absurd (run.octal _ List.mem_cons_self) (by decide)

theorem single_lone (other : c ≠ '\\') (spelled : Spelled (c :: cs) signs)
    (denotes : Denotes ({ unit := 0x5C } :: signs) units) :
    (∃ d, decode 0 ('\\' :: c :: cs) = some [d]) ↔ units.length = 1 ∧
      ¬ Masked ({ unit := 0x5C } :: signs) := by
  have ⟨rest, written, later⟩ := spelled_char other spelled
  rcases Nat.lt_or_ge c.toNat 0x10000 with narrow | wide
  · rw [unitsOf_of_lt narrow] at written
    have written : signs = { unit := c.toNat } :: rest := written
    rw [written] at denotes ⊢
    cases denotes with
    | plain _ ordinary => exact absurd (by decide) ordinary
    | letter _ _ _ d value listed writes denotes =>
      obtain rfl : c = d := Char.toNat_inj.mp writes
      exact single_letter listed later denotes
    | octal _ _ more _ run denotes => exact single_octal later run denotes
  · -- no escape sequence goes on with a character beyond the first 65536
    have ⟨high, low, two, upper, _⟩ := exists_unitsOf wide
    rw [two] at written
    have ⟨tail, written⟩ : ∃ tail, signs = { unit := high } :: tail := ⟨_, written⟩
    rw [written] at denotes
    cases denotes with
    | plain _ ordinary => exact absurd (by decide) ordinary
    | letter _ _ _ d value listed writes =>
      have := unit_letter listed
      dsimp only at writes
      omega
    | octal _ _ _ _ run =>
      have first := run.octal _ List.mem_cons_self
      simp only [isOctal, Bool.and_eq_true, decide_eq_true_eq] at first
      omega

theorem hexDigit_ne_mark : ∀ n < 16, ∀ capital, (hexDigit n capital == 'u') = false := by
  decide

theorem escape?_number {n : Nat} (short : n < 0x10000) (marks : Nat) (capital : Fin 4 → Bool)
    (cs : List Char) :
    escape? ('u' :: (List.replicate marks 'u' ++ hexDigits n capital ++ cs)) =
      (numbered? n).map fun c => (c, marks + 5) := by
  have passed : ((List.replicate marks 'u' ++ hexDigits n capital ++ cs).takeWhile
      (· == 'u')).length = marks := by
    have all : ∀ c ∈ List.replicate marks 'u', (c == 'u') = true := fun c member => by
      rw [List.eq_of_mem_replicate member, beq_self_eq_true]
    have stops : (hexDigits n capital ++ cs).takeWhile (· == 'u') = [] :=
      List.takeWhile_cons_of_neg (by
        rw [hexDigit_ne_mark _ (Nat.mod_lt _ (by decide)) _]
        exact Bool.false_ne_true)
    rw [List.append_assoc, List.takeWhile_append_of_pos all, stops, List.append_nil,
      List.length_replicate]
  have digits : ((List.replicate marks 'u' ++ hexDigits n capital ++ cs).drop marks).take 4 =
      hexDigits n capital := by
    rw [List.append_assoc, List.drop_left' List.length_replicate]
    exact List.take_left' rfl
  rw [escape?, passed, digits, word?_hexDigits short]
  rfl

theorem decode_number_iff {n : Nat} (short : n < 0x10000) (marks : Nat) (capital : Fin 4 → Bool)
    (cs : List Char) :
    (∃ d, decode 0 ('\\' :: 'u' :: (List.replicate marks 'u' ++ hexDigits n capital ++ cs)) =
      some [d]) ↔ n.isValidChar ∧ cs = [] := by
  have size : (hexDigits n capital).length = 4 := rfl
  rw [decode_escape_iff, escape?_number short]
  unfold numbered?
  split
  · rename_i valid
    simp only [Option.map_some, Option.some.injEq, Prod.mk.injEq, List.length_cons,
      List.length_append, List.length_replicate, size]
    constructor
    · intro ⟨_, _, ⟨_, same⟩, all⟩
      exact ⟨valid, List.length_eq_zero_iff.mp (by omega)⟩
    · intro ⟨_, empty⟩
      exact ⟨_, _, ⟨rfl, rfl⟩, by rw [empty, List.length_nil]⟩
  · rename_i invalid
    exact iff_of_false (fun ⟨_, _, impossible, _⟩ => nomatch impossible) fun both =>
      invalid both.1

theorem masked_number_iff {n : Nat} (short : n < 0x10000) :
    Masked [{ unit := n, isNumbered := true }] ↔ ¬ n.isValidChar := by
  constructor
  · rintro (⟨_, same, lower, upper⟩ | ⟨long, _⟩) valid
    · obtain ⟨rfl, -⟩ := Sign.mk.inj (List.cons.inj same).1
      rcases valid with below | ⟨above, _⟩ <;> omega
    · simp at long
  · intro invalid
    refine .inl ⟨n, rfl, ?_⟩
    unfold Nat.isValidChar at invalid
    omega

theorem masked_number_of_ne_nil (n : Nat) (follows : signs ≠ []) :
    Masked ({ unit := n, isNumbered := true } :: signs) := by
  refine .inr ⟨?_, _, List.mem_cons_self, rfl⟩
  have := List.length_pos_iff.mpr follows
  rw [List.length_cons]
  omega

theorem single_number {n : Nat} (short : n < 0x10000) (marks : Nat) (capital : Fin 4 → Bool)
    (spelled : Spelled cs signs)
    (denotes : Denotes ({ unit := n, isNumbered := true } :: signs) units) :
    (∃ d, decode 0 ('\\' :: 'u' :: (List.replicate marks 'u' ++ hexDigits n capital ++ cs)) =
      some [d]) ↔ units.length = 1 ∧ ¬ Masked ({ unit := n, isNumbered := true } :: signs) := by
  have longer (follows : signs ≠ []) : (n.isValidChar ∧ cs = []) ↔
      units.length = 1 ∧ ¬ Masked ({ unit := n, isNumbered := true } :: signs) :=
    iff_of_false (fun both => follows ((spelled_nil_iff spelled).mpr both.2)) fun both =>
      both.2 (masked_number_of_ne_nil n follows)
  rw [decode_number_iff short]
  cases denotes with
  | plain _ _ later =>
    rw [length_eq_one_iff later spelled, and_comm]
    refine and_congr_right fun empty => ?_
    rw [(spelled_nil_iff spelled).mpr empty, masked_number_iff short, not_not]
  | letter => exact longer (List.cons_ne_nil _ _)
  | octal => exact longer (List.cons_ne_nil _ _)

/-- The decoder comes to a single character if the literal is one character that takes two units, or
if it stands for one unit whose writing is not masked. -/
theorem decode_single_iff (spelled : Spelled body signs) (denotes : Denotes signs units) :
    (∃ c, decode 0 body = some [c]) ↔ Wide body ∨ units.length = 1 ∧ ¬ Masked signs := by
  have longer {a b : Char} {rest : List Char} : ¬ Wide (a :: b :: rest) :=
    fun ⟨_, only, _⟩ => nomatch only
  cases spelled with
  | nil =>
    rw [(denotes_nil_iff denotes).mpr rfl]
    exact iff_of_false (fun ⟨_, impossible⟩ => nomatch impossible) fun either =>
      either.elim (fun ⟨_, impossible, _⟩ => nomatch impossible) fun both => nomatch both.1
  | char c plain later => exact single_char plain later denotes
  | pair later => rw [single_pair later denotes, or_iff_right longer]
  | lone other _ later => rw [single_lone other later denotes, or_iff_right longer]
  | number n short marks capital later =>
    rw [single_number short marks capital later denotes, or_iff_right longer]

end Single

theorem value?_eq (spelled : Spelled body signs) (denotes : Denotes signs units) :
    value? ("\"" ++ String.ofList body ++ "\"") = decode 0 body := by
  have opened : afterHead? "\"" ("\"" ++ String.ofList body ++ "\"") =
      some (String.ofList body ++ "\"") := by
    rw [afterHead?, String.append_assoc, String.toList_append, listAfter?_append, Option.map_some,
      String.ofList_toList]
  have unquoted : ∀ rest, body ≠ '"' :: rest := by
    intro rest quoted
    rw [quoted] at spelled
    obtain ⟨signs, written, -⟩ := spelled_char (by decide) spelled
    rw [written] at denotes
    cases denotes with
    | plain _ ordinary => exact absurd (by decide) ordinary
    | letter _ _ escapes => exact absurd escapes (by decide)
    | octal _ _ _ escapes => exact absurd escapes (by decide)
  have closed : startsWith "\"\"" (String.ofList body) = false := by
    have inside : (String.ofList body).toList = body := String.toList_ofList
    rw [startsWith, inside]
    cases body with
    | nil => rfl
    | cons c rest =>
      have other : ('"' == c) = false := beq_false_of_ne fun same => unquoted rest (same ▸ rfl)
      show ('"' == c && _) = false
      rw [other, Bool.false_and]
  rw [value?, opened, Option.bind_eq_bind, Option.bind_some, beforeTail?_append, Option.bind_some,
    closed, if_neg Bool.false_ne_true, String.toList_ofList]

end SpringLint.StringLiteral
