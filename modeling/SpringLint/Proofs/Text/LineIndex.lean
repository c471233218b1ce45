import Mathlib.Data.List.TakeWhile
import Mathlib.Order.Bounds.Defs
import SpringLint.Proofs.Text.Offsets

/-! The line that holds an offset, and where it starts: what the search in the starts of the lines
finds. -/

namespace SpringLint.Text

/-- Of the items exactly the first `n` satisfy `p`. -/
structure Parts (p : Nat → Bool) (items : List Nat) (n : Nat) : Prop where
  inside : n ≤ items.length
  before : ∀ x ∈ items.take n, p x = true
  behind : ∀ x ∈ items.drop n, p x = false

namespace Parts

variable {p : Nat → Bool} {items : List Nat} {n : Nat}

theorem getD_iff (parts : Parts p items n) {i : Nat} (listed : i < items.length) :
    p (items.getD i 0) = true ↔ i < n := by
  rw [List.getD_eq_getElem?_getD, List.getElem?_eq_getElem listed, Option.getD_some]
  by_cases early : i < n
  · have member : items[i] ∈ items.take n :=
      List.mem_take_iff_getElem.mpr ⟨i, by omega, rfl⟩
    simp [early, parts.before _ member]
  · have member : items[i] ∈ items.drop n := by
      rw [List.mem_drop_iff_getElem]
      exact ⟨i - n, by omega, by simp [Nat.add_sub_of_le (Nat.le_of_not_lt early)]⟩
    simp [early, parts.behind _ member]

/-- Halving keeps the place between the two ends, and ends there. -/
theorem bisect_eq (parts : Parts p items n) {fuel lo hi : Nat} (low : lo ≤ n) (high : n ≤ hi)
    (listed : hi ≤ items.length) (enough : hi - lo ≤ fuel) : bisect p items fuel lo hi = n := by
  induction fuel generalizing lo hi with
  | zero =>
    have same : lo = n := by omega
    rw [bisect, same]
  | succ fuel ih =>
    simp only [bisect]
    split
    · have middle := parts.getD_iff (i := (lo + hi) / 2) (by omega)
      split
      · rename_i passed
        have early := middle.mp passed
        exact ih (by omega) high listed (by omega)
      · rename_i failed
        have late := mt middle.mpr failed
        exact ih low (by omega) (by omega) (by omega)
    · omega

theorem unique {m : Nat} (first : Parts p items n) (second : Parts p items m) : n = m := by
  have left := first.bisect_eq (Nat.zero_le _) first.inside (Nat.le_refl _) (Nat.sub_le _ _)
  have right := second.bisect_eq (Nat.zero_le _) second.inside (Nat.le_refl _) (Nat.sub_le _ _)
  exact left.symm.trans right

end Parts

/-- Whether an ascending list is parted by an offset: the items up to the offset come first. -/
theorem parts_takeWhile {items : List Nat} (ascending : items.Pairwise (· < ·)) (offset : Nat) :
    Parts (· ≤ offset) items (items.takeWhile (· ≤ offset)).length := by
  induction items with
  | nil => exact ⟨Nat.le_refl _, by simp, by simp⟩
  | cons a items ih =>
    have ⟨later, ascending⟩ := List.pairwise_cons.mp ascending
    have rest := ih ascending
    by_cases early : a ≤ offset
    · simp only [List.takeWhile_cons, early, decide_true, if_true, List.length_cons]
      exact ⟨Nat.succ_le_succ rest.inside, by simpa [early] using rest.before, rest.behind⟩
    · simp only [List.takeWhile_cons, early, decide_false, Bool.false_eq_true, if_false]
      refine ⟨Nat.zero_le _, by simp, ?_⟩
      intro x member
      rcases List.mem_cons.mp member with same | member
      · simpa [same] using early
      · have := later x member
        simp
        omega

section Starts

variable {cs : List Char} {pos x : Nat}

theorem lt_of_mem_lineStartsFrom (member : x ∈ lineStartsFrom pos cs) : pos < x := by
  induction cs generalizing pos with
  | nil => cases member
  | cons c cs ih =>
    have positive := c.utf8Size_pos
    rw [lineStartsFrom] at member
    split at member
    · rcases List.mem_cons.mp member with same | member
      · omega
      · have := ih member
        omega
    · have := ih member
      omega

theorem pairwise_lineStartsFrom (pos : Nat) (cs : List Char) :
    (lineStartsFrom pos cs).Pairwise (· < ·) := by
  induction cs generalizing pos with
  | nil => exact .nil
  | cons c cs ih =>
    rw [lineStartsFrom]
    split
    · exact .cons (fun x member => lt_of_mem_lineStartsFrom member) (ih _)
    · exact ih _

theorem pairwise_lineStarts (s : String) : (lineStarts s).Pairwise (· < ·) :=
  .cons (fun _ member => lt_of_mem_lineStartsFrom member) (pairwise_lineStartsFrom 0 s.toList)

theorem parts_lineStarts (s : String) (offset : Nat) :
    Parts (· ≤ offset) (lineStarts s) (lineOf (lineStarts s) offset) := by
  have parts := parts_takeWhile (pairwise_lineStarts s) offset
  have found := parts.bisect_eq (Nat.zero_le _) parts.inside (Nat.le_refl _) (Nat.sub_le _ _)
  rw [lineOf, found]
  exact parts

def newlinesBefore (s : String) (offset : Nat) : Nat :=
  ((range s 0 offset).map Prod.snd).count '\n'

theorem length_takeWhile_lineStartsFrom (pos offset : Nat) (cs : List Char) :
    ((lineStartsFrom pos cs).takeWhile (· ≤ offset)).length =
      (((placed pos cs).filter fun x => x.1 < offset).map Prod.snd).count '\n' := by
  induction cs generalizing pos with
  | nil => rfl
  | cons c cs ih =>
    have later := ih (pos + c.utf8Size)
    rw [lineStartsFrom]
    by_cases newline : c = '\n'
    · subst newline
      have size : '\n'.utf8Size = 1 := rfl
      rw [if_pos (beq_self_eq_true _)]
      by_cases before : pos < offset
      · have started : decide (pos + '\n'.utf8Size ≤ offset) = true := by
          simp only [size, decide_eq_true_eq]
          omega
        rw [List.takeWhile_cons, if_pos started, List.length_cons, later, placed,
          List.filter_cons_of_pos (by simpa using before), List.map_cons, List.count_cons_self]
      · have none : ((placed pos ('\n' :: cs)).filter fun x => x.1 < offset) = [] := by
          apply List.filter_eq_nil_iff.mpr
          intro x member
          have := (bounds_of_mem_placed member).1
          simp only [decide_eq_true_eq]
          omega
        have ahead : ¬decide (pos + '\n'.utf8Size ≤ offset) = true := by
          simp only [size, decide_eq_true_eq]
          omega
        rw [List.takeWhile_cons, if_neg ahead, none]
        rfl
    · rw [if_neg (by simpa using newline), later, placed]
      by_cases before : pos < offset
      · rw [List.filter_cons_of_pos (by simpa using before), List.map_cons,
          List.count_cons_of_ne newline]
      · rw [List.filter_cons_of_neg (by simpa using before)]

theorem lineOf_lineStarts (s : String) (offset : Nat) :
    lineOf (lineStarts s) offset = 1 + newlinesBefore s offset := by
  have first : decide (0 ≤ offset) = true := by simp
  calc
    lineOf (lineStarts s) offset
    _ = ((lineStarts s).takeWhile (· ≤ offset)).length :=
      (parts_lineStarts s offset).unique (parts_takeWhile (pairwise_lineStarts s) offset)
    _ = ((lineStartsFrom 0 s.toList).takeWhile (· ≤ offset)).length + 1 := by
      rw [lineStarts, List.takeWhile_cons, if_pos first, List.length_cons]
    _ = (((placed 0 s.toList).filter fun x => x.1 < offset).map Prod.snd).count '\n' + 1 := by
      rw [length_takeWhile_lineStartsFrom]
    _ = 1 + newlinesBefore s offset := by
      simp only [newlinesBefore, range, Nat.zero_le, decide_true, Bool.true_and, Nat.add_comm]

end Starts

/-! The same of bytes: no byte of another character is a line feed. -/

def bytes (s : String) : List UInt8 :=
  s.toByteArray.data.toList

theorem bytes_eq (s : String) : bytes s = s.toList.flatMap String.utf8EncodeChar := by
  rw [bytes, ← String.utf8Encode_toList, List.utf8Encode, List.toList_data_toByteArray]

def lineFeed : UInt8 := 10

theorem utf8EncodeChar_newline : String.utf8EncodeChar '\n' = [lineFeed] := by decide

theorem lineFeed_not_mem {c : Char} (other : c ≠ '\n') : lineFeed ∉ String.utf8EncodeChar c := by
  have value : c.val.toNat ≠ 10 := fun same => other (Char.toNat_inj.mp same)
  have differs (n : Nat) (small : n < 256) (high : n ≠ 10) : lineFeed ≠ UInt8.ofNat n := by
    intro same
    have numbers := congrArg UInt8.toNat same
    rw [UInt8.toNat_ofNat', Nat.mod_eq_of_lt small] at numbers
    exact high numbers.symm
  unfold String.utf8EncodeChar
  simp only
  split
  · simpa using differs _ (by omega) value
  · split
    · simp only [List.mem_cons, List.not_mem_nil, or_false, not_or]
      exact ⟨differs _ (by omega) (by omega), differs _ (by omega) (by omega)⟩
    · split
      · simp only [List.mem_cons, List.not_mem_nil, or_false, not_or]
        exact ⟨differs _ (by omega) (by omega), differs _ (by omega) (by omega),
          differs _ (by omega) (by omega)⟩
      · simp only [List.mem_cons, List.not_mem_nil, or_false, not_or]
        exact ⟨differs _ (by omega) (by omega), differs _ (by omega) (by omega),
          differs _ (by omega) (by omega), differs _ (by omega) (by omega)⟩

theorem count_newlines (pos offset : Nat) (cs : List Char) :
    (((placed pos cs).filter fun x => x.1 < offset).map Prod.snd).count '\n' =
      ((cs.flatMap String.utf8EncodeChar).take (offset - pos)).count lineFeed := by
  induction cs generalizing pos with
  | nil => simp [placed]
  | cons c cs ih =>
    have later := ih (pos + c.utf8Size)
    have rest : offset - pos - c.utf8Size = offset - (pos + c.utf8Size) := by omega
    rw [placed, List.flatMap_cons, List.take_append, String.length_utf8EncodeChar, rest,
      List.count_append, ← later]
    by_cases before : pos < offset
    · rw [List.filter_cons_of_pos (by simpa using before), List.map_cons]
      by_cases newline : c = '\n'
      · have one : (['\n'].flatMap String.utf8EncodeChar).take (offset - pos) = [lineFeed] :=
          List.take_of_length_le (by simp [utf8EncodeChar_newline]; omega)
        rw [List.flatMap_singleton] at one
        rw [newline, List.count_cons_self, one, List.count_singleton_self, Nat.add_comm]
      · have none : lineFeed ∉ (String.utf8EncodeChar c).take (offset - pos) :=
          fun member => lineFeed_not_mem newline (List.mem_of_mem_take member)
        rw [List.count_cons_of_ne newline, List.count_eq_zero_of_not_mem none, Nat.zero_add]
    · have none : offset - pos = 0 := by omega
      rw [List.filter_cons_of_neg (by simpa using before), none]
      simp

theorem getElem?_utf8EncodeChar {c : Char} {i : Nat} :
    (String.utf8EncodeChar c)[i]? = some lineFeed ↔ c = '\n' ∧ i = 0 := by
  constructor
  · intro found
    have newline : c = '\n' := by
      by_contra other
      exact lineFeed_not_mem other (List.mem_of_getElem? found)
    rw [newline, utf8EncodeChar_newline] at found
    have ⟨inside, _⟩ := List.getElem?_eq_some_iff.mp found
    exact ⟨newline, by simpa using inside⟩
  · intro ⟨newline, first⟩
    rw [newline, first, utf8EncodeChar_newline]
    rfl

theorem getElem?_bytes_cons {c : Char} {cs : List Char} {i : Nat} :
    ((c :: cs).flatMap String.utf8EncodeChar)[i]? = some lineFeed ↔
      c = '\n' ∧ i = 0 ∨
        c.utf8Size ≤ i ∧ (cs.flatMap String.utf8EncodeChar)[i - c.utf8Size]? = some lineFeed := by
  have positive := c.utf8Size_pos
  rw [List.flatMap_cons, List.getElem?_append, String.length_utf8EncodeChar]
  split
  · rw [getElem?_utf8EncodeChar]
    exact ⟨.inl, fun either => either.resolve_right (by omega)⟩
  · exact ⟨fun found => .inr ⟨by omega, found⟩, fun either => (either.resolve_left (by omega)).2⟩

theorem mem_lineStartsFrom_cons {pos x : Nat} {c : Char} {cs : List Char} :
    x ∈ lineStartsFrom pos (c :: cs) ↔
      c = '\n' ∧ x = pos + 1 ∨ x ∈ lineStartsFrom (pos + c.utf8Size) cs := by
  simp only [lineStartsFrom]
  split
  · rename_i newline
    have one : '\n'.utf8Size = 1 := rfl
    simp [beq_iff_eq.mp newline, one]
  · rename_i other
    simp [mt beq_iff_eq.mpr other]

theorem mem_lineStartsFrom_iff {pos x : Nat} {cs : List Char} :
    x ∈ lineStartsFrom pos cs ↔
      ∃ i, x = pos + i + 1 ∧ (cs.flatMap String.utf8EncodeChar)[i]? = some lineFeed := by
  induction cs generalizing pos with
  | nil => simp [lineStartsFrom]
  | cons c cs ih =>
    rw [mem_lineStartsFrom_cons, ih]
    simp only [getElem?_bytes_cons]
    constructor
    · intro either
      rcases either with ⟨newline, same⟩ | ⟨i, same, found⟩
      · exact ⟨0, same, .inl ⟨newline, rfl⟩⟩
      · exact ⟨c.utf8Size + i, by omega, .inr ⟨by omega, by rwa [Nat.add_sub_cancel_left]⟩⟩
    · intro ⟨i, same, either⟩
      rcases either with ⟨newline, first⟩ | ⟨behind, found⟩
      · exact .inl ⟨newline, by omega⟩
      · exact .inr ⟨i - c.utf8Size, by omega, found⟩

/-- A line starts at the start of the text and right behind each line feed. -/
def StartsLine (s : String) (pos : Nat) : Prop :=
  pos = 0 ∨ ∃ before, pos = before + 1 ∧ (bytes s)[before]? = some lineFeed

theorem mem_lineStarts_iff {s : String} {pos : Nat} : pos ∈ lineStarts s ↔ StartsLine s pos := by
  rw [lineStarts, List.mem_cons, mem_lineStartsFrom_iff, StartsLine, bytes_eq]
  simp only [Nat.zero_add]

theorem lineOf_bytes (s : String) (offset : Nat) :
    lineOf (lineStarts s) offset = 1 + ((bytes s).take offset).count lineFeed := by
  rw [lineOf_lineStarts, bytes_eq, ← Nat.sub_zero offset, ← count_newlines]
  simp [newlinesBefore, range]

theorem getElem?_lineStart (s : String) (offset : Nat) :
    (lineStarts s)[lineOf (lineStarts s) offset - 1]? = some (lineStart (lineStarts s) offset) := by
  have inside := (parts_lineStarts s offset).inside
  have positive := lineOf_bytes s offset
  have listed : lineOf (lineStarts s) offset - 1 < (lineStarts s).length := by omega
  rw [lineStart, List.getD_eq_getElem?_getD, List.getElem?_eq_getElem listed, Option.getD_some]

theorem isGreatest_lineStart (s : String) (offset : Nat) :
    IsGreatest {pos | pos ≤ offset ∧ StartsLine s pos} (lineStart (lineStarts s) offset) := by
  have parts := parts_lineStarts s offset
  have positive := lineOf_bytes s offset
  have ⟨listed, last⟩ := List.getElem?_eq_some_iff.mp (getElem?_lineStart s offset)
  constructor
  · have early := (parts.getD_iff listed).mpr (by omega)
    exact ⟨by simpa [lineStart] using early, mem_lineStarts_iff.mp (last ▸ List.getElem_mem listed)⟩
  · intro pos ⟨before, starts⟩
    have ⟨i, inside, same⟩ := List.getElem_of_mem (mem_lineStarts_iff.mpr starts)
    have early : i < lineOf (lineStarts s) offset := by
      apply (parts.getD_iff inside).mp
      rw [List.getD_eq_getElem?_getD, List.getElem?_eq_getElem inside, Option.getD_some, same]
      exact decide_eq_true before
    rw [← same, ← last]
    rcases Nat.lt_or_eq_of_le (Nat.le_sub_one_of_lt early) with less | equal
    · exact Nat.le_of_lt (List.pairwise_iff_getElem.mp (pairwise_lineStarts s) _ _ inside listed less)
    · exact Nat.le_of_eq (by simp only [equal])

/-- The search finds the one place that parts the starts of lines by an offset. It says how many line
feeds come before the offset, and the last line to start up to the offset has no end before it. -/
theorem lineStart_holds_offset (s : String) (offset : Nat) :
    (∀ n, Parts (· ≤ offset) (lineStarts s) n ↔ n = lineOf (lineStarts s) offset) ∧
      lineOf (lineStarts s) offset = 1 + ((bytes s).take offset).count lineFeed ∧
      (lineStarts s)[lineOf (lineStarts s) offset - 1]? = some (lineStart (lineStarts s) offset) ∧
      IsGreatest {pos | pos ≤ offset ∧ StartsLine s pos} (lineStart (lineStarts s) offset) ∧
      ∀ pos, lineStart (lineStarts s) offset ≤ pos → pos < offset →
        (bytes s)[pos]? ≠ some lineFeed := by
  have parts := parts_lineStarts s offset
  have greatest := isGreatest_lineStart s offset
  refine ⟨fun n => ⟨fun other => other.unique parts, fun same => same ▸ parts⟩, lineOf_bytes s offset,
    getElem?_lineStart s offset, greatest, ?_⟩
  intro pos behind before newline
  have next : pos + 1 ≤ lineStart (lineStarts s) offset :=
    greatest.2 ⟨before, .inr ⟨pos, rfl, newline⟩⟩
  omega

end SpringLint.Text
