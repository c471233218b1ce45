import SpringLint.Proofs.Text.Offsets

/-! Skipping blank bytes passes whole characters, each of them blank. -/

namespace SpringLint.Text

open Javadoc (byteLength)

/-- The characters that are one blank byte long. -/
def isSpacing (c : Char) : Bool :=
  c == ' ' || c == '\t' || c == '\n' || c == '\x0c' || c == '\r'

theorem isBlank_of_isSpacing {c : Char} (spacing : isSpacing c = true) : isBlank c = true := by
  simp only [isSpacing, Bool.or_eq_true, beq_iff_eq] at spacing
  rcases spacing with (((rfl | rfl) | rfl) | rfl) | rfl <;> decide

theorem utf8Size_of_isSpacing {c : Char} (spacing : isSpacing c = true) : c.utf8Size = 1 := by
  simp only [isSpacing, Bool.or_eq_true, beq_iff_eq] at spacing
  rcases spacing with (((rfl | rfl) | rfl) | rfl) | rfl <;> decide

theorem isBlankByte_ofNat {n : Nat} (small : n < 256) :
    isBlankByte (UInt8.ofNat n) = (n == 32 || n == 9 || n == 10 || n == 12 || n == 13) := by
  have same (m : Nat) (below : m < 256) : (UInt8.ofNat n == UInt8.ofNat m) = (n == m) := by
    rw [Bool.eq_iff_iff, beq_iff_eq, beq_iff_eq, ← UInt8.toNat_inj, UInt8.toNat_ofNat',
      UInt8.toNat_ofNat', Nat.mod_eq_of_lt small, Nat.mod_eq_of_lt below]
  unfold isBlankByte
  rw [← same 32 (by decide), ← same 9 (by decide), ← same 10 (by decide), ← same 12 (by decide),
    ← same 13 (by decide)]
  rfl

theorem isSpacing_eq (c : Char) :
    isSpacing c = (c.toNat == 32 || c.toNat == 9 || c.toNat == 10 || c.toNat == 12 || c.toNat == 13) := by
  have same (d : Char) : (c == d) = (c.toNat == d.toNat) := by
    rw [Bool.eq_iff_iff, beq_iff_eq, beq_iff_eq, ← Char.toNat_inj]
  unfold isSpacing
  simp only [same]
  rfl

theorem isBlankByte_utf8EncodeChar (c : Char) (inside : 0 < (String.utf8EncodeChar c).length) :
    isBlankByte ((String.utf8EncodeChar c)[0]) = isSpacing c := by
  rw [isSpacing_eq]
  have value : c.val.toNat = c.toNat := rfl
  have high (n : Nat) (least : 128 ≤ n) (small : n < 256) : isBlankByte (UInt8.ofNat n) = false := by
    rw [isBlankByte_ofNat small]
    simp
    omega
  have none (large : 128 ≤ c.toNat) :
      (c.toNat == 32 || c.toNat == 9 || c.toNat == 10 || c.toNat == 12 || c.toNat == 13) = false := by
    simp
    omega
  unfold String.utf8EncodeChar
  simp only [value]
  split
  · rename_i ascii
    rw [List.getElem_cons_zero, isBlankByte_ofNat (by omega)]
  · rw [none (by omega)]
    split
    · exact high _ (by omega) (by omega)
    · split
      · exact high _ (by omega) (by omega)
      · exact high _ (by omega) (by omega)

theorem getElem_toByteArray {s : String} {before rest : List Char} {c : Char}
    (split : s.toList = before ++ c :: rest) (inside : byteLength before < s.toByteArray.size) :
    isBlankByte (s.toByteArray[byteLength before]) = isSpacing c := by
  have positive : 0 < (String.utf8EncodeChar c).length := by
    rw [String.length_utf8EncodeChar]
    exact c.utf8Size_pos
  have bytes : s.toByteArray =
      before.utf8Encode ++ ((String.utf8EncodeChar c).toByteArray ++ rest.utf8Encode) := by
    rw [← String.utf8Encode_toList, split, List.utf8Encode_append, List.utf8Encode_cons,
      List.utf8Encode_singleton]
  have size : before.utf8Encode.size = byteLength before := by
    have whole := Javadoc.byteLength_toList (String.ofList before)
    rw [String.toList_ofList, ← String.size_toByteArray] at whole
    exact whole.symm
  rw [← isBlankByte_utf8EncodeChar c positive]
  congr 1
  simp only [bytes]
  rw [ByteArray.getElem_append_right (by omega)]
  simp only [size, Nat.sub_self]
  rw [ByteArray.getElem_append_left (by simpa using positive), List.getElem_toByteArray]

/-- What skipping blank bytes from a boundary comes to: a run of blanks, and behind it the limit or
no blank. -/
theorem skipBlankBytes_split {s : String} {before cs : List Char} {limit : Nat}
    (split : s.toList = before ++ cs) (bounded : byteLength before ≤ limit) :
    ∃ blanks rest, cs = blanks ++ rest ∧ (∀ c ∈ blanks, isSpacing c = true) ∧
      skipBlankBytes s (byteLength before) limit = byteLength before + byteLength blanks ∧
      byteLength before + byteLength blanks ≤ limit ∧
      (byteLength before + byteLength blanks < limit → ∀ c ∈ rest.head?, isSpacing c = false) := by
  induction cs generalizing before with
  | nil =>
    refine ⟨[], [], rfl, by simp, ?_, bounded, by simp⟩
    have size : s.toByteArray.size = byteLength before := by
      rw [String.size_toByteArray, ← Javadoc.byteLength_toList, split, List.append_nil]
    rw [skipBlankBytes]
    simp [size]
  | cons c cs ih =>
    have size : s.toByteArray.size = byteLength before + (c.utf8Size + byteLength cs) := by
      rw [String.size_toByteArray, ← Javadoc.byteLength_toList, split, Javadoc.byteLength_append,
        Javadoc.byteLength_cons]
    have positive := c.utf8Size_pos
    have inside : byteLength before < s.toByteArray.size := by omega
    have byte := getElem_toByteArray split inside
    rw [skipBlankBytes]
    by_cases room : byteLength before < limit
    · rw [dif_pos room, dif_pos inside, byte]
      cases blank : isSpacing c with
      | false => exact ⟨[], c :: cs, rfl, by simp, rfl, bounded, by simpa using fun _ => blank⟩
      | true =>
        have one := utf8Size_of_isSpacing blank
        have further : byteLength (before ++ [c]) = byteLength before + 1 := by
          rw [Javadoc.byteLength_append, Javadoc.byteLength_cons, one]
          rfl
        have onward : s.toList = before ++ [c] ++ cs := by
          rw [split, List.append_assoc, List.singleton_append]
        obtain ⟨blanks, rest, joined, spacing, skipped, within, stopped⟩ := ih onward (by omega)
        rw [further, Nat.add_assoc] at skipped within stopped
        refine ⟨c :: blanks, rest, by rw [joined, List.cons_append], ?_, ?_, ?_, ?_⟩
        · intro d member
          rcases List.mem_cons.mp member with rfl | later
          · exact blank
          · exact spacing d later
        · rw [Javadoc.byteLength_cons, one]
          exact skipped
        · rw [Javadoc.byteLength_cons, one]
          exact within
        · rw [Javadoc.byteLength_cons, one]
          exact stopped
    · rw [dif_neg room]
      exact ⟨[], c :: cs, rfl, by simp, rfl, bounded, fun below => absurd below room⟩

section Skip

variable {s : String} {pos limit : Nat} (boundary : Boundary s pos) (bounded : pos ≤ limit)

include boundary bounded

theorem le_skipBlankBytes : pos ≤ skipBlankBytes s pos limit := by
  obtain ⟨before, cs, split, rfl⟩ := boundary
  obtain ⟨blanks, rest, -, -, skipped, -, -⟩ := skipBlankBytes_split split bounded
  omega

theorem skipBlankBytes_le : skipBlankBytes s pos limit ≤ limit := by
  obtain ⟨before, cs, split, rfl⟩ := boundary
  obtain ⟨blanks, rest, -, -, skipped, within, -⟩ := skipBlankBytes_split split bounded
  omega

theorem boundary_skipBlankBytes : Boundary s (skipBlankBytes s pos limit) := by
  obtain ⟨before, cs, split, rfl⟩ := boundary
  obtain ⟨blanks, rest, rfl, -, skipped, -, -⟩ := skipBlankBytes_split split bounded
  refine ⟨before ++ blanks, rest, by rw [split, List.append_assoc], ?_⟩
  rw [Javadoc.byteLength_append, skipped]

theorem isSpacing_of_skipped {x : Nat × Char} (member : x ∈ range s pos (skipBlankBytes s pos limit)) :
    isSpacing x.2 = true := by
  obtain ⟨before, cs, split, rfl⟩ := boundary
  obtain ⟨blanks, rest, rfl, spacing, skipped, -, -⟩ := skipBlankBytes_split split bounded
  rw [← List.append_assoc] at split
  rw [skipped, range_of_append split] at member
  apply spacing
  rw [← map_placed (byteLength before) blanks]
  exact List.mem_map_of_mem member

theorem isBlank_of_skipped {x : Nat × Char} (member : x ∈ range s pos (skipBlankBytes s pos limit)) :
    isBlank x.2 = true :=
  isBlank_of_isSpacing (isSpacing_of_skipped boundary bounded member)

end Skip

end SpringLint.Text
