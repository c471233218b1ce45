import SpringLint.Proofs.Text.Affixes

/-! The words of a text, where blanks count for nothing but keep words apart, and the digits of a
number. -/

namespace SpringLint.Text

section Runs

variable {p : Char → Bool} {cs : List Char}

theorem runs_cons_blank {c : Char} (blank : p c = true) : runs p (c :: cs) = runs p cs := by
  simp [runs, blank]

theorem runs_cons_cons {c d : Char} (first : p c = false) (next : p d = false) :
    runs p (c :: d :: cs) =
      match runs p (d :: cs) with
      | [] => [[c]]
      | run :: rest => (c :: run) :: rest := by
  rw [runs.eq_def]
  cases later : runs p (d :: cs) with
  | nil => simp [first, next, later]
  | cons run rest => simp [first, next, later]

theorem runs_blanks {blanks : List Char} (parted : ∀ c ∈ blanks, p c = true) (cs : List Char) :
    runs p (blanks ++ cs) = runs p cs := by
  induction blanks with
  | nil => rfl
  | cons c blanks ih =>
    have ⟨first, parted⟩ := List.forall_mem_cons.mp parted
    rw [List.cons_append, runs_cons_blank first, ih parted]

theorem runs_word {word : List Char} (filled : word ≠ []) (whole : ∀ c ∈ word, p c = false)
    (ends : ∀ c ∈ cs.head?, p c = true) : runs p (word ++ cs) = word :: runs p cs := by
  induction word with
  | nil => exact absurd rfl filled
  | cons c word ih =>
    have ⟨first, whole⟩ := List.forall_mem_cons.mp whole
    cases word with
    | nil =>
      cases cs with
      | nil => simp [runs, first]
      | cons d cs =>
        have next : p d = true := ends d rfl
        simp [runs, first, next]
    | cons d word =>
      have later := ih (List.cons_ne_nil d word) whole
      rw [List.cons_append, List.cons_append] at *
      rw [runs_cons_cons first (whole d List.mem_cons_self), later]

theorem flatten_runs (p : Char → Bool) (cs : List Char) :
    (runs p cs).flatten = cs.filter fun c => !p c := by
  induction cs with
  | nil => rfl
  | cons c cs ih =>
    cases first : p c with
    | true => simp [runs_cons_blank first, first, ih]
    | false =>
      rw [List.filter_cons_of_pos (by simpa using first), ← ih]
      cases cs with
      | nil => simp [runs, first]
      | cons d cs =>
        cases next : p d with
        | true => simp [runs, first, next]
        | false =>
          rw [runs_cons_cons first next]
          cases runs p (d :: cs) with
          | nil => rfl
          | cons run rest => rfl

end Runs

theorem filter_intercalate {p : Char → Bool} {sep : List Char} (dropped : sep.filter p = [])
    (parts : List (List Char)) : (sep.intercalate parts).filter p = parts.flatten.filter p := by
  induction parts with
  | nil => rfl
  | cons first rest ih =>
    cases rest with
    | nil => simp
    | cons second rest => simp_all

theorem toList_compact (s : String) : (compact s).toList = s.toList.filter fun c => !isBlank c :=
  String.toList_ofList

theorem toList_joinWith_words (s : String) :
    (joinWith " " (words s)).toList = [' '].intercalate (runs isBlank s.toList) := by
  have chars : (words s).map String.toList = runs isBlank s.toList := by
    rw [words, List.map_map]
    exact (List.map_congr_left fun _ _ => String.toList_ofList).trans (List.map_id _)
  rw [joinWith, String.toList_intercalate, chars]
  rfl

theorem compact_joinWith_words (s : String) : compact (joinWith " " (words s)) = compact s := by
  have blank : ([' '].filter fun c => !isBlank c) = [] := by decide
  rw [← String.toList_inj, toList_compact, toList_compact, toList_joinWith_words,
    filter_intercalate blank, flatten_runs, List.filter_filter]
  simp

theorem digit?_digitChar : ∀ n < 10, digit? 10 (Nat.digitChar n) = some n := by
  decide

theorem digits?_append (base acc : Nat) (first second : List Char) :
    digits? base acc (first ++ second) =
      (digits? base acc first).bind fun acc => digits? base acc second := by
  induction first generalizing acc with
  | nil => rfl
  | cons c rest ih =>
    rw [List.cons_append, digits?, digits?]
    cases digit? base c with
    | none => rfl
    | some d => exact ih _

theorem digits?_toDigits (n : Nat) : digits? 10 0 (Nat.toDigits 10 n) = some n := by
  induction n using Nat.strongRecOn with
  | ind n ih =>
    by_cases small : n < 10
    · rw [Nat.toDigits_of_lt_base small, digits?, digit?_digitChar n small]
      simp [digits?]
    · have last := digit?_digitChar (n % 10) (Nat.mod_lt n (by decide))
      rw [Nat.toDigits_of_base_le (by decide) (by omega), digits?_append, ih (n / 10) (by omega),
        Option.bind_some, digits?, last]
      simp only [digits?, Option.some.injEq]
      omega

theorem eq_zero_of_head?_toDigits {n : Nat} (head : (Nat.toDigits 10 n).head? = some '0') :
    n = 0 := by
  induction n using Nat.strongRecOn with
  | ind n ih =>
    by_cases small : n < 10
    · rw [Nat.toDigits_of_lt_base small] at head
      exact Nat.digitChar_eq_zero.mp (Option.some.inj head)
    · rw [Nat.toDigits_of_base_le (by decide) (by omega), List.head?_append] at head
      have front : (Nat.toDigits 10 (n / 10)).head? = some '0' := by
        cases first : (Nat.toDigits 10 (n / 10)).head? with
        | none => exact absurd (List.head?_eq_none_iff.mp first) Nat.toDigits_ne_nil
        | some c => rwa [first] at head
      have shorter := ih (n / 10) (by omega) front
      omega

end SpringLint.Text
