import SpringLint.Text.Basic
import SpringLint.Text.Split

/-! Heads, tails and separators of texts, as ways to write the text in parts. -/

namespace SpringLint.Text

theorem listAfter?_eq_some {head cs rest : List Char} (found : listAfter? head cs = some rest) :
    cs = head ++ rest := by
  induction head generalizing cs with
  | nil => exact Option.some.inj found
  | cons c head ih =>
    cases cs with
    | nil => cases found
    | cons d cs =>
      simp only [listAfter?] at found
      split at found
      · rw [ih found, ← eq_of_beq ‹(c == d) = true›, List.cons_append]
      · cases found

theorem afterHead?_eq_some {head s rest : String} (found : afterHead? head s = some rest) :
    s = head ++ rest := by
  obtain ⟨tail, split, rfl⟩ := Option.map_eq_some_iff.mp found
  exact String.toList_inj.mp (by simp [listAfter?_eq_some split])

theorem listAfter?_append (head rest : List Char) : listAfter? head (head ++ rest) = some rest := by
  induction head with
  | nil => rfl
  | cons c head ih => simp [listAfter?, ih]

theorem beforeTail?_eq_some {tail s front : String} (found : beforeTail? tail s = some front) :
    s = front ++ tail := by
  have ⟨cs, split, same⟩ := Option.map_eq_some_iff.mp found
  have whole := congrArg List.reverse (listAfter?_eq_some split)
  rw [List.reverse_reverse, List.reverse_append, List.reverse_reverse] at whole
  rw [← same]
  exact String.toList_inj.mp (by simp [whole])

theorem afterHead?_append (head rest : String) : afterHead? head (head ++ rest) = some rest := by
  simp [afterHead?, listAfter?_append]

theorem beforeTail?_append (head tail : String) : beforeTail? tail (head ++ tail) = some head := by
  simp [beforeTail?, listAfter?_append]

theorem startsWith_append (head rest : String) : startsWith head (head ++ rest) = true := by
  simp [startsWith]

theorem cutList?_eq_some {sep : Char} {cs head tail : List Char}
    (found : cutList? sep cs = some (head, tail)) : cs = head ++ sep :: tail ∧ sep ∉ head := by
  induction cs generalizing head with
  | nil => cases found
  | cons c cs ih =>
    simp only [cutList?] at found
    split at found
    · cases found
      exact ⟨by rw [eq_of_beq ‹(c == sep) = true›, List.nil_append], List.not_mem_nil⟩
    · rename_i other
      obtain ⟨⟨before, after⟩, split, same⟩ := Option.map_eq_some_iff.mp found
      cases same
      obtain ⟨whole, absent⟩ := ih split
      refine ⟨by rw [whole, List.cons_append], fun member => ?_⟩
      rcases List.mem_cons.mp member with rfl | member
      · exact other (beq_self_eq_true _)
      · exact absent member

theorem cutLast?_eq_some {sep : Char} {s head tail : String}
    (found : cutLast? sep s = some (head, tail)) :
    s.toList = head.toList ++ sep :: tail.toList ∧ sep ∉ tail.toList := by
  obtain ⟨⟨after, before⟩, split, same⟩ := Option.map_eq_some_iff.mp found
  cases same
  obtain ⟨whole, absent⟩ := cutList?_eq_some split
  refine ⟨?_, by simpa using absent⟩
  rw [← List.reverse_reverse s.toList, whole]
  simp

theorem cutList?_append {sep : Char} {head : List Char} (absent : sep ∉ head) (tail : List Char) :
    cutList? sep (head ++ sep :: tail) = some (head, tail) := by
  induction head with
  | nil => simp [cutList?]
  | cons c head ih =>
    obtain ⟨other, later⟩ := not_or.mp (mt List.mem_cons.mpr absent)
    simp [cutList?, Ne.symm other, ih later]

theorem cutList?_eq_none {sep : Char} {cs : List Char} (absent : cutList? sep cs = none) :
    sep ∉ cs := by
  intro member
  obtain ⟨head, tail, whole, early⟩ := List.eq_append_cons_of_mem member
  rw [whole, cutList?_append early] at absent
  cases absent

theorem lastPart_cases (sep : Char) (s : String) :
    sep ∉ (lastPart sep s).toList ∧
      (s = lastPart sep s ∨ ∃ head, s.toList = head ++ sep :: (lastPart sep s).toList) := by
  unfold lastPart
  cases found : cutLast? sep s with
  | none =>
    have absent := cutList?_eq_none (Option.map_eq_none_iff.mp found)
    exact ⟨by simpa using absent, .inl rfl⟩
  | some parts =>
    obtain ⟨whole, absent⟩ := cutLast?_eq_some found
    exact ⟨absent, .inr ⟨_, whole⟩⟩

theorem lastPart_eq {sep : Char} {s tail : String} {head : List Char}
    (whole : s.toList = head ++ sep :: tail.toList) (absent : sep ∉ tail.toList) :
    lastPart sep s = tail := by
  have cut : cutLast? sep s = some (String.ofList head, tail) := by
    have reversed : s.toList.reverse = tail.toList.reverse ++ sep :: head.reverse := by simp [whole]
    rw [cutLast?, reversed, cutList?_append (by simpa using absent)]
    simp
  rw [lastPart, cut]

theorem lastPart_append {sep : Char} {front : String} (s : String)
    (parted : front = "" ∨ front.toList.getLast? = some sep) :
    lastPart sep (front ++ s) = lastPart sep s := by
  rcases parted with rfl | parted
  · rw [String.empty_append]
  · obtain ⟨absent, same | ⟨head, whole⟩⟩ := lastPart_cases sep s
    · obtain ⟨before, split⟩ := List.getLast?_eq_some_iff.mp parted
      have whole : (front ++ s).toList = before ++ sep :: (lastPart sep s).toList := by
        rw [String.toList_append, split, ← same, List.append_assoc, List.singleton_append]
      exact lastPart_eq whole absent
    · exact lastPart_eq (by rw [String.toList_append, whole, ← List.append_assoc]) absent

theorem splitList_eq_splitOn (sep : Char) (cs : List Char) : splitList sep cs = cs.splitOn sep := by
  induction cs with
  | nil => rfl
  | cons c cs ih =>
    rw [splitList, List.splitOn_cons_eq_if_modifyHead, ih]
    split
    · rfl
    · cases pieces : cs.splitOn sep with
      | nil => exact absurd pieces (List.splitOn_ne_nil sep cs)
      | cons piece rest => rfl

theorem splitList_of_not_mem {sep : Char} {cs : List Char} (absent : sep ∉ cs) :
    splitList sep cs = [cs] := by
  rw [splitList_eq_splitOn, List.splitOn_eq_singleton absent]

theorem splitList_append {sep : Char} {tail : List Char} (absent : sep ∉ tail) (head : List Char) :
    splitList sep (head ++ sep :: tail) = splitList sep head ++ [tail] := by
  rw [splitList_eq_splitOn, splitList_eq_splitOn, List.splitOn_append_cons_self,
    List.splitOn_eq_singleton absent]

theorem exists_split_eq (sep : Char) (s : String) :
    ∃ front, split sep s = front ++ [lastPart sep s] := by
  obtain ⟨absent, same | ⟨head, whole⟩⟩ := lastPart_cases sep s
  · refine ⟨[], ?_⟩
    rw [← same] at absent ⊢
    simp [split, splitList_of_not_mem absent]
  · refine ⟨(splitList sep head).map String.ofList, ?_⟩
    simp [split, whole, splitList_append absent]

theorem indexOfList?_append {needle ahead rest : List Char} {c : Char} (fresh : c ∉ ahead)
    (here : c :: needle <+: rest) : indexOfList? (c :: needle) (ahead ++ rest) = some ahead.length := by
  induction ahead with
  | nil =>
    cases rest with
    | nil => exact absurd (List.prefix_nil.mp here) (List.cons_ne_nil _ _)
    | cons d rest =>
      rw [List.nil_append, indexOfList?, if_pos (List.isPrefixOf_iff_prefix.mpr here)]
      rfl
  | cons d ahead ih =>
    have ⟨other, fresh⟩ := not_or.mp (mt List.mem_cons.mpr fresh)
    have late : (c :: needle).isPrefixOf (d :: (ahead ++ rest)) = false := by
      rw [List.isPrefixOf, beq_eq_false_iff_ne.mpr other, Bool.false_and]
    rw [List.cons_append, indexOfList?, late, ih fresh]
    rfl

theorem dropWhile_of_head {p : Char → Bool} {cs : List Char} (kept : ∀ c ∈ cs.head?, p c = false) :
    cs.dropWhile p = cs := by
  cases cs with
  | nil => rfl
  | cons c cs => rw [List.dropWhile_cons, kept c rfl, if_neg Bool.false_ne_true]

theorem takeWhile_of_head {p : Char → Bool} {cs rest : List Char} (taken : ∀ c ∈ cs, p c = true)
    (kept : ∀ c ∈ rest.head?, p c = false) :
    (cs ++ rest).takeWhile p = cs ∧ (cs ++ rest).dropWhile p = rest := by
  have dropped : (cs ++ rest).dropWhile p = rest := by
    rw [List.dropWhile_append_of_pos taken, dropWhile_of_head kept]
  have whole := List.takeWhile_append_dropWhile (p := p) (l := cs ++ rest)
  rw [dropped] at whole
  exact ⟨List.append_cancel_right whole, dropped⟩

theorem dropTail_of_last {p : Char → Bool} {cs : List Char} (kept : ∀ c ∈ cs.getLast?, p c = false) :
    dropTail p cs = cs := by
  rw [← List.head?_reverse] at kept
  rw [dropTail, dropWhile_of_head kept, List.reverse_reverse]

theorem trimBoth_split (p : Char → Bool) (cs : List Char) :
    ∃ tail, cs = cs.takeWhile p ++ trimBoth p cs ++ tail ∧ ∀ c ∈ tail, p c = true := by
  have whole := List.takeWhile_append_dropWhile (p := p) (l := cs)
  have tail := congrArg List.reverse
    (List.takeWhile_append_dropWhile (p := p) (l := (cs.dropWhile p).reverse))
  rw [List.reverse_append, List.reverse_reverse] at tail
  refine ⟨((cs.dropWhile p).reverse.takeWhile p).reverse, ?_, ?_⟩
  · unfold trimBoth dropTail
    rw [List.append_assoc, tail, whole]
  · intro c member
    exact List.all_eq_true.mp List.all_takeWhile c (List.mem_reverse.mp member)

theorem head?_trimBoth {p : Char → Bool} {cs : List Char} :
    ∀ c ∈ (trimBoth p cs).head?, p c = false := by
  intro c first
  have ⟨tail, split, _⟩ := trimBoth_split p cs
  have whole : cs.takeWhile p ++ cs.dropWhile p = cs.takeWhile p ++ (trimBoth p cs ++ tail) := by
    rw [List.takeWhile_append_dropWhile, ← List.append_assoc, ← split]
  have kept := List.append_cancel_left whole
  have head : (cs.dropWhile p).head? = some c := by
    rw [kept, List.head?_append, first]
    rfl
  simpa [head] using List.head?_dropWhile_not p cs

theorem getLast?_trimBoth {p : Char → Bool} {cs : List Char} :
    ∀ c ∈ (trimBoth p cs).getLast?, p c = false := by
  intro c last
  rw [trimBoth, dropTail, List.getLast?_reverse] at last
  simpa [Option.mem_def.mp last] using List.head?_dropWhile_not p (cs.dropWhile p).reverse

theorem trimBoth_eq_nil_iff {p : Char → Bool} {cs : List Char} :
    trimBoth p cs = [] ↔ ∀ c ∈ cs, p c = true := by
  constructor
  · intro nothing c member
    have ⟨tail, split, dropped⟩ := trimBoth_split p cs
    rw [split, nothing, List.append_nil] at member
    rcases List.mem_append.mp member with ahead | behind
    · exact List.all_eq_true.mp List.all_takeWhile c ahead
    · exact dropped c behind
  · intro all
    have nothing := (takeWhile_of_head all (show ∀ c ∈ [].head?, p c = false from nofun)).2
    rw [List.append_nil] at nothing
    rw [trimBoth, nothing]
    rfl

theorem trimEnd_eq {s : String} (ends : ∀ c ∈ s.toList.getLast?, isBlank c = false) : trimEnd s = s := by
  rw [trimEnd, dropTail_of_last ends, String.ofList_toList]

theorem trim_eq {s : String} (starts : ∀ c ∈ s.toList.head?, isBlank c = false)
    (ends : ∀ c ∈ s.toList.getLast?, isBlank c = false) : trim s = s := by
  rw [trim, trimBoth, dropWhile_of_head starts, dropTail_of_last ends, String.ofList_toList]

end SpringLint.Text
