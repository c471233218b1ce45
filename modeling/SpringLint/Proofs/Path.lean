import SpringLint.Path
import SpringLint.Proofs.Text.Affixes

/-! Paths that differ in their last part. A path with another extension stands beside the path, under
another name. -/

namespace SpringLint

namespace Text

theorem exists_joinWith_concat (sep : String) (parts : List String) :
    ∃ head, ∀ part, joinWith sep (parts ++ [part]) = head ++ part := by
  induction parts with
  | nil => exact ⟨"", fun part => by simp [joinWith]⟩
  | cons first rest ih =>
    obtain ⟨head, later⟩ := ih
    refine ⟨first ++ sep ++ head, fun part => ?_⟩
    have step : joinWith sep (first :: (rest ++ [part])) =
        first ++ sep ++ joinWith sep (rest ++ [part]) := by
      cases rest <;> exact String.intercalate_cons_cons
    rw [List.cons_append, step, later]
    simp only [String.append_assoc]

theorem exists_split_append (sep : Char) {front : String}
    (parted : front = "" ∨ front.toList.getLast? = some sep) :
    ∃ pieces, ∀ s : String, sep ∉ s.toList → split sep (front ++ s) = pieces ++ [s] := by
  rcases parted with rfl | parted
  · exact ⟨[], fun s absent => by simp [split, splitList_of_not_mem absent]⟩
  · obtain ⟨before, whole⟩ := List.getLast?_eq_some_iff.mp parted
    refine ⟨(splitList sep before).map String.ofList, fun s absent => ?_⟩
    have text : (front ++ s).toList = before ++ sep :: s.toList := by simp [whole]
    rw [split, text, splitList_append absent]
    simp

end Text

namespace Path

open Text

theorem resolved_concat (front : List String) {part : String} (plain : part ≠ "..") :
    resolved (front ++ [part]) = resolved front ++ [part] := by
  simp [resolved, List.foldl_append, plain]

theorem ofParts_concat_inj {folder : List String} {a b : String}
    (same : ofParts (folder ++ [a]) = ofParts (folder ++ [b])) : a = b := by
  obtain ⟨head, joined⟩ := exists_joinWith_concat "/" folder
  rw [ofParts, ofParts, joined, joined] at same
  simpa [← String.toList_inj] using same

theorem exists_parts_eq {path : String} (filled : lastPart '/' path ≠ "")
    (plain : lastPart '/' path ≠ ".") : ∃ front, parts path = front ++ [lastPart '/' path] := by
  obtain ⟨front, whole⟩ := exists_split_eq '/' path
  refine ⟨front.filter fun part => part != "" && part != ".", ?_⟩
  rw [parts, whole, List.filter_append]
  simp [filled, plain]

theorem stem_cases (name : String) :
    stem name = name ∨ ∃ tail : String, name = stem name ++ "." ++ tail ∧ '.' ∉ tail.toList := by
  unfold stem
  split
  · rename_i head tail cut
    split
    · exact .inl rfl
    · obtain ⟨whole, absent⟩ := cutLast?_eq_some cut
      exact .inr ⟨tail, by simp [← String.toList_inj, whole], absent⟩
  · exact .inl rfl

theorem stem_ne_empty {name : String} (filled : name ≠ "") : stem name ≠ "" := by
  unfold stem
  split
  · split
    · exact filled
    · rename_i other
      simpa using other
  · exact filled

theorem mem_of_mem_stem {name : String} {c : Char} (member : c ∈ (stem name).toList) :
    c ∈ name.toList := by
  rcases stem_cases name with same | ⟨tail, whole, -⟩
  · rwa [same] at member
  · rw [whole]
    simp [member]

/-- Another extension that has a dot of its own makes another name. -/
theorem stem_append_ne (name : String) {ext : String} (dotted : '.' ∈ ext.toList) :
    stem name ++ "." ++ ext ≠ name := by
  intro same
  rcases stem_cases name with whole | ⟨tail, whole, absent⟩
  · rw [whole] at same
    have sizes := congrArg String.length same
    have dot : ".".length = 1 := rfl
    simp only [String.length_append] at sizes
    omega
  · have alike : stem name ++ "." ++ ext = stem name ++ "." ++ tail := same.trans whole
    simp only [← String.toList_inj, String.toList_append, List.append_cancel_left_eq] at alike
    exact absent (alike ▸ dotted)

theorem exists_withExtension_eq {path : String} (filled : lastPart '/' path ≠ "")
    (plain : lastPart '/' path ≠ ".") (named : lastPart '/' path ≠ "..") (ext : String) :
    ∃ front : String, (front = "" ∨ front.toList.getLast? = some '/') ∧
      path = front ++ lastPart '/' path ∧
      withExtension path ext = front ++ (stem (lastPart '/' path) ++ "." ++ ext) := by
  obtain ⟨before, parted⟩ := exists_parts_eq filled plain
  have name : fileName? path = some (lastPart '/' path) := by
    rw [fileName?, parted, List.getLast?_concat]
    simp [named]
  have split : ∃ front : String, (front = "" ∨ front.toList.getLast? = some '/') ∧
      path = front ++ lastPart '/' path := by
    rcases (lastPart_cases '/' path).2 with same | ⟨head, whole⟩
    · exact ⟨"", .inl rfl, by rw [String.empty_append]; exact same⟩
    · exact ⟨String.ofList (head ++ ['/']), .inr (by simp), by simp [← String.toList_inj, whole]⟩
  obtain ⟨front, ends, whole⟩ := split
  have cut : beforeTail? (lastPart '/' path) path = some front :=
    (congrArg (beforeTail? _) whole).trans (beforeTail?_append front _)
  refine ⟨front, ends, whole, ?_⟩
  rw [withExtension, name]
  dsimp only
  rw [cut]

end Path

end SpringLint
