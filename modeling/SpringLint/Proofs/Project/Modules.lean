import SpringLint.Project.Layout
import SpringLint.Proofs.Path
import SpringLint.Proofs.Text.Offsets

/-! The module that holds a resource. A folder is compared with the roots without the slashes around
them, but what is cut off the folder is as long as the longest root that it is, slashes and all. The
two agree on the module exactly if the root that decides, without its slashes, is the longest. -/

namespace SpringLint

namespace Text

theorem byteLength_dropWhile (p : Char → Bool) (cs : List Char) :
    Javadoc.byteLength (cs.dropWhile p) ≤ Javadoc.byteLength cs := by
  have whole := congrArg Javadoc.byteLength (List.takeWhile_append_dropWhile (p := p) (l := cs))
  rw [Javadoc.byteLength_append] at whole
  omega

theorem byteLength_reverse (cs : List Char) :
    Javadoc.byteLength cs.reverse = Javadoc.byteLength cs := by
  induction cs with
  | nil => rfl
  | cons c cs ih =>
    rw [List.reverse_cons, Javadoc.byteLength_append, ih, Javadoc.byteLength_cons,
      Javadoc.byteLength_cons, Javadoc.byteLength_nil]
    omega

theorem byteLength_trimBoth (p : Char → Bool) (cs : List Char) :
    Javadoc.byteLength (trimBoth p cs) ≤ Javadoc.byteLength cs := by
  have ahead := byteLength_dropWhile p cs
  have behind := byteLength_dropWhile p (cs.dropWhile p).reverse
  rw [byteLength_reverse] at behind
  rw [trimBoth, dropTail, byteLength_reverse]
  omega

theorem slice?_front (front rest : String) :
    slice? (front ++ rest) 0 front.utf8ByteSize = some front := by
  have split : (front ++ rest).toList = [] ++ front.toList ++ rest.toList := by simp
  have cut := slice?_of_append split
  rw [Javadoc.byteLength_nil, Nat.zero_add, Javadoc.byteLength_toList, String.ofList_toList] at cut
  exact cut

end Text

namespace Layout

open Text

variable {layout : Layout} {folder root resource : String} {location : SourceLocation}

/-- The roots of a layout, in the order in which a folder is compared with them. -/
def roots (layout : Layout) : List String :=
  mainRoot :: testRoots ++ layout.generatedRoots

/-- The root that decides what a folder is for. -/
def decidingRoot? (layout : Layout) (folder : String) : Option String :=
  layout.roots.find? (isRoot folder)

def purpose (root : String) : SourceLocation :=
  if root = mainRoot then .main else if root ∈ testRoots then .test else .generated

/-- The front of a path up to one of its folders: nothing, or what ends with a slash. -/
def IsFront (front : String) : Prop :=
  front = "" ∨ front.toList.getLast? = some '/'

theorem isRoot_iff :
    isRoot folder root = true ↔ ∃ front, IsFront front ∧ folder = front ++ trimmedRoot root := by
  unfold isRoot
  rw [Bool.or_eq_true, beq_iff_eq]
  constructor
  · intro same
    rcases same with same | ends
    · exact ⟨"", .inl rfl, by rw [String.empty_append, same]⟩
    · split at ends
      · rename_i front found
        exact ⟨front, .inr (eq_of_beq ends), beforeTail?_eq_some found⟩
      · cases ends
  · intro ⟨front, parted, whole⟩
    rcases parted with empty | ends
    · left
      rw [whole, empty, String.empty_append]
    · right
      rw [whole, beforeTail?_append]
      exact beq_iff_eq.mpr ends

theorem size_trimmedRoot (root : String) :
    (trimmedRoot root).utf8ByteSize ≤ root.utf8ByteSize := by
  rw [trimmedRoot, ← Javadoc.byteLength_toList, ← Javadoc.byteLength_toList, String.toList_ofList]
  exact byteLength_trimBoth ..

theorem split_of_mem_headsBefore {done cs : List Char} (member : folder ∈ headsBefore done cs) :
    ∃ head tail, cs = head ++ '/' :: tail ∧ folder = String.ofList (done.reverse ++ head) := by
  induction cs generalizing done with
  | nil => cases member
  | cons c cs ih =>
    have later (deeper : folder ∈ headsBefore (c :: done) cs) :
        ∃ head tail, c :: cs = head ++ '/' :: tail ∧
          folder = String.ofList (done.reverse ++ head) := by
      have ⟨head, tail, split, same⟩ := ih deeper
      exact ⟨c :: head, tail, by rw [split, List.cons_append], by simp [same]⟩
    rw [headsBefore] at member
    split at member
    · rename_i slash
      rcases List.mem_cons.mp member with here | deeper
      · exact ⟨[], cs, by rw [eq_of_beq slash, List.nil_append], by rw [here, List.append_nil]⟩
      · exact later deeper
    · exact later member

theorem split_of_mem_folders (member : folder ∈ folders resource) :
    ∃ rest, resource = folder ++ "/" ++ rest := by
  have ⟨head, tail, split, same⟩ := split_of_mem_headsBefore (List.mem_reverse.mp member)
  refine ⟨String.ofList tail, String.toList_inj.mp ?_⟩
  simp [same, split]

theorem rootKind?_eq (layout : Layout) (folder : String) :
    layout.rootKind? folder = (layout.decidingRoot? folder).map purpose := by
  unfold rootKind? decidingRoot? roots
  rw [List.cons_append, List.find?_cons]
  cases first : isRoot folder mainRoot with
  | true => rfl
  | false =>
    rw [if_neg Bool.false_ne_true, List.find?_append]
    cases second : testRoots.find? (isRoot folder) with
    | some root =>
      have listed := List.mem_of_find?_eq_some second
      have holds : testRoots.any (isRoot folder) = true :=
        List.any_eq_true.mpr ⟨root, listed, List.find?_some second⟩
      have other : root ≠ mainRoot := by
        intro same
        rw [same] at listed
        exact absurd listed (by decide)
      rw [if_pos holds]
      simp [purpose, other, listed]
    | none =>
      have fails : ¬testRoots.any (isRoot folder) = true := by
        simpa using second
      rw [if_neg fails, Option.none_or]
      cases third : layout.generatedRoots.find? (isRoot folder) with
      | some root =>
        have holds : layout.generatedRoots.any (isRoot folder) = true :=
          List.any_eq_true.mpr ⟨root, List.mem_of_find?_eq_some third, List.find?_some third⟩
        have itself := List.find?_some third
        have other : root ≠ mainRoot := by
          intro same
          rw [same, first] at itself
          cases itself
        have unlisted : root ∉ testRoots := fun listed =>
          List.find?_eq_none.mp second root listed itself
        rw [if_pos holds]
        simp [purpose, other, unlisted]
      | none =>
        have fails : ¬layout.generatedRoots.any (isRoot folder) = true := by
          simpa using third
        rw [if_neg fails]
        rfl

/-- Around the nearest root: the root that decides and what follows the folder. -/
theorem nearestRoot?_eq_some (found : layout.nearestRoot? resource = some (folder, location)) :
    ∃ root rest, layout.decidingRoot? folder = some root ∧ location = purpose root ∧
      resource = folder ++ "/" ++ rest := by
  have ⟨other, member, here⟩ := List.exists_of_findSome?_eq_some found
  have ⟨kind, known, same⟩ := Option.map_eq_some_iff.mp here
  cases same
  rw [rootKind?_eq] at known
  have ⟨root, decides, is⟩ := Option.map_eq_some_iff.mp known
  have ⟨rest, split⟩ := split_of_mem_folders member
  exact ⟨root, rest, decides, is.symm, split⟩

theorem le_foldl_max (sizes : List Nat) (start bound : Nat) :
    sizes.foldl max start ≤ bound ↔ start ≤ bound ∧ ∀ size ∈ sizes, size ≤ bound := by
  induction sizes generalizing start with
  | nil => simp
  | cons size rest ih =>
    rw [List.foldl_cons, ih, List.forall_mem_cons, Nat.max_le]
    exact and_assoc

theorem mem_foldl_max (sizes : List Nat) (start : Nat) : sizes.foldl max start ∈ start :: sizes := by
  induction sizes generalizing start with
  | nil => exact List.mem_singleton_self start
  | cons size rest ih =>
    rw [List.foldl_cons]
    rcases List.mem_cons.mp (ih (max start size)) with largest | later
    · rw [largest]
      rcases Nat.le_total start size with order | order
      · rw [Nat.max_eq_right order]
        exact List.mem_cons_of_mem start List.mem_cons_self
      · rw [Nat.max_eq_left order]
        exact List.mem_cons_self
    · exact List.mem_cons_of_mem start (List.mem_cons_of_mem size later)

theorem rootLength_le_iff {bound : Nat} : layout.rootLength folder ≤ bound ↔
    ∀ root ∈ layout.roots, isRoot folder root = true → root.utf8ByteSize ≤ bound := by
  have same : layout.rootLength folder =
      ((layout.roots.filter (isRoot folder)).map String.utf8ByteSize).foldl max 0 := rfl
  rw [same, le_foldl_max]
  simp only [Nat.zero_le, true_and, List.forall_mem_map, List.mem_filter, and_imp]

theorem exists_rootLength_eq (decides : layout.decidingRoot? folder = some root) :
    ∃ longest ∈ layout.roots, isRoot folder longest = true ∧
      layout.rootLength folder = longest.utf8ByteSize := by
  have listed := List.mem_of_find?_eq_some decides
  have itself : isRoot folder root = true := List.find?_some decides
  have among := mem_foldl_max ((layout.roots.filter (isRoot folder)).map String.utf8ByteSize) 0
  rcases List.mem_cons.mp among with none | some
  · have empty : layout.rootLength folder = 0 := none
    have upper := rootLength_le_iff.mp (Nat.le_of_eq empty) root listed itself
    exact ⟨root, listed, itself, by omega⟩
  · have ⟨longest, member, size⟩ := List.mem_map.mp some
    have ⟨taken, is⟩ := List.mem_filter.mp member
    exact ⟨longest, taken, is, size.symm⟩

/-- The front of a folder is found as the module exactly if what is cut off is as long as the rest of
the folder. -/
theorem moduleOf?_eq_front_iff {front tail rest : String}
    (found : layout.nearestRoot? resource = some (folder, location))
    (split : resource = folder ++ "/" ++ rest) (whole : folder = front ++ tail) :
    layout.moduleOf? resource = some front ↔ layout.rootLength folder = tail.utf8ByteSize := by
  have size : folder.utf8ByteSize = front.utf8ByteSize + tail.utf8ByteSize := by
    rw [whole, String.utf8ByteSize_append]
  have taken : layout.moduleOf? resource =
      if layout.rootLength folder ≤ folder.utf8ByteSize then
        slice? resource 0 (folder.utf8ByteSize - layout.rootLength folder)
      else none := by
    rw [moduleOf?, found]
  rw [taken]
  constructor
  · intro cut
    have ⟨fits, cut⟩ := Option.ite_none_right_eq_some.mp cut
    have := size_of_slice? cut
    omega
  · intro fit
    have fits : layout.rootLength folder ≤ folder.utf8ByteSize := by omega
    have place : folder.utf8ByteSize - layout.rootLength folder = front.utf8ByteSize := by omega
    rw [if_pos fits, place, split, whole, String.append_assoc, String.append_assoc]
    exact slice?_front ..

/-- A resource that no root encloses belongs to the project as a whole. Around any other the module
is found as the place of the root that decides what the resource is for, so that module, root and
rest make up the resource, exactly if no root that the folder is, as it is written, is longer than the
deciding one without the slashes around it. -/
theorem module_holds_resource_iff (layout : Layout) (resource : String) :
    (layout.nearestRoot? resource = none ∧ layout.moduleOf? resource = some "") ∨
    ∃ folder root rest, layout.nearestRoot? resource = some (folder, layout.classify resource) ∧
      layout.decidingRoot? folder = some root ∧ layout.classify resource = purpose root ∧
      resource = folder ++ "/" ++ rest ∧
      ((∃ front, layout.moduleOf? resource = some front ∧ IsFront front ∧
          resource = front ++ trimmedRoot root ++ "/" ++ rest) ↔
        ∀ other ∈ layout.roots, isRoot folder other = true →
          other.utf8ByteSize ≤ (trimmedRoot root).utf8ByteSize) := by
  cases found : layout.nearestRoot? resource with
  | none => exact .inl ⟨rfl, by rw [moduleOf?, found]⟩
  | some nearest =>
    have ⟨folder, location⟩ := nearest
    have ⟨root, rest, decides, kind, split⟩ := nearestRoot?_eq_some found
    have classified : layout.classify resource = location := by rw [classify, found]
    have itself : isRoot folder root = true := List.find?_some decides
    have written : root.utf8ByteSize ≤ layout.rootLength folder :=
      rootLength_le_iff.mp (Nat.le_refl _) root (List.mem_of_find?_eq_some decides) itself
    have longest := Nat.le_trans (size_trimmedRoot root) written
    refine .inr ⟨folder, root, rest, by rw [classified], decides, classified.trans kind, split, ?_⟩
    rw [← rootLength_le_iff]
    constructor
    · intro ⟨front, located, _, parted⟩
      have whole : folder = front ++ trimmedRoot root := by
        have same := congrArg String.toList (split.symm.trans parted)
        simp only [String.toList_append, List.append_cancel_right_eq] at same
        exact String.toList_inj.mp (same.trans (String.toList_append ..).symm)
      exact Nat.le_of_eq ((moduleOf?_eq_front_iff found split whole).mp located)
    · intro short
      have ⟨front, parted, whole⟩ := isRoot_iff.mp itself
      have fit := Nat.le_antisymm short longest
      exact ⟨front, (moduleOf?_eq_front_iff found split whole).mpr fit, parted, whole ▸ split⟩

/-- With the slashes written around a root the folder is too short to be cut. -/
example : ({ root := "/", generatedRoots := ["/gen/"] } : Layout).moduleOf? "gen/A.java" = none := by
  decide +kernel

/-- A root that ends another one moves the module. -/
example :
    ({ root := "/", generatedRoots := ["core/src/main/java"] } : Layout).moduleOf?
      "core/src/main/java/A.java" = some "" := by
  decide +kernel

/-- If every root is written without slashes around it, the module is always found, and it is the
place of one of the roots that the folder is. -/
theorem exists_moduleOf? (layout : Layout) (resource : String)
    (trimmed : ∀ root ∈ layout.generatedRoots, trimmedRoot root = root) :
    ∃ front, layout.moduleOf? resource = some front ∧ IsFront front ∧
      (layout.nearestRoot? resource = none ∨ ∃ root ∈ layout.roots, ∃ rest,
        resource = front ++ root ++ "/" ++ rest) := by
  have plain : ∀ root ∈ layout.roots, trimmedRoot root = root := by
    have known : ∀ root ∈ mainRoot :: testRoots, trimmedRoot root = root := by decide
    exact fun root member => (List.mem_append.mp member).elim (known root) (trimmed root)
  cases found : layout.nearestRoot? resource with
  | none => exact ⟨"", by rw [moduleOf?, found], .inl rfl, .inl rfl⟩
  | some nearest =>
    have ⟨folder, location⟩ := nearest
    have ⟨root, rest, decides, _, split⟩ := nearestRoot?_eq_some found
    have ⟨longest, member, is, size⟩ := exists_rootLength_eq decides
    have ⟨front, parted, whole⟩ := isRoot_iff.mp is
    rw [plain longest member] at whole
    exact ⟨front, (moduleOf?_eq_front_iff found split whole).mpr size, parted,
      .inr ⟨longest, member, rest, whole ▸ split⟩⟩

end Layout

end SpringLint
