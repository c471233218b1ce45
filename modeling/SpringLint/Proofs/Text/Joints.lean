import Mathlib.Data.List.Chain
import SpringLint.Proofs.Text.Blanks
import SpringLint.Proofs.Text.Splice

/-! Where a text with cuts in it brings characters together that stood apart. -/

namespace SpringLint

namespace Glyph

/-- A character stood right before another already, in the source or in one piece of added text. -/
def Joins : Glyph → Glyph → Prop
  | .copied x c, .copied y _ => y = x + c.utf8Size
  | .added place i _, .added other j _ => other = place ∧ j = i + 1
  | _, _ => False

/-- Wherever characters of a class come together, they stood together before. -/
def Unglued (word : Char → Bool) (glyphs : List Glyph) : Prop :=
  glyphs.IsChain fun a b => word a.char = true → word b.char = true → a.Joins b

end Glyph

namespace Text

/-- The character that ends at an offset. -/
def charBefore? (s : String) (pos : Nat) : Option Char :=
  (range s 0 pos).getLast?.map Prod.snd

/-- The character that starts at an offset. -/
def charAt? (s : String) (pos : Nat) : Option Char :=
  (range s pos s.utf8ByteSize).head?.map Prod.snd

end Text

/-- The characters that a cut brings together are not both of a class. -/
@[irreducible]
def Cut.Clear (word : Char → Bool) (s : String) (cut : Cut) : Prop :=
  match cut.text.toList.head?, cut.text.toList.getLast? with
  | some first, some last =>
    ¬((Text.charBefore? s cut.start).any word = true ∧ word first = true) ∧
      ¬(word last = true ∧ (Text.charAt? s cut.stop).any word = true)
  | _, _ =>
    ¬((Text.charBefore? s cut.start).any word = true ∧ (Text.charAt? s cut.stop).any word = true)

namespace Text

open Javadoc (byteLength)

variable {s : String} {start stop : Nat}

theorem range_ne_nil (first : Boundary s start) (second : Boundary s stop) (ordered : start < stop) :
    range s start stop ≠ [] := by
  obtain ⟨before, cs, after, split, rfl, rfl⟩ := first.cut second (Nat.le_of_lt ordered)
  rw [range_of_append split]
  cases cs with
  | nil => exact absurd ordered (Nat.lt_irrefl _)
  | cons c cs => exact List.cons_ne_nil _ _

theorem exists_charAt (first : Boundary s start) (inside : start < s.utf8ByteSize) :
    ∃ c, (start, c) ∈ placed 0 s.toList ∧ charAt? s start = some c := by
  obtain ⟨before, cs, split, rfl⟩ := first
  have size : s.utf8ByteSize = byteLength before + byteLength cs := by
    rw [← Javadoc.byteLength_toList, split, Javadoc.byteLength_append]
  cases cs with
  | nil =>
    rw [size] at inside
    exact absurd inside (Nat.lt_irrefl _)
  | cons c rest =>
    have whole : s.toList = before ++ (c :: rest) ++ [] := by rw [split, List.append_nil]
    have found := range_of_append whole
    rw [← size] at found
    refine ⟨c, ?_, ?_⟩
    · rw [split, placed_append, Nat.zero_add, placed]
      exact List.mem_append_right _ List.mem_cons_self
    · unfold charAt?
      rw [found]
      rfl

theorem skipBlankBytes_le_of_charAt {pos limit : Nat} (boundary : Boundary s pos) (bounded : pos ≤ limit)
    (place : Boundary s start) (behind : pos ≤ start) (inside : start < s.utf8ByteSize)
    (solid : ∀ c, charAt? s start = some c → isSpacing c = false) :
    skipBlankBytes s pos limit ≤ start := by
  apply Nat.le_of_not_lt
  intro past
  obtain ⟨c, member, found⟩ := exists_charAt place inside
  have skipped : (start, c) ∈ range s pos (skipBlankBytes s pos limit) :=
    mem_range_iff.mpr ⟨member, behind, past⟩
  have spacing := isSpacing_of_skipped boundary bounded skipped
  rw [solid c found] at spacing
  cases spacing

theorem getLast?_range (first : Boundary s start) (second : Boundary s stop)
    (ordered : start < stop) : (range s start stop).getLast? = (range s 0 stop).getLast? := by
  have joined := range_append s (Nat.zero_le start) (Nat.le_of_lt ordered)
  rw [← joined, List.getLast?_append_of_ne_nil _ (range_ne_nil first second ordered)]

theorem head?_range (first : Boundary s start) (second : Boundary s stop)
    (ordered : start < stop) :
    (range s start stop).head? = (range s start s.utf8ByteSize).head? := by
  have joined := range_append s (Nat.le_of_lt ordered) second.le
  rw [← joined, List.head?_append_of_ne_nil _ (range_ne_nil first second ordered)]

theorem isChain_placed (pos : Nat) (cs : List Char) :
    ((placed pos cs).map fun x => Glyph.copied x.1 x.2).IsChain Glyph.Joins := by
  induction cs generalizing pos with
  | nil => exact .nil
  | cons c cs ih =>
    have rest := ih (pos + c.utf8Size)
    cases cs with
    | nil => exact .singleton _
    | cons d cs => exact .cons_cons rfl rest

theorem isChain_copied (first : Boundary s start) (second : Boundary s stop)
    (ordered : start ≤ stop) : (copied s start stop).IsChain Glyph.Joins := by
  obtain ⟨before, cs, after, split, rfl, rfl⟩ := first.cut second ordered
  unfold copied
  rw [range_of_append split]
  exact isChain_placed _ cs

theorem isChain_addedAt (place index : Nat) (cs : List Char) :
    (addedAt place index cs).IsChain Glyph.Joins := by
  induction cs generalizing index with
  | nil => exact .nil
  | cons c cs ih =>
    have rest := ih (index + 1)
    cases cs with
    | nil => exact .singleton _
    | cons d cs => exact .cons_cons ⟨rfl, rfl⟩ rest

theorem unglued_of_isChain (word : Char → Bool) {glyphs : List Glyph} (chain : glyphs.IsChain Glyph.Joins) :
    Glyph.Unglued word glyphs :=
  chain.imp fun _ _ joins _ _ => joins

theorem getLast?_copied :
    (copied s start stop).getLast? =
      (range s start stop).getLast?.map fun x => Glyph.copied x.1 x.2 := by
  unfold copied
  rw [List.getLast?_map]

theorem head?_copied :
    (copied s start stop).head? = (range s start stop).head?.map fun x => Glyph.copied x.1 x.2 := by
  unfold copied
  rw [List.head?_map]

theorem end_of_getLast?_range (first : Boundary s start) (second : Boundary s stop)
    (ordered : start ≤ stop) {x : Nat × Char} (last : (range s start stop).getLast? = some x) :
    x.1 + x.2.utf8Size = stop := by
  obtain ⟨before, cs, after, split, rfl, rfl⟩ := first.cut second ordered
  rw [range_of_append split] at last
  rcases List.eq_nil_or_concat cs with rfl | ⟨init, c, rfl⟩
  · cases last
  · rw [List.concat_eq_append, placed_append, placed, placed, List.getLast?_concat] at last
    obtain rfl := Option.some.inj last
    rw [List.concat_eq_append, Javadoc.byteLength_append, Javadoc.byteLength_cons, Nat.add_assoc]
    rfl

theorem boundary_size (s : String) : Boundary s s.utf8ByteSize :=
  ⟨s.toList, [], (List.append_nil _).symm, Javadoc.byteLength_toList s⟩

theorem joint_iff (word : Char → Bool) {left right : Option Glyph} (apart : ∀ x ∈ left, ∀ y ∈ right, ¬x.Joins y) :
    (∀ x ∈ left, ∀ y ∈ right, word x.char = true → word y.char = true → x.Joins y) ↔
      ¬((left.map Glyph.char).any word = true ∧ (right.map Glyph.char).any word = true) := by
  cases left with
  | none => simp
  | some x =>
    cases right with
    | none => simp
    | some y =>
      have never := apart x rfl y rfl
      simp [never]

theorem mem_addedAt {place index : Nat} {cs : List Char} {x : Glyph} (member : x ∈ addedAt place index cs) :
    ∃ i c, x = .added place i c := by
  induction cs generalizing index with
  | nil => cases member
  | cons c cs ih =>
    rcases List.mem_cons.mp member with rfl | later
    · exact ⟨index, c, rfl⟩
    · exact ih later

theorem mem_copied {x : Glyph} (member : x ∈ copied s start stop) :
    ∃ place ∈ range s start stop, x = .copied place.1 place.2 := by
  obtain ⟨place, among, rfl⟩ := List.mem_map.mp member
  exact ⟨place, among, rfl⟩

variable {cuts : List Cut}

theorem head?_spliced (place : Boundary s start) (ends : ∀ cut ∈ cuts, Boundary s cut.start)
    (ahead : ∀ cut ∈ cuts, start < cut.start) :
    (spliced s start s.utf8ByteSize cuts).head? = (copied s start s.utf8ByteSize).head? := by
  cases cuts with
  | nil => rfl
  | cons cut rest =>
    have first := ends cut List.mem_cons_self
    have less := ahead cut List.mem_cons_self
    have filled : copied s start cut.start ≠ [] := by
      intro empty
      exact range_ne_nil place first less (List.map_eq_nil_iff.mp empty)
    rw [spliced, List.append_assoc, List.head?_append_of_ne_nil _ filled, head?_copied, head?_copied,
      head?_range place first less]

theorem map_char_getLast?_copied (place : Boundary s start) (first : Boundary s stop)
    (ahead : start = 0 ∨ start < stop) :
    (copied s start stop).getLast?.map Glyph.char = charBefore? s stop := by
  have same : (range s start stop).getLast? = (range s 0 stop).getLast? := by
    rcases ahead with rfl | less
    · rfl
    · exact getLast?_range place first less
  unfold charBefore?
  rw [getLast?_copied, same, Option.map_map]
  rfl

theorem map_char_head?_copied :
    (copied s start s.utf8ByteSize).head?.map Glyph.char = charAt? s start := by
  unfold charAt?
  rw [head?_copied, Option.map_map]
  rfl

theorem map_char_glyphs (cut : Cut) : cut.glyphs.map Glyph.char = cut.text.toList :=
  map_char_addedAt ..

theorem mem_glyphs {cut : Cut} {x : Glyph} (member : x ∈ cut.glyphs) :
    ∃ i c, x = .added cut.start i c :=
  mem_addedAt member

theorem apart_copied_glyphs (s : String) (start stop : Nat) (cut : Cut) :
    ∀ x ∈ (copied s start stop).getLast?, ∀ y ∈ cut.glyphs.head?, ¬x.Joins y := by
  intro x last y head
  obtain ⟨a, -, rfl⟩ := mem_copied (List.mem_of_getLast? last)
  obtain ⟨i, d, rfl⟩ := mem_glyphs (List.mem_of_head? head)
  exact id

theorem apart_glyphs_copied (s : String) (start stop : Nat) (cut : Cut) :
    ∀ x ∈ cut.glyphs.getLast?, ∀ y ∈ (copied s start stop).head?, ¬x.Joins y := by
  intro x last y head
  obtain ⟨a, -, rfl⟩ := mem_copied (List.mem_of_head? head)
  obtain ⟨i, d, rfl⟩ := mem_glyphs (List.mem_of_getLast? last)
  exact id

theorem apart_copied_copied {first last : Nat} (place : Boundary s start) (opens : Boundary s first)
    (behind : start ≤ first) (real : first < last) :
    ∀ x ∈ (copied s start first).getLast?, ∀ y ∈ (copied s last stop).head?, ¬x.Joins y := by
  intro x before y after
  rw [getLast?_copied] at before
  rw [head?_copied] at after
  obtain ⟨a, found, rfl⟩ := Option.map_eq_some_iff.mp before
  obtain ⟨b, other, rfl⟩ := Option.map_eq_some_iff.mp after
  have ending := end_of_getLast?_range place opens behind found
  have upper := (mem_range_iff.mp (List.mem_of_head? other)).2.1
  intro joins
  have : b.1 = a.1 + a.2.utf8Size := joins
  omega

/-- What a cut brings together: the text ahead of it with its own text, and that with the text behind
it. -/
theorem clear_iff (word : Char → Bool) {cut : Cut} (place : Boundary s start) (first : Boundary s cut.start)
    (behind : start ≤ cut.start) (ahead : start = 0 ∨ start < cut.start)
    (real : cut.text = "" → cut.start < cut.stop) :
    ((∀ x ∈ (copied s start cut.start).getLast?, ∀ y ∈ cut.glyphs.head?,
        word x.char = true → word y.char = true → x.Joins y) ∧
      ∀ x ∈ (copied s start cut.start ++ cut.glyphs).getLast?,
        ∀ y ∈ (copied s cut.stop s.utf8ByteSize).head?,
          word x.char = true → word y.char = true → x.Joins y) ↔ cut.Clear word s := by
  have before := map_char_getLast?_copied place first ahead
  have after : (copied s cut.stop s.utf8ByteSize).head?.map Glyph.char = charAt? s cut.stop :=
    map_char_head?_copied
  have letters := map_char_glyphs cut
  cases shown : cut.text.toList with
  | nil =>
    have none : cut.glyphs = [] := by
      rw [shown] at letters
      exact List.map_eq_nil_iff.mp letters
    have less := real (String.toList_eq_nil_iff.mp shown)
    have apart : ∀ x ∈ (copied s start cut.start).getLast?,
        ∀ y ∈ (copied s cut.stop s.utf8ByteSize).head?, ¬x.Joins y :=
      apart_copied_copied place first behind less
    have joint := joint_iff word apart
    rw [before, after] at joint
    unfold Cut.Clear
    simp only [none, shown, List.head?_nil, List.getLast?_nil, List.append_nil, Option.mem_def,
      reduceCtorEq, false_implies, implies_true, true_and]
    exact joint
  | cons c rest =>
    have filled : cut.glyphs ≠ [] := by
      intro none
      rw [none, shown] at letters
      cases letters
    have left := joint_iff word (apart_copied_glyphs s start cut.start cut)
    have right := joint_iff word (apart_glyphs_copied s cut.stop s.utf8ByteSize cut)
    rw [before, ← List.head?_map, letters] at left
    rw [after, ← List.getLast?_map, letters] at right
    rw [List.getLast?_append_of_ne_nil _ filled, left, right]
    unfold Cut.Clear
    rw [shown]
    simp only [List.head?_cons, List.getLast?_cons, Option.any_some]

theorem unglued_spliced_iff (word : Char → Bool) (place : Boundary s start)
    (ends : ∀ cut ∈ cuts, Boundary s cut.start ∧ Boundary s cut.stop)
    (real : ∀ cut ∈ cuts, cut.text = "" → cut.start < cut.stop)
    (behind : ∀ cut ∈ cuts, start ≤ cut.start) (ahead : start = 0 ∨ ∀ cut ∈ cuts, start < cut.start)
    (apart : cuts.Pairwise fun c d => c.stop < d.start) :
    Glyph.Unglued word (spliced s start s.utf8ByteSize cuts) ↔ ∀ cut ∈ cuts, cut.Clear word s := by
  induction cuts generalizing start with
  | nil =>
    have whole := isChain_copied place (boundary_size s) place.le
    constructor
    · intro _ cut member
      cases member
    · intro _
      exact unglued_of_isChain word whole
  | cons cut rest ih =>
    obtain ⟨first, second⟩ := ends cut List.mem_cons_self
    obtain ⟨later, separate⟩ := List.pairwise_cons.mp apart
    have tail := ih second (fun d member => ends d (List.mem_cons_of_mem _ member))
      (fun d member => real d (List.mem_cons_of_mem _ member))
      (fun d member => Nat.le_of_lt (later d member)) (.inr later) separate
    have left := isChain_copied place first (behind cut List.mem_cons_self)
    have next := head?_spliced second
      (fun d member => (ends d (List.mem_cons_of_mem _ member)).1) later
    have joints := clear_iff word place first (behind cut List.mem_cons_self)
      (ahead.imp id fun all => all cut List.mem_cons_self) (real cut List.mem_cons_self)
    have copies := unglued_of_isChain word left
    have adds := unglued_of_isChain word (isChain_addedAt cut.start 0 cut.text.toList)
    unfold Glyph.Unglued at copies adds tail ⊢
    rw [spliced, List.forall_mem_cons, List.isChain_append, List.isChain_append, next, tail, ← joints]
    constructor
    · rintro ⟨⟨-, -, one⟩, clear, two⟩
      exact ⟨⟨one, two⟩, clear⟩
    · rintro ⟨⟨one, two⟩, clear⟩
      exact ⟨⟨copies, adds, one⟩, clear, two⟩

end Text

end SpringLint
