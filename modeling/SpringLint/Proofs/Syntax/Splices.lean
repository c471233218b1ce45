import Mathlib.Data.List.Perm.Basic
import Mathlib.Data.List.ProdSigma
import SpringLint.Proofs.Syntax.Rebuild
import SpringLint.Proofs.Syntax.Traversal

/-! Splices: the texts and parentheses that edits put into a source, in the order of the tree. -/

namespace SpringLint

theorem flatMap_filter_perm {α κ : Type} [BEq κ] [LawfulBEq κ] {key : α → κ} {keys : List κ}
    {items : List α} (distinct : keys.Nodup) (known : ∀ item ∈ items, key item ∈ keys) :
    (keys.flatMap fun k => items.filter fun item => key item == k).Perm items := by
  induction keys generalizing items with
  | nil =>
    cases items with
    | nil => exact .refl _
    | cons item rest => cases known item List.mem_cons_self
  | cons k keys ih =>
    obtain ⟨fresh, others⟩ := List.nodup_cons.mp distinct
    let rest := items.filter fun item => !(key item == k)
    have later : (keys.flatMap fun other => items.filter fun item => key item == other) =
        keys.flatMap fun other => rest.filter fun item => key item == other := by
      apply List.flatMap_congr
      intro other member
      rw [List.filter_filter]
      apply List.filter_congr
      intro item _
      by_cases same : key item = other
      · have different : key item ≠ k := fun equal => fresh (equal ▸ same ▸ member)
        simp [same, same ▸ different]
      · simp [same]
    have smaller : ∀ item ∈ rest, key item ∈ keys := by
      intro item member
      obtain ⟨among, different⟩ := List.mem_filter.mp member
      exact (List.mem_cons.mp (known item among)).resolve_left (by simpa using different)
    rw [List.flatMap_cons, later]
    exact ((ih others smaller).append_left _).trans (List.filter_append_perm _ items)

theorem flatMap_filter_eq {α β : Type} (p : α → Bool) (f : α → List β) (items : List α) :
    (items.filter p).flatMap f = items.flatMap fun item => if p item then f item else [] := by
  induction items with
  | nil => rfl
  | cons item rest ih =>
    cases holds : p item with
    | true => simp [holds, ih]
    | false => simp [holds, ih]

theorem InRow.of_forall_eq {x : Nat} {cuts : List Cut}
    (same : ∀ cut ∈ cuts, cut.toSpan = ⟨x, x⟩) : InRow x x (cuts.map Cut.toSpan) := by
  induction cuts with
  | nil => exact Nat.le_refl x
  | cons cut rest ih =>
    obtain ⟨here, later⟩ := List.forall_mem_cons.mp same
    rw [List.map_cons, here]
    exact ⟨Nat.le_refl x, Nat.le_refl x, ih later⟩

theorem InRow.flatMap {α : Type} {start stop : Nat} {items : List α} {span : α → Span}
    {cuts : α → List Cut} (row : InRow start stop (items.map span))
    (inside : ∀ item ∈ items,
      InRow (span item).start (span item).stop ((cuts item).map Cut.toSpan)) :
    InRow start stop ((items.flatMap cuts).map Cut.toSpan) := by
  induction items generalizing start with
  | nil => exact row
  | cons item rest ih =>
    obtain ⟨behind, -, later⟩ := row
    obtain ⟨here, others⟩ := List.forall_mem_cons.mp inside
    rw [List.flatMap_cons, List.map_append]
    exact InRow.append_iff.mpr ⟨_, here.widen behind (Nat.le_refl _), ih later others⟩

theorem Text.spliced_flatMap_settled {s : String} {start stop : Nat} {cuts : List Cut}
    (row : InRow start stop (cuts.map Cut.toSpan)) :
    spliced s start stop (cuts.flatMap Cut.settled) = spliced s start stop cuts := by
  induction cuts generalizing start with
  | nil => rfl
  | cons cut rest ih =>
    obtain ⟨behind, proper, later⟩ := row
    rw [List.flatMap_cons, Cut.settled]
    split
    · rename_i trivial
      obtain ⟨empty, silent⟩ := trivial
      have nothing : cut.glyphs = [] := by simp [Cut.glyphs, silent, addedAt]
      have before : InRow start cut.stop (([] : List Cut).map Cut.toSpan) := empty ▸ behind
      have whole : spliced s start stop ([] ++ rest) = _ := spliced_append before later
      rw [List.nil_append, ih (later.widen (Nat.le_trans behind proper) (Nat.le_refl _)), spliced,
        nothing, List.append_nil, empty]
      exact whole
    · rw [List.singleton_append, spliced, spliced, ih later]

inductive Spot where
  /-- Ahead of all that the node holds. -/
  | first
  /-- After all that the node holds. -/
  | last
  /-- Right behind the node. -/
  | behind
  deriving DecidableEq, Repr

namespace Edit

/-- The text that an edit adds, and where. -/
def text? : Edit → Option ((Nat × Spot) × String)
  | .prepend p (.text content) => some ((p, .first), content)
  | .append p (.text content) => some ((p, .last), content)
  | .insertAfter anchor (.text content) => some ((anchor, .behind), content)
  | _ => none

def isSplice : Edit → Bool
  | .parenthesize _ => true
  | edit => edit.text?.isSome

theorem target_of_text? {edit : Edit} {place : Nat × Spot} {content : String}
    (found : edit.text? = some (place, content)) : edit.target = place.1 := by
  unfold text? at found
  split at found
  all_goals cases found
  all_goals rfl

theorem eq_of_text?_behind {edit : Edit} {id : Nat} {content : String}
    (found : edit.text? = some ((id, .behind), content)) : edit = .insertAfter id (.text content) := by
  unfold text? at found
  split at found
  all_goals cases found
  rfl

end Edit

namespace Tree

def offsetOf (t : Tree) : Nat × Spot → Nat
  | (id, .first) => (t.span id).start
  | (id, .last) | (id, .behind) => (t.span id).stop

/-- A text put into the source; nothing goes for it. -/
def splice (t : Tree) (place : Nat × Spot) (content : String) : Cut :=
  { start := t.offsetOf place, stop := t.offsetOf place, text := content }

def textsAt (t : Tree) (edits : List Edit) (place : Nat × Spot) : List Cut :=
  ((edits.filterMap Edit.text?).filter fun added => added.1 == place).map fun added =>
    t.splice added.1 added.2

/-- Whether edits put parentheses around a node, which is a lone parameter then. -/
def wraps (t : Tree) (edits : List Edit) (id : Nat) : Bool :=
  (t.parent id).any (fun p => edits.contains (.parenthesize p)) &&
    (t.node id).field == some "parameters" && t.kind id = .identifier

def parens (t : Tree) (id : Nat) : List Cut :=
  [t.splice (id, .first) "(", t.splice (id, .last) ")"]

/-- Splices in a node, with the parentheses that edits put around it. -/
def enclosed (t : Tree) (edits : List Edit) (id : Nat) (inner : List Cut) : List Cut :=
  if t.wraps edits id then t.splice (id, .first) "(" :: (inner ++ [t.splice (id, .last) ")"])
  else inner

/-- The splices of edits in a node and right behind it, in the order of the tree. Ahead of what a
node holds and right behind a node, a later text comes before an earlier one. -/
def splices (t : Tree) (edits : List Edit) (id : Nat) : List Cut :=
  t.enclosed edits id
      ((t.textsAt edits (id, .first)).reverse ++
        (t.node id).children.attach.flatMap (fun c => t.splices edits c.1) ++
          t.textsAt edits (id, .last)) ++
    (t.textsAt edits (id, .behind)).reverse
termination_by t.size - id
decreasing_by exact child_decreases c.2

variable {t : Tree} {edits : List Edit}

theorem splices_eq (t : Tree) (edits : List Edit) (id : Nat) :
    t.splices edits id =
      t.enclosed edits id
          ((t.textsAt edits (id, .first)).reverse ++ (t.node id).children.flatMap (t.splices edits) ++
            t.textsAt edits (id, .last)) ++
        (t.textsAt edits (id, .behind)).reverse := by
  rw [splices, List.flatMap_subtype (g := t.splices edits) (fun _ _ => rfl), List.unattach_attach]

theorem span_of_mem_textsAt {place : Nat × Spot} {cut : Cut} (member : cut ∈ t.textsAt edits place) :
    cut.toSpan = ⟨t.offsetOf place, t.offsetOf place⟩ := by
  obtain ⟨added, found, rfl⟩ := List.mem_map.mp member
  obtain ⟨-, here⟩ := List.mem_filter.mp found
  rw [beq_iff_eq.mp here]
  rfl

theorem inRow_splices (spaced : t.Spaced) (edits : List Edit) (id : Nat) :
    InRow (t.span id).start (t.span id).stop ((t.splices edits id).map Cut.toSpan) := by
  induction id using down_induction (t := t) with
  | step id ih =>
    have inner := (spaced id).flatMap ih
    have texts (spot : Spot) {cuts : List Cut} (same : cuts ⊆ t.textsAt edits (id, spot)) :
        InRow (t.offsetOf (id, spot)) (t.offsetOf (id, spot)) (cuts.map Cut.toSpan) :=
      .of_forall_eq fun _ member => span_of_mem_textsAt (same member)
    have first := texts .first (List.reverse_subset.mpr (List.Subset.refl _))
    have last := texts .last (List.Subset.refl _)
    have behind := texts .behind (List.reverse_subset.mpr (List.Subset.refl _))
    have held : InRow (t.span id).start (t.span id).stop
        (((t.textsAt edits (id, .first)).reverse ++ (t.node id).children.flatMap (t.splices edits) ++
          t.textsAt edits (id, .last)).map Cut.toSpan) := by
      rw [List.map_append, List.map_append, InRow.append_iff]
      exact ⟨_, InRow.append_iff.mpr ⟨_, first, inner⟩, last⟩
    rw [splices_eq, List.map_append, InRow.append_iff]
    refine ⟨_, ?_, behind⟩
    unfold enclosed
    split
    · refine ⟨Nat.le_refl _, Nat.le_refl _, ?_⟩
      rw [List.map_append, InRow.append_iff]
      exact ⟨_, held, Nat.le_refl _, Nat.le_refl _, Nat.le_refl _⟩
    · exact held

def splicesOf (t : Tree) (edits : List Edit) (id : Nat) : List Cut :=
  (if t.wraps edits id then t.parens id else []) ++
    [Spot.first, .last, .behind].flatMap fun spot => t.textsAt edits (id, spot)

theorem splices_perm_descendants (untouched : t.Untouched) (edits : List Edit) (id : Nat) :
    (t.splices edits id).Perm ((t.descendants id).flatMap (t.splicesOf edits)) := by
  induction id using down_induction (t := t) with
  | step id ih =>
    have inner := List.Perm.flatMap_left (t.node id).children ih
    rw [splices_eq, descendants_eq, children_of_untouched untouched, List.flatMap_cons,
      List.flatMap_assoc, List.perm_iff_count]
    intro cut
    have count := List.perm_iff_count.mp inner cut
    have own : t.splicesOf edits id = _ := rfl
    rw [own, splicesOf, enclosed, parens]
    split
    · simp only [List.count_append, List.count_reverse, List.count_cons, List.count_nil, count,
        List.flatMap_cons, List.flatMap_nil]
      omega
    · simp only [List.count_append, List.count_reverse, List.count_nil, count, List.flatMap_cons,
        List.flatMap_nil]
      omega

/-- Every text that an edit adds is among the splices once, every parameter that gets parentheses has
its pair, and there is nothing else. -/
theorem splices_perm (attached : t.Attached) (untouched : t.Untouched)
    (inside : ∀ edit ∈ edits, edit.target < t.size) :
    (t.splices edits root).Perm
      ((edits.filterMap Edit.text?).map (fun added => t.splice added.1 added.2) ++
        ((List.range t.size).filter (t.wraps edits)).flatMap t.parens) := by
  let places := (List.range t.size).product [Spot.first, .last, .behind]
  have distinct : places.Nodup := List.nodup_range.product (by decide)
  have known : ∀ added ∈ edits.filterMap Edit.text?, added.1 ∈ places := by
    intro added member
    obtain ⟨edit, among, found⟩ := List.mem_filterMap.mp member
    have target := inside edit among
    rw [Edit.target_of_text? found] at target
    obtain ⟨⟨node, spot⟩, content⟩ := added
    exact List.mem_product.mpr ⟨List.mem_range.mpr target, by cases spot <;> decide⟩
  have texts : ((List.range t.size).flatMap fun id =>
      [Spot.first, .last, .behind].flatMap fun spot => t.textsAt edits (id, spot)).Perm
        ((edits.filterMap Edit.text?).map fun added => t.splice added.1 added.2) := by
    have all := (flatMap_filter_perm distinct known).map fun added => t.splice added.1 added.2
    simp only [places, List.product, List.map_flatMap, List.flatMap_assoc, List.flatMap_map] at all
    exact all
  have apart : ((List.range t.size).flatMap (t.splicesOf edits)).Perm
      (((List.range t.size).flatMap fun id => [Spot.first, .last, .behind].flatMap fun spot =>
          t.textsAt edits (id, spot)) ++
        ((List.range t.size).filter (t.wraps edits)).flatMap t.parens) := by
    rw [flatMap_filter_eq]
    exact (List.flatMap_append_perm ..).symm.trans List.perm_append_comm
  have walked := splices_perm_descendants untouched edits root
  have counted := (descendants_root_perm attached untouched).flatMap_right (t.splicesOf edits)
  exact (walked.trans counted).trans (apart.trans (texts.append_right _))

end Tree

end SpringLint
