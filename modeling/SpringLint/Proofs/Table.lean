import SpringLint.Table

/-! The order of a table's entries. Two tables in order that answer alike are equal. -/

namespace SpringLint.Table

variable {α : Type} {t u : Table α} {name : String} {value : α}

/-- The entries stand in ascending order of their names, one entry a name. -/
def Ascending (t : Table α) : Prop :=
  t.entries.Pairwise fun a b => a.1 < b.1

instance (t : Table α) : Decidable t.Ascending :=
  inferInstanceAs (Decidable (t.entries.Pairwise fun a b => a.1 < b.1))

theorem ascending_empty : (empty : Table α).Ascending :=
  List.Pairwise.nil

theorem mem_insertEntry {entry : String × α} {entries : List (String × α)}
    (member : entry ∈ insertEntry name value entries) :
    entry = (name, value) ∨ entry ∈ entries := by
  induction entries with
  | nil => simpa [insertEntry] using member
  | cons head rest ih =>
    simp only [insertEntry] at member
    grind

theorem Ascending.insert (sorted : t.Ascending) (name : String) (value : α) :
    (t.insert name value).Ascending := by
  obtain ⟨entries⟩ := t
  simp only [Ascending, Table.insert] at sorted ⊢
  induction entries with
  | nil => simp [insertEntry]
  | cons head rest ih =>
    obtain ⟨above, later⟩ := List.pairwise_cons.mp sorted
    simp only [insertEntry]
    split
    · rename_i same
      exact List.pairwise_cons.mpr ⟨fun b member => same ▸ above b member, later⟩
    · rename_i other
      split
      · rename_i before
        refine List.pairwise_cons.mpr ⟨fun b member => ?_, sorted⟩
        rcases List.mem_cons.mp member with rfl | member
        · exact before
        · exact String.lt_trans before (above b member)
      · rename_i behind
        refine List.pairwise_cons.mpr ⟨fun b member => ?_, ih later⟩
        rcases mem_insertEntry member with rfl | member
        · exact Std.lt_of_le_of_ne (String.not_lt.mp behind) (Ne.symm other)
        · exact above b member

theorem Ascending.erase (sorted : t.Ascending) (name : String) : (t.erase name).Ascending :=
  List.Pairwise.filter _ sorted

theorem Ascending.ofList (pairs : List (String × α)) : (ofList pairs).Ascending := by
  have grown : ∀ t : Table α, t.Ascending →
      (pairs.foldl (fun t pair => t.insert pair.1 pair.2) t).Ascending := by
    induction pairs with
    | nil => exact fun t sorted => sorted
    | cons pair rest ih => exact fun t sorted => ih _ (sorted.insert pair.1 pair.2)
  exact grown empty ascending_empty

theorem mem_of_get? (found : t.get? name = some value) : (name, value) ∈ t.entries := by
  obtain ⟨before, after, split, -⟩ := List.lookup_eq_some_iff.mp found
  rw [split]
  exact List.mem_append_right _ (List.mem_cons_self ..)

theorem Ascending.get?_of_mem (sorted : t.Ascending) (member : (name, value) ∈ t.entries) :
    t.get? name = some value := by
  obtain ⟨before, after, split⟩ := List.append_of_mem member
  refine List.lookup_eq_some_iff.mpr ⟨before, after, split, fun entry early => ?_⟩
  have ahead : entry.1 < name := by
    simp only [Ascending, split] at sorted
    exact (List.pairwise_append.mp sorted).2.2 entry early _ (List.mem_cons_self ..)
  refine bne_iff_ne.mpr fun same => ?_
  rw [← same] at ahead
  exact String.lt_irrefl _ ahead

theorem Ascending.mem_iff (sorted : t.Ascending) :
    (name, value) ∈ t.entries ↔ t.get? name = some value :=
  ⟨sorted.get?_of_mem, mem_of_get?⟩

theorem mem_names_iff : name ∈ t.names ↔ (t.get? name).isSome := by
  rw [get?, List.lookup_isSome_iff]
  simp only [names, List.mem_map, beq_iff_eq]
  exact exists_congr fun entry => and_congr_right fun _ => eq_comm

theorem Ascending.names (sorted : t.Ascending) : t.names.Pairwise (· < ·) :=
  List.pairwise_map.mpr sorted

theorem ne_of_lt {a b : String} (before : a < b) : a ≠ b := by
  rintro rfl
  exact String.lt_irrefl a before

theorem Ascending.nodup_names (sorted : t.Ascending) : t.names.Nodup :=
  sorted.names.imp ne_of_lt

theorem Ascending.ext (left : t.Ascending) (right : u.Ascending)
    (alike : ∀ name, t.get? name = u.get? name) : t = u := by
  have nodup : ∀ {v : Table α}, v.Ascending → v.entries.Nodup := fun sorted =>
    List.Pairwise.imp (fun before => mt (congrArg Prod.fst) (ne_of_lt before)) sorted
  have members : ∀ entry, entry ∈ t.entries ↔ entry ∈ u.entries := fun (name, value) => by
    rw [left.mem_iff, alike, right.mem_iff]
  have entries : t.entries = u.entries := by
    refine List.Perm.eq_of_pairwise (fun a b _ _ before after => ?_) left right
      ((List.perm_ext_iff_of_nodup (nodup left) (nodup right)).mpr members)
    exact absurd after (String.lt_asymm before)
  cases t
  cases u
  exact congrArg mk entries

theorem get?_foldl_insert (pairs : List (String × α)) (t : Table α) (name : String) :
    (pairs.foldl (fun t pair => t.insert pair.1 pair.2) t).get? name =
      (pairs.reverse.lookup name).or (t.get? name) := by
  induction pairs generalizing t with
  | nil => rfl
  | cons pair rest ih =>
    obtain ⟨first, value⟩ := pair
    rw [List.foldl_cons, ih, get?_insert, List.reverse_cons, List.lookup_append]
    cases rest.reverse.lookup name with
    | some _ => rfl
    | none =>
      by_cases same : name = first
      · simp [same]
      · simp [same, List.lookup_cons, beq_eq_false_iff_ne.mpr same]

theorem mem_names_ofList {pairs : List (String × α)} :
    name ∈ (ofList pairs).names ↔ name ∈ pairs.map (·.1) := by
  have grown : ∀ t : Table α,
      name ∈ (pairs.foldl (fun t pair => t.insert pair.1 pair.2) t).names ↔
        name ∈ t.names ∨ name ∈ pairs.map (·.1) := by
    induction pairs with
    | nil => simp
    | cons pair rest ih =>
      intro t
      rw [List.foldl_cons, ih, mem_names_iff, mem_names_iff, get?_insert]
      by_cases same : name = pair.1
      · simp [same]
      · simp [same]
  refine (grown empty).trans ?_
  simp [empty, names]

end SpringLint.Table
