import SpringLint.Project.Factories
import SpringLint.Proofs.Table
import SpringLint.Proofs.Text.Affixes
import SpringLint.Proofs.Text.Properties

/-! Manifests that list factory classes are read back from every way to write them. -/

namespace SpringLint

namespace Factories

open Text Properties

/-- A value that a manifest can list: not empty, not parted by a comma, and without blanks around it. -/
structure ProperValue (value : String) : Prop where
  filled : value ≠ ""
  whole : ',' ∉ value.toList
  starts : ∀ c ∈ value.toList.head?, isBlank c = false
  ends : ∀ c ∈ value.toList.getLast?, isBlank c = false

theorem all_not_isBlank {end? : Option Char} :
    (end?.all fun c => !isBlank c) = true ↔ ∀ c ∈ end?, isBlank c = false := by
  cases end? <;> simp

instance (value : String) : Decidable (ProperValue value) :=
  decidable_of_iff
    (value ≠ "" ∧ ',' ∉ value.toList ∧ (value.toList.head?.all fun c => !isBlank c) = true ∧
      (value.toList.getLast?.all fun c => !isBlank c) = true)
    ⟨fun ⟨filled, whole, starts, ends⟩ =>
        ⟨filled, whole, all_not_isBlank.mp starts, all_not_isBlank.mp ends⟩,
      fun proper =>
        ⟨proper.filled, proper.whole, all_not_isBlank.mpr proper.starts, all_not_isBlank.mpr proper.ends⟩⟩

theorem splitValues_joinWith {values : List String} (proper : ∀ value ∈ values, ProperValue value) :
    splitValues (joinWith "," values) = values := by
  by_cases none : values = []
  · rw [none]
    rfl
  have whole : ∀ cs ∈ values.map String.toList, ',' ∉ cs := fun cs listed => by
    have ⟨value, member, same⟩ := List.mem_map.mp listed
    exact same ▸ (proper value member).whole
  have pieces : split ',' (joinWith "," values) = values := by
    calc split ',' (joinWith "," values)
        = (([','].intercalate (values.map String.toList)).splitOn ',').map String.ofList := by
          rw [split, joinWith, String.toList_intercalate, splitList_eq_splitOn]
          rfl
      _ = (values.map String.toList).map String.ofList := by
          rw [List.splitOn_intercalate ',' whole (mt List.map_eq_nil_iff.mp none)]
      _ = values := by
          rw [List.map_map]
          exact (List.map_congr_left fun _ _ => String.ofList_toList).trans (List.map_id values)
  have trimmed : values.map trim = values :=
    (List.map_congr_left fun value member =>
      trim_eq (proper value member).starts (proper value member).ends).trans (List.map_id values)
  rw [splitValues, pieces, trimmed, List.filter_eq_self]
  exact fun value member => bne_iff_ne.mpr (proper value member).filled

/-- A manuscript that lists values under keys, in which a key is never left out ahead of blanks. -/
structure Writes (m : Manuscript) (pairs : List (String × List String)) : Prop where
  pairs_eq : m.pairs = pairs.map fun p => (p.1, joinWith "," p.2)
  signed : ∀ e ∈ m.entries, e.Signed

theorem get_parse {m : Manuscript} {pairs : List (String × List String)}
    (proper : ∀ p ∈ pairs, ∀ value ∈ p.2, ProperValue value) (writes : Writes m pairs) (key : String) :
    (parse m.text).get key = (pairs.reverse.lookup key).getD [] := by
  have read : ((Properties.read m.text).map fun p => (p.1, splitValues p.2)) = pairs := by
    rw [Manuscript.read_text writes.signed, writes.pairs_eq, List.map_map]
    refine (List.map_congr_left fun p member => ?_).trans (List.map_id pairs)
    exact congrArg (p.1, ·) (splitValues_joinWith (proper p member))
  have parsed : parse m.text = ⟨Table.ofList pairs⟩ := by
    rw [← read]
    rfl
  have absent : (Table.empty : Table (List String)).get? key = none := rfl
  rw [get, parsed, Table.ofList, Table.get?_foldl_insert, absent, Option.or_none]

/-- Every list of keys with proper values can be written, and each way to write it is read back: a key
has the values that were written last under it, another one has none. -/
theorem get_parse_written {pairs : List (String × List String)}
    (proper : ∀ p ∈ pairs, ∀ value ∈ p.2, ProperValue value) :
    (∃ m, Writes m pairs) ∧
    ∀ m, Writes m pairs → ∀ key, (parse m.text).get key = (pairs.reverse.lookup key).getD [] := by
  have ⟨m, same, signed⟩ := exists_manuscript (pairs.map fun p => (p.1, joinWith "," p.2))
  exact ⟨⟨m, same, signed⟩, fun _ writes => get_parse proper writes⟩

def visible (c : Char) (plain : c ≠ '\\' ∧ isBlank c = false) (breaks : List Break) : Written where
  breaks := breaks
  spelling := .raw c ⟨plain.1, fun same => absurd plain.2 (by rw [same]; decide)⟩
  fits _ own blank := by
    cases own
    exact absurd (plain.2.symm.trans blank) nofun

def brokenEntry : Properties.Entry where
  key := [visible 'k' (by decide) []]
  separator := .sign [] [] false []
  value := [visible 'a' (by decide) [], visible ',' (by decide) [],
    visible 'b' (by decide) [⟨.lf, [⟨' ', by decide⟩]⟩]]
  inside := List.forall_mem_singleton.mpr fun c own => by cases own; decide
  unmarked w first c own := by cases first; cases own; decide
  apart w first c own := by cases first; cases own; exact ⟨by decide, nofun⟩
  ended w last := by cases last; decide

theorem get_parse_written_broken :
    let m : Manuscript := ⟨[(.entry brokenEntry, .lf)], none⟩
    Writes m [("k", ["a", "b"])] ∧ m.text = "k=a,\\\n b\n" ∧ (parse m.text).get "k" = ["a", "b"] := by
  intro m
  have proper : ∀ p ∈ [("k", ["a", "b"])], ∀ value ∈ p.2, ProperValue value := by decide
  have writes : Writes m [("k", ["a", "b"])] := by
    constructor
    · decide
    · exact List.forall_mem_singleton.mpr nofun
  have found := (get_parse_written proper).2 m writes "k"
  exact ⟨writes, by decide, found.trans (by decide)⟩

/-- Blanks alone do not part a value from a key that is left out, for the blanks ahead of a line are
skipped. -/
def keylessEntry : Properties.Entry where
  key := []
  separator := .blanks ⟨' ', by decide⟩ []
  value := [visible 'v' (by decide) []]
  inside := List.forall_mem_nil _
  unmarked := nofun
  apart w first c own := by cases first; cases own; decide
  ended w last := by cases last; decide

theorem not_get_parse_keyless :
    ¬∀ (m : Manuscript) (pairs : List (String × List String)),
      (∀ p ∈ pairs, ∀ value ∈ p.2, ProperValue value) →
      (m.pairs = pairs.map fun p => (p.1, joinWith "," p.2)) →
      ∀ key, (parse m.text).get key = (pairs.reverse.lookup key).getD [] := by
  intro readBack
  have found := readBack ⟨[], some (.entry keylessEntry)⟩ [("", ["v"])] (by decide) (by decide) ""
  exact absurd found (by decide)

end Factories

end SpringLint
