import SpringLint.Marker.Record
import SpringLint.Proofs.Json.RoundTrip

/-! Markers are read back from their records. -/

namespace SpringLint

namespace Json

theorem wholeItems_iff {items : List Json} : WholeItems items ↔ ∀ item ∈ items, item.Whole := by
  induction items with
  | nil => simp [WholeItems]
  | cons item rest ih => simp [WholeItems, ih]

theorem wholeMembers_iff {members : List (String × Json)} :
    WholeMembers members ↔ ∀ member ∈ members, member.2.Whole := by
  induction members with
  | nil => simp [WholeMembers]
  | cons member rest ih => simp [WholeMembers, ih]

def present (fields : List (String × Option Json)) : List (String × Json) :=
  fields.filterMap fun field => field.2.map fun value => (field.1, value)

theorem present_append (first second : List (String × Option Json)) :
    present (first ++ second) = present first ++ present second :=
  List.filterMap_append

theorem name_of_mem_present {fields : List (String × Option Json)} {member : String × Json}
    (among : member ∈ present fields) : member.1 ∈ fields.map Prod.fst := by
  obtain ⟨field, listed, found⟩ := List.mem_filterMap.mp among
  obtain ⟨value, -, rfl⟩ := Option.map_eq_some_iff.mp found
  exact List.mem_map_of_mem listed

theorem lookup_present {fields : List (String × Option Json)} (once : (fields.map Prod.fst).Nodup)
    (name : String) : (present fields).lookup name = (fields.lookup name).join := by
  induction fields with
  | nil => rfl
  | cons field rest ih =>
    obtain ⟨other, value⟩ := field
    obtain ⟨fresh, later⟩ := List.nodup_cons.mp once
    cases value with
    | none =>
      have skipped : present ((other, none) :: rest) = present rest := rfl
      rw [skipped, ih later, List.lookup_cons]
      by_cases same : name = other
      · have absent : rest.lookup name = none := by
          rw [List.lookup_eq_none_iff]
          intro later member
          rw [bne_iff_ne, same]
          intro equal
          have listed : later.1 ∈ rest.map Prod.fst := List.mem_map_of_mem member
          exact fresh (equal ▸ listed)
        simp [same, same ▸ absent]
      · simp [beq_eq_false_iff_ne.mpr same]
    | some value =>
      have kept : present ((other, some value) :: rest) = (other, value) :: present rest := rfl
      rw [kept, List.lookup_cons, List.lookup_cons, ih later]
      by_cases same : name = other
      · simp [same]
      · simp [beq_eq_false_iff_ne.mpr same]

theorem length_filter_present {fields : List (String × Option Json)}
    (once : (fields.map Prod.fst).Nodup) (name : String) :
    ((present fields).filter fun member => member.1 == name).length ≤ 1 := by
  induction fields with
  | nil => simp [present]
  | cons field rest ih =>
    obtain ⟨other, value⟩ := field
    obtain ⟨fresh, later⟩ := List.nodup_cons.mp once
    cases value with
    | none => exact ih later
    | some value =>
      have kept : present ((other, some value) :: rest) = (other, value) :: present rest := rfl
      rw [kept, List.filter_cons]
      by_cases same : other = name
      · have others : (present rest).filter (fun member => member.1 == name) = [] := by
          rw [List.filter_eq_nil_iff]
          intro member among hit
          rw [beq_iff_eq, ← same] at hit
          exact fresh (hit ▸ name_of_mem_present among)
        simp [same, others]
      · simpa [beq_eq_false_iff_ne.mpr same] using ih later

end Json

namespace Marker

/-- Numbers that fit in 64 bits, as all numbers of markers do. -/
structure Fits (m : Marker) : Prop where
  start : ∀ n ∈ m.start, n < UInt64.size
  stop : ∀ n ∈ m.stop, n < UInt64.size
  line : ∀ n ∈ m.line, n < UInt64.size

instance (m : Marker) : Decidable m.Fits :=
  decidable_of_iff ((∀ n ∈ m.start, n < UInt64.size) ∧ (∀ n ∈ m.stop, n < UInt64.size) ∧
      ∀ n ∈ m.line, n < UInt64.size)
    ⟨fun ⟨start, stop, line⟩ => ⟨start, stop, line⟩, fun fits => ⟨fits.1, fits.2, fits.3⟩⟩

def fields (m : Marker) : List (String × Option Json) :=
  [("problem_id", some (.string m.problemId)), ("severity", some (.string m.severity.name)),
    ("resource", some (.string m.resource)), ("char_start", m.start.map .nat),
    ("char_end", m.stop.map .nat), ("line_number", m.line.map .nat),
    ("message", some (.string m.message)),
    ("message_args", if m.args.isEmpty then none else some (.array (m.args.map .string))),
    ("location", m.location.map .string)]

theorem nodup_fieldNames : fieldNames.Nodup := by
  decide

theorem members_eq (m : Marker) : m.members = Json.present m.fields := by
  have single (name : String) (value : Option Json) :
      Json.present [(name, value)] = (value.map fun value => (name, value)).toList := by
    cases value <;> rfl
  show _ = Json.present ([_, _, _] ++ [_] ++ [_] ++ [_] ++ [_] ++ [_] ++ [_])
  simp only [Json.present_append, single]
  rfl

theorem whole_toJson (m : Marker) : m.toJson.Whole := by
  rw [toJson, Json.Whole, members_eq, Json.wholeMembers_iff]
  have numbers (n : Option Nat) (value : Json) (given : n.map Json.nat = some value) : value.Whole := by
    obtain ⟨k, -, rfl⟩ := Option.map_eq_some_iff.mp given
    trivial
  have texts : (Json.array (m.args.map .string)).Whole := by
    rw [Json.Whole, Json.wholeItems_iff]
    intro item among
    obtain ⟨text, -, rfl⟩ := List.mem_map.mp among
    trivial
  have whole : ∀ field ∈ m.fields, ∀ value, field.2 = some value → value.Whole := by
    simp only [fields, List.forall_mem_cons, Option.some.injEq]
    refine ⟨?_, ?_, ?_, numbers m.start, numbers m.stop, numbers m.line, ?_, ?_, ?_, by simp⟩
    · rintro value rfl
      trivial
    · rintro value rfl
      trivial
    · rintro value rfl
      trivial
    · rintro value rfl
      trivial
    · intro value given
      split at given
      · cases given
      · rw [← Option.some.inj given]
        exact texts
    · intro value given
      obtain ⟨text, -, rfl⟩ := Option.map_eq_some_iff.mp given
      trivial
  intro member among
  obtain ⟨field, listed, found⟩ := List.mem_filterMap.mp among
  obtain ⟨value, given, rfl⟩ := Option.map_eq_some_iff.mp found
  exact whole field listed value given

def readOptional {α : Type} (read : Json → Option α) : Option Json → Option (Option α)
  | none => some none
  | some value => Json.nullable read value

def readArgs : Option Json → Option (List String)
  | none => some []
  | some value => Json.strings? value

theorem ofFields?_eq (field? : String → Option Json) :
    ofFields? field? = do
      let problemId ← Json.string? (← field? "problem_id")
      let severity ← Severity.ofJson? (← field? "severity")
      let resource ← Json.string? (← field? "resource")
      let start ← readOptional Json.word64? (field? "char_start")
      let stop ← readOptional Json.word64? (field? "char_end")
      let line ← readOptional Json.word64? (field? "line_number")
      let message ← Json.string? (← field? "message")
      let args ← readArgs (field? "message_args")
      let location ← readOptional Json.string? (field? "location")
      return { problemId, severity, resource, start, stop, line, message, args, location } := by
  unfold ofFields?
  cases field? "message_args" <;> rfl

theorem ofJson?_severity (severity : Severity) :
    Severity.ofJson? (.string severity.name) = some severity := by
  cases severity <;> rfl

theorem readOptional_nat {n : Option Nat} (fits : ∀ k ∈ n, k < UInt64.size) :
    readOptional Json.word64? (n.map .nat) = some n := by
  cases n with
  | none => rfl
  | some k =>
    have small : k < UInt64.size := fits k rfl
    simp [readOptional, Json.nullable, Json.word64?, small]

theorem readOptional_string (text : Option String) :
    readOptional Json.string? (text.map .string) = some text := by
  cases text <;> rfl

theorem strings?_map (texts : List String) :
    Json.strings? (.array (texts.map .string)) = some texts := by
  rw [Json.strings?]
  induction texts with
  | nil => rfl
  | cons text rest ih =>
    rw [List.map_cons, List.mapM_cons, ih]
    rfl

theorem readArgs_texts (texts : List String) :
    readArgs (if texts.isEmpty then none else some (.array (texts.map .string))) = some texts := by
  cases texts with
  | nil => rfl
  | cons text rest => exact strings?_map (text :: rest)

theorem ofFields?_fields {m : Marker} (fits : m.Fits) :
    ofFields? (fun name => (m.fields.lookup name).join) = some m := by
  have problemId : (m.fields.lookup "problem_id").join = some (.string m.problemId) := rfl
  have severity : (m.fields.lookup "severity").join = some (.string m.severity.name) := rfl
  have resource : (m.fields.lookup "resource").join = some (.string m.resource) := rfl
  have start : (m.fields.lookup "char_start").join = m.start.map .nat := rfl
  have stop : (m.fields.lookup "char_end").join = m.stop.map .nat := rfl
  have line : (m.fields.lookup "line_number").join = m.line.map .nat := rfl
  have message : (m.fields.lookup "message").join = some (.string m.message) := rfl
  have args : (m.fields.lookup "message_args").join =
    if m.args.isEmpty then none else some (.array (m.args.map .string)) := rfl
  have location : (m.fields.lookup "location").join = m.location.map .string := rfl
  rw [ofFields?_eq]
  simp only [problemId, severity, resource, start, stop, line, message, args, location,
    readOptional_nat fits.start, readOptional_nat fits.stop, readOptional_nat fits.line,
    readOptional_string, readArgs_texts, ofJson?_severity, Json.string?, Option.bind_eq_bind,
    Option.bind_some]
  rfl

theorem ofJson?_toJson {m : Marker} (fits : m.Fits) : ofJson? m.toJson = some m := by
  have once : (m.fields.map Prod.fst).Nodup := nodup_fieldNames
  have repeated : (fieldNames.any fun name => decide (1 < (m.members.filter fun member =>
      member.1 == name).length)) = false := by
    rw [List.any_eq_false]
    intro name _
    have few := Json.length_filter_present once name
    rw [members_eq]
    simpa using few
  rw [toJson, ofJson?, repeated]
  simp only [Bool.false_eq_true, if_false, members_eq, Json.lookup_present once]
  exact ofFields?_fields fits

/-- Markers are read back from the text that keeps them. -/
theorem readAll?_writeAll {markers : List Marker} (fits : ∀ m ∈ markers, m.Fits) :
    readAll? (writeAll markers) = some markers := by
  have whole : (Json.array (markers.map toJson)).Whole := by
    rw [Json.Whole, Json.wholeItems_iff]
    intro item among
    obtain ⟨m, -, rfl⟩ := List.mem_map.mp among
    exact whole_toJson m
  rw [readAll?, writeAll, Json.parse?_pretty whole]
  show (markers.map toJson).mapM ofJson? = some markers
  clear whole
  induction markers with
  | nil => rfl
  | cons m rest ih =>
    obtain ⟨first, others⟩ := List.forall_mem_cons.mp fits
    rw [List.map_cons, List.mapM_cons, ofJson?_toJson first, ih others]
    rfl

theorem lt_of_readOptional {value : Option Json} {n : Option Nat}
    (read : readOptional Json.word64? value = some n) : ∀ k ∈ n, k < UInt64.size := by
  rintro k ⟨⟩
  cases value with
  | none => cases read
  | some value =>
    cases value with
    | nat other =>
      obtain ⟨number, taken, same⟩ := Option.map_eq_some_iff.mp read
      obtain rfl := Option.some.inj same
      rw [Json.word64?] at taken
      split at taken
      · rwa [← Option.some.inj taken]
      · cases taken
    | _ => cases read

theorem fits_of_ofFields? {field? : String → Option Json} {m : Marker}
    (read : ofFields? field? = some m) : m.Fits := by
  rw [ofFields?_eq] at read
  simp only [Option.bind_eq_bind, Option.bind_eq_some_iff] at read
  obtain ⟨_, -, _, -, _, -, _, -, _, -, _, -, start, first, stop, second, line, third, _, -, _, -,
    _, -, _, -, made⟩ := read
  obtain rfl := Option.some.inj made
  exact ⟨lt_of_readOptional first, lt_of_readOptional second, lt_of_readOptional third⟩

theorem fits_of_ofJson? {value : Json} {m : Marker} (read : ofJson? value = some m) : m.Fits := by
  cases value with
  | object members =>
    rw [ofJson?] at read
    split at read
    · cases read
    · exact fits_of_ofFields? read
  | array values =>
    rw [ofJson?] at read
    split at read
    · cases read
    · exact fits_of_ofFields? read
  | _ => cases read

theorem exists_of_mem_mapM {α β : Type} {f : α → Option β} {items : List α} {results : List β}
    (made : items.mapM f = some results) {result : β} (among : result ∈ results) :
    ∃ item ∈ items, f item = some result := by
  induction items generalizing results with
  | nil =>
    obtain rfl := Option.some.inj made
    cases among
  | cons item rest ih =>
    rw [List.mapM_cons] at made
    obtain ⟨first, here, made⟩ := Option.bind_eq_some_iff.mp made
    obtain ⟨others, later, made⟩ := Option.bind_eq_some_iff.mp made
    obtain rfl := Option.some.inj made
    rcases List.mem_cons.mp among with rfl | member
    · exact ⟨item, List.mem_cons_self, here⟩
    · obtain ⟨source, listed, found⟩ := ih later member
      exact ⟨source, List.mem_cons_of_mem _ listed, found⟩

theorem fits_of_readAll? {text : String} {markers : List Marker}
    (read : readAll? text = some markers) : ∀ m ∈ markers, m.Fits := by
  obtain ⟨value, -, read⟩ := Option.bind_eq_some_iff.mp read
  cases value with
  | array values =>
    intro m among
    obtain ⟨item, -, made⟩ := exists_of_mem_mapM read among
    exact fits_of_ofJson? made
  | _ => cases read

end Marker

end SpringLint
