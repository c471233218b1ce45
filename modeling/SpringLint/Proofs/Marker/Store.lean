import SpringLint.Marker.Store
import SpringLint.Proofs.Table

/-! What the operations of a marker store do to the markers of each resource. Every marker stands
under its own resource, so the markers of each resource make up the whole store. -/

namespace SpringLint.MarkerStore

variable {store : MarkerStore} {resource other : String} {markers : List Marker}

/-- The table is in order, and no resource is listed without a marker or with one of another
resource. -/
structure Sound (store : MarkerStore) : Prop where
  ascending : store.table.Ascending
  filled : ∀ entry ∈ store.table.entries, entry.2 ≠ [] ∧ ∀ m ∈ entry.2, m.resource = entry.1

instance (store : MarkerStore) : Decidable store.Sound :=
  decidable_of_iff
    (store.table.Ascending ∧
      ∀ entry ∈ store.table.entries, entry.2 ≠ [] ∧ ∀ m ∈ entry.2, m.resource = entry.1)
    ⟨fun ⟨ascending, filled⟩ => ⟨ascending, filled⟩, fun sound => ⟨sound.1, sound.2⟩⟩

theorem markers_delete (store : MarkerStore) (resource other : String) :
    (store.delete resource).markers other = if other = resource then [] else store.markers other := by
  rw [MarkerStore.markers, delete, Table.get?_erase]
  split <;> rfl

theorem get?_foldl_addMarker (markers : List Marker) (table : Table (List Marker)) (other : String) :
    (((markers.foldl addMarker table).get? other).getD []) =
      (table.get? other).getD [] ++ markers.filter (·.resource == other) := by
  induction markers generalizing table with
  | nil => simp
  | cons m rest ih =>
    rw [List.foldl_cons, ih, addMarker, Table.get?_insert]
    by_cases same : other = m.resource
    · simp [same]
    · simp [same, Ne.symm same]

theorem markers_create (store : MarkerStore) (markers : List Marker) (other : String) :
    (store.create markers).markers other =
      store.markers other ++ markers.filter (·.resource == other) :=
  get?_foldl_addMarker markers store.table other

theorem markers_replace (about : ∀ m ∈ markers, m.resource = resource) (other : String) :
    (store.replace resource markers).markers other =
      if other = resource then markers else store.markers other := by
  rw [replace, markers_create, markers_delete]
  by_cases same : other = resource
  · have all : markers.filter (·.resource == other) = markers :=
      List.filter_eq_self.mpr fun m member => beq_iff_eq.mpr ((about m member).trans same.symm)
    rw [all, if_pos same, if_pos same, List.nil_append]
  · have none : markers.filter (·.resource == other) = [] :=
      List.filter_eq_nil_iff.mpr fun m member hit =>
        same ((beq_iff_eq.mp hit).symm.trans (about m member))
    rw [none, if_neg same, if_neg same, List.append_nil]

theorem markers_foldl_delete (resources : List String) (store : MarkerStore) (other : String) :
    (resources.foldl delete store).markers other =
      if other ∈ resources then [] else store.markers other := by
  induction resources generalizing store with
  | nil => simp
  | cons resource rest ih =>
    rw [List.foldl_cons, ih, markers_delete]
    by_cases later : other ∈ rest
    · simp [later]
    · by_cases same : other = resource <;> simp [later, same]

/-- Resources that get new markers one after another: each has its own in the end, and the others
keep theirs. -/
theorem markers_foldl_replace {found : String → List Marker} {resources : List String}
    (about : ∀ resource ∈ resources, ∀ m ∈ found resource, m.resource = resource)
    (store : MarkerStore) (other : String) :
    (resources.foldl (fun store resource => store.replace resource (found resource)) store).markers
        other =
      if other ∈ resources then found other else store.markers other := by
  induction resources generalizing store with
  | nil => simp
  | cons resource rest ih =>
    rw [List.foldl_cons, ih fun r member => about r (List.mem_cons_of_mem _ member),
      markers_replace (about resource (List.mem_cons_self ..))]
    by_cases later : other ∈ rest
    · simp [later]
    · by_cases same : other = resource <;> simp [later, same]

theorem filter_flatMap_eq_replicate {found : String → List Marker} {resources : List String}
    (about : ∀ resource ∈ resources, ∀ m ∈ found resource, m.resource = resource) (other : String) :
    (resources.flatMap found).filter (·.resource == other) =
      (List.replicate (resources.count other) (found other)).flatten := by
  induction resources with
  | nil => rfl
  | cons resource rest ih =>
    have own := about resource (List.mem_cons_self ..)
    rw [List.flatMap_cons, List.filter_append,
      ih fun r member => about r (List.mem_cons_of_mem _ member)]
    by_cases same : other = resource
    · subst same
      have all : (found other).filter (·.resource == other) = found other :=
        List.filter_eq_self.mpr fun m member => beq_iff_eq.mpr (own m member)
      rw [all, List.count_cons_self, List.replicate_succ, List.flatten_cons]
    · have none : (found resource).filter (·.resource == other) = [] :=
        List.filter_eq_nil_iff.mpr fun m member hit =>
          same ((beq_iff_eq.mp hit).symm.trans (own m member))
      rw [none, List.nil_append, List.count_cons_of_ne (Ne.symm same)]

theorem filter_flatMap {found : String → List Marker} {resources : List String}
    (once : resources.Nodup)
    (about : ∀ resource ∈ resources, ∀ m ∈ found resource, m.resource = resource) (other : String) :
    (resources.flatMap found).filter (·.resource == other) =
      if other ∈ resources then found other else [] := by
  rw [filter_flatMap_eq_replicate about, once.count]
  split <;> simp

namespace Sound

theorem of_table {s t : MarkerStore} (sound : s.Sound) (same : t.table = s.table) : t.Sound :=
  ⟨same ▸ sound.ascending, same ▸ sound.filled⟩

theorem empty (path : Option String) : ({ path := path } : MarkerStore).Sound :=
  ⟨Table.ascending_empty, fun _ member => nomatch member⟩

theorem delete (sound : store.Sound) (resource : String) : (store.delete resource).Sound :=
  ⟨sound.ascending.erase resource,
    fun entry member => sound.filled entry (List.mem_filter.mp member).1⟩

theorem addMarker {table : Table (List Marker)} (sound : ({ table := table } : MarkerStore).Sound)
    (m : Marker) : ({ table := MarkerStore.addMarker table m } : MarkerStore).Sound := by
  refine ⟨sound.ascending.insert _ _, fun entry member => ?_⟩
  rcases Table.mem_insertEntry member with rfl | member
  · refine ⟨by simp, fun n among => ?_⟩
    rcases List.mem_append.mp among with old | new
    · cases known : table.get? m.resource with
      | none => simp [known] at old
      | some markers =>
        rw [known] at old
        exact (sound.filled _ (Table.mem_of_get? known)).2 n old
    · rw [List.mem_singleton.mp new]
  · exact sound.filled entry member

theorem create (sound : store.Sound) (markers : List Marker) : (store.create markers).Sound := by
  have grown : ∀ table : Table (List Marker), ({ table := table } : MarkerStore).Sound →
      ({ table := markers.foldl MarkerStore.addMarker table } : MarkerStore).Sound := by
    induction markers with
    | nil => exact fun _ sound => sound
    | cons m rest ih => exact fun _ sound => ih _ (sound.addMarker m)
  have done := grown store.table ⟨sound.ascending, sound.filled⟩
  exact ⟨done.ascending, done.filled⟩

theorem replace (sound : store.Sound) (resource : String) (markers : List Marker) :
    (store.replace resource markers).Sound :=
  (sound.delete resource).create markers

theorem foldl_delete (sound : store.Sound) (resources : List String) :
    (resources.foldl MarkerStore.delete store).Sound := by
  induction resources generalizing store with
  | nil => exact sound
  | cons resource rest ih => exact ih (sound.delete resource)

theorem foldl_replace (sound : store.Sound) (found : String → List Marker)
    (resources : List String) :
    (resources.foldl (fun store resource => store.replace resource (found resource)) store).Sound := by
  induction resources generalizing store with
  | nil => exact sound
  | cons resource rest ih => exact ih (sound.replace resource (found resource))

theorem openAt {files : FileSystem} {path : String} (opened : openAt files path = .ok store) :
    store.Sound := by
  unfold MarkerStore.openAt at opened
  split at opened
  · split at opened
    · cases opened
    · split at opened
      · cases opened
        exact .empty _
      · split at opened
        · cases opened
          have filled := (Sound.empty (some path)).create ‹_›
          exact ⟨filled.ascending, filled.filled⟩
        · cases opened
  · cases opened
    exact .empty _

/-- No resource is listed without a marker, so stores with the same markers have the same table. -/
theorem table_eq {s t : MarkerStore} (left : s.Sound) (right : t.Sound)
    (alike : ∀ resource, s.markers resource = t.markers resource) : s.table = t.table := by
  refine left.ascending.ext right.ascending fun resource => ?_
  have same := alike resource
  simp only [MarkerStore.markers] at same
  have filled : ∀ {u : MarkerStore}, u.Sound → u.table.get? resource ≠ some [] :=
    fun sound found => (sound.filled _ (Table.mem_of_get? found)).1 rfl
  have noLeft := filled left
  have noRight := filled right
  cases first : s.table.get? resource <;> cases second : t.table.get? resource <;>
    simp_all

theorem filter_all (sound : store.Sound) (resource : String) :
    store.all.filter (·.resource == resource) = store.markers resource := by
  obtain ⟨path, ⟨entries⟩, isDirty⟩ := store
  obtain ⟨sorted, filled⟩ := sound
  simp only [MarkerStore.all, Table.values, MarkerStore.markers, Table.get?, Table.Ascending] at *
  induction entries with
  | nil => rfl
  | cons entry rest ih =>
    obtain ⟨name, markers⟩ := entry
    obtain ⟨above, later⟩ := List.pairwise_cons.mp sorted
    have own := (filled _ (List.mem_cons_self ..)).2
    have others := ih later fun e member => filled e (List.mem_cons_of_mem _ member)
    rw [List.map_cons, List.flatten_cons, List.filter_append, others, List.lookup_cons]
    by_cases here : resource = name
    · subst here
      have absent : rest.lookup resource = none := List.lookup_eq_none_iff.mpr fun e member =>
        bne_iff_ne.mpr (Table.ne_of_lt (above e member))
      have all : markers.filter (·.resource == resource) = markers :=
        List.filter_eq_self.mpr fun m member => beq_iff_eq.mpr (own m member)
      simp [absent, all]
    · have none : markers.filter (·.resource == resource) = [] :=
        List.filter_eq_nil_iff.mpr fun m member hit =>
          here ((beq_iff_eq.mp hit).symm.trans (own m member))
      simp [none, beq_eq_false_iff_ne.mpr here]

theorem perm_all (sound : store.Sound) {markers : List Marker}
    (each : ∀ resource, markers.filter (·.resource == resource) = store.markers resource) :
    markers.Perm store.all := by
  refine List.perm_iff_count.mpr fun m => ?_
  have count : ∀ ms : List Marker, ms.count m = (ms.filter (·.resource == m.resource)).count m :=
    fun ms => (List.count_filter (p := fun n : Marker => n.resource == m.resource) (beq_self_eq_true _)).symm
  rw [count, count store.all, each, sound.filter_all]

end Sound

end SpringLint.MarkerStore
