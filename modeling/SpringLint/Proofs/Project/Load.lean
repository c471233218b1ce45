import SpringLint.Project.Basic
import SpringLint.Proofs.Table

/-! What loading and linking do to the sources of a project. A project whose sources have all been
read anew does not depend on what it held before. -/

namespace SpringLint

def SourceUnit.parsed (unit : SourceUnit) : SourceUnit :=
  { unit with types := [], bindings := {} }

namespace Project

variable {project : Project} {grammar : Grammar} {files : FileSystem}
  {resource other : String} {unit : SourceUnit}

theorem unit?_insertUnit (project : Project) (unit : SourceUnit) (other : String) :
    (project.insertUnit unit).unit? other =
      if other = unit.resource then some unit else project.unit? other :=
  Table.get?_insert ..

theorem unit?_remove (project : Project) (resource other : String) :
    (project.remove resource).unit? other = if other = resource then none else project.unit? other :=
  Table.get?_erase ..

theorem parseUnit_eq_ok {text : String}
    (parsed : project.parseUnit grammar resource text = .ok unit) :
    ∃ source, Source.parse? grammar text = some source ∧ unit = .ofSource resource source := by
  unfold parseUnit at parsed
  split at parsed
  · cases parsed
    exact ⟨_, ‹_›, rfl⟩
  · cases parsed

theorem readUnit_eq_ok (read : project.readUnit grammar files resource = .ok unit) :
    ∃ text source, files.read (project.layout.pathOf resource) = .ok text ∧
      Source.parse? grammar text = some source ∧ unit = .ofSource resource source := by
  unfold readUnit at read
  cases content : files.read (project.layout.pathOf resource) with
  | error fault => simp [content] at read
  | ok text =>
    obtain ⟨source, parsed, same⟩ := parseUnit_eq_ok (by simpa only [content] using read)
    exact ⟨text, source, rfl, parsed, same⟩

theorem resource_readUnit (read : project.readUnit grammar files resource = .ok unit) :
    unit.resource = resource := by
  obtain ⟨-, source, -, -, rfl⟩ := readUnit_eq_ok read
  rfl

theorem parsed_readUnit (read : project.readUnit grammar files resource = .ok unit) :
    unit.parsed = unit := by
  obtain ⟨-, source, -, -, rfl⟩ := readUnit_eq_ok read
  rfl

section TakeOver

variable {read : String → Except Error SourceUnit}

/-- What has been read takes the place of what was there: a source that could not be loaded is gone,
and those that were not read stay. -/
theorem unit?_takeOver (own : ∀ resource unit, read resource = .ok unit → unit.resource = resource)
    (resources : List String) (project : Project) (other : String) :
    (project.takeOver (resources.map fun resource => (resource, read resource))).1.unit? other =
      if other ∈ resources then (read other).toOption else project.unit? other := by
  induction resources generalizing project with
  | nil => simp [takeOver]
  | cons resource rest ih =>
    cases result : read resource with
    | error error =>
      simp only [List.map_cons, result, takeOver]
      rw [ih, unit?_remove]
      by_cases later : other ∈ rest
      · simp [later]
      · by_cases same : other = resource <;> simp [later, same, result, Except.toOption]
    | ok unit =>
      simp only [List.map_cons, result, takeOver]
      rw [ih, unit?_insertUnit, own resource unit result]
      by_cases later : other ∈ rest
      · simp [later]
      · by_cases same : other = resource <;> simp [later, same, result, Except.toOption]

theorem mem_failures_takeOver (resources : List String) (project : Project) :
    other ∈ (project.takeOver (resources.map fun resource => (resource, read resource))).2.map (·.1) ↔
      other ∈ resources ∧ (read other).toOption = none := by
  induction resources generalizing project with
  | nil => simp [takeOver]
  | cons resource rest ih =>
    cases result : read resource with
    | error error =>
      simp only [List.map_cons, result, takeOver, List.mem_cons, ih]
      by_cases same : other = resource <;> simp [same, result, Except.toOption]
    | ok unit =>
      simp only [List.map_cons, result, takeOver, List.mem_cons, ih]
      by_cases same : other = resource <;> simp [same, result, Except.toOption]

theorem takeOver_eq (results : List (String × Except Error SourceUnit)) (project : Project) :
    (project.takeOver results).1 = { project with units := (project.takeOver results).1.units } := by
  induction results generalizing project with
  | nil => rfl
  | cons result rest ih =>
    obtain ⟨resource, error | unit⟩ := result
    · exact ih (project.remove resource)
    · exact ih (project.insertUnit unit)

theorem ascending_takeOver (results : List (String × Except Error SourceUnit))
    (sorted : project.units.Ascending) : (project.takeOver results).1.units.Ascending := by
  induction results generalizing project with
  | nil => exact sorted
  | cons result rest ih =>
    obtain ⟨resource, error | unit⟩ := result
    · exact @ih (project.remove resource) (sorted.erase resource)
    · exact @ih (project.insertUnit unit) (sorted.insert _ _)

end TakeOver

theorem unit?_load (project : Project) (resources : List String) (other : String) :
    (project.load grammar files resources).1.unit? other =
      if other ∈ resources then (project.readUnit grammar files other).toOption
      else project.unit? other :=
  unit?_takeOver (fun _ _ => resource_readUnit) resources project other

theorem mem_failures_load {resources : List String} :
    other ∈ (project.load grammar files resources).2.map (·.1) ↔
      other ∈ resources ∧ (project.readUnit grammar files other).toOption = none :=
  mem_failures_takeOver resources project

theorem layout_load (project : Project) (resources : List String) :
    (project.load grammar files resources).1.layout = project.layout := by
  rw [load, takeOver_eq]

theorem index_load (project : Project) (resources : List String) :
    (project.load grammar files resources).1.index = project.index := by
  rw [load, takeOver_eq]

theorem ascending_load (sorted : project.units.Ascending) (resources : List String) :
    (project.load grammar files resources).1.units.Ascending :=
  ascending_takeOver _ sorted

/-! Several sources removed. -/

theorem unit?_foldl_remove (resources : List String) (project : Project) (other : String) :
    (resources.foldl remove project).unit? other =
      if other ∈ resources then none else project.unit? other := by
  induction resources generalizing project with
  | nil => simp
  | cons resource rest ih =>
    rw [List.foldl_cons, ih, unit?_remove]
    by_cases later : other ∈ rest
    · simp [later]
    · by_cases same : other = resource <;> simp [later, same]

theorem layout_foldl_remove (resources : List String) (project : Project) :
    (resources.foldl remove project).layout = project.layout := by
  induction resources generalizing project with
  | nil => rfl
  | cons resource rest ih => exact ih (project.remove resource)

theorem ascending_foldl_remove (sorted : project.units.Ascending) (resources : List String) :
    (resources.foldl remove project).units.Ascending := by
  induction resources generalizing project with
  | nil => exact sorted
  | cons resource rest ih => exact @ih (project.remove resource) (sorted.erase resource)

/-! Linking. -/

/-- The names that are known when the types of the sources are told. -/
def nameIndexOf (project : Project) : Index :=
  nameIndex project.units.values

theorem lookup_map_snd {α β : Type} (f : String × α → β) (entries : List (String × α)) (name : String) :
    (entries.map fun entry => (entry.1, f entry)).lookup name =
      (entries.lookup name).map fun value => f (name, value) := by
  induction entries with
  | nil => rfl
  | cons entry rest ih =>
    obtain ⟨head, value⟩ := entry
    by_cases here : name = head
    · subst here
      simp
    · simp [List.lookup_cons, beq_eq_false_iff_ne.mpr here, ih]

theorem unit?_relink (project : Project) (resource : String) :
    project.relink.unit? resource =
      (project.unit? resource).map fun unit =>
        unit.link (unit.declare project.nameIndexOf) project.relink.index := by
  simp only [unit?, Table.get?, relink, List.map_map]
  exact lookup_map_snd _ project.units.entries resource

theorem names_relink (project : Project) : project.relink.units.names = project.units.names := by
  simp [relink, Table.names]

theorem ascending_relink (sorted : project.units.Ascending) : project.relink.units.Ascending := by
  have names : project.units.names.Pairwise (· < ·) := sorted.names
  rw [← names_relink] at names
  exact List.pairwise_map.mp names

theorem relink_eq {p q : Project} (layout : p.layout = q.layout) (units : p.units = q.units) :
    p.relink = q.relink := by
  cases p
  cases q
  cases layout
  cases units
  rfl

def unlinked (project : Project) : Project :=
  { project with
    units := { entries := project.units.entries.map fun entry => (entry.1, entry.2.parsed) } }

/-- Linking does not look at what an earlier linking told. -/
theorem relink_unlinked (project : Project) : project.unlinked.relink = project.relink := by
  simp only [relink, unlinked, nameIndex, Table.values, List.map_map, List.flatMap_map]
  rfl

theorem unit?_unlinked (project : Project) (resource : String) :
    project.unlinked.unit? resource = (project.unit? resource).map SourceUnit.parsed :=
  lookup_map_snd _ project.units.entries resource

theorem ascending_unlinked (sorted : project.units.Ascending) : project.unlinked.units.Ascending :=
  List.pairwise_map.mpr sorted

/-! Projects read anew. -/

/-- The project of all sources that discovery finds and that can be loaded. -/
def fresh (layout : Layout) (grammar : Grammar) (files : FileSystem) (excluded : List Glob) :
    Project :=
  let bare : Project := { layout := layout }
  (bare.load grammar files (bare.discover files excluded)).1.relink

theorem readUnit_eq {p q : Project} (layout : p.layout = q.layout) (resource : String) :
    p.readUnit grammar files resource = q.readUnit grammar files resource := by
  unfold readUnit parseUnit
  rw [layout]

theorem readUnit_congr {later : FileSystem}
    (same : files.read (project.layout.pathOf resource) =
      later.read (project.layout.pathOf resource)) :
    project.readUnit grammar files resource = project.readUnit grammar later resource := by
  unfold readUnit
  dsimp only
  rw [same]

theorem discover_eq {p q : Project} (layout : p.layout = q.layout) (excluded : List Glob) :
    p.discover files excluded = q.discover files excluded := by
  simp only [discover, layout]

/-- The source that a resource is, if discovery finds it and it can be loaded. -/
def source? (project : Project) (grammar : Grammar) (files : FileSystem) (excluded : List Glob)
    (resource : String) : Option SourceUnit :=
  if resource ∈ project.discover files excluded then
    (project.readUnit grammar files resource).toOption
  else none

theorem source?_eq {p q : Project} (layout : p.layout = q.layout) (excluded : List Glob)
    (resource : String) :
    p.source? grammar files excluded resource = q.source? grammar files excluded resource := by
  rw [source?, source?, discover_eq layout, readUnit_eq layout]

theorem source?_eq_some_iff {excluded : List Glob} :
    project.source? grammar files excluded resource = some unit ↔
      resource ∈ project.discover files excluded ∧
        project.readUnit grammar files resource = .ok unit := by
  unfold source?
  split
  · cases project.readUnit grammar files resource <;> simp [*, Except.toOption]
  · simp [*]

/-- A project in order whose sources are those that discovery finds, read anew. -/
theorem relink_eq_fresh {excluded : List Glob} (sorted : project.units.Ascending)
    (units : ∀ resource, project.unit? resource =
      project.source? grammar files excluded resource) :
    project.relink = fresh project.layout grammar files excluded := by
  let bare : Project := { layout := project.layout }
  refine relink_eq (layout_load bare _).symm
    (sorted.ext (@ascending_load bare grammar files Table.ascending_empty _) fun resource => ?_)
  change project.unit? resource = Project.unit? (bare.load grammar files _).1 resource
  have same : project.source? grammar files excluded resource =
      bare.source? grammar files excluded resource := source?_eq rfl excluded resource
  rw [units, same, unit?_load]
  rfl

theorem layout_fresh (layout : Layout) (excluded : List Glob) :
    (fresh layout grammar files excluded).layout = layout :=
  layout_load ({ layout := layout } : Project) _

theorem ascending_fresh (layout : Layout) (excluded : List Glob) :
    (fresh layout grammar files excluded).units.Ascending :=
  ascending_relink
    (@ascending_load { layout := layout } grammar files Table.ascending_empty _)

theorem unit?_fresh (layout : Layout) (excluded : List Glob) (resource : String) :
    ((fresh layout grammar files excluded).unit? resource).map SourceUnit.parsed =
      (fresh layout grammar files excluded).source? grammar files excluded resource := by
  let bare : Project := { layout := layout }
  have same : (fresh layout grammar files excluded).layout = bare.layout := layout_fresh ..
  have linked : ((fresh layout grammar files excluded).unit? resource).map SourceUnit.parsed =
      ((bare.load grammar files (bare.discover files excluded)).1.unit? resource).map
        SourceUnit.parsed := by
    change ((Project.relink _).unit? resource).map _ = _
    rw [unit?_relink, Option.map_map]
    rfl
  rw [linked, source?_eq same, unit?_load, source?]
  split
  · cases read : bare.readUnit grammar files resource with
    | error _ => rfl
    | ok unit => simp [Except.toOption, parsed_readUnit read]
  · rfl

theorem readUnit_of_unknown {excluded : List Glob}
    (unknown : (fresh project.layout grammar files excluded).unit? resource = none)
    (found : resource ∈ project.discover files excluded) :
    (project.readUnit grammar files resource).toOption = none := by
  have source := congrArg (Option.map SourceUnit.parsed) unknown
  rwa [unit?_fresh, source?_eq (layout_fresh ..), source?, if_pos found] at source

theorem isSome_unit?_fresh (layout : Layout) (excluded : List Glob) (resource : String) :
    ((fresh layout grammar files excluded).unit? resource).isSome ↔
      resource ∈ (fresh layout grammar files excluded).discover files excluded ∧
        ((fresh layout grammar files excluded).readUnit grammar files resource).toOption.isSome := by
  rw [← Option.isSome_map (f := SourceUnit.parsed), unit?_fresh, source?]
  split <;> simp [*]

theorem resource_fresh {layout : Layout} {excluded : List Glob}
    (known : (fresh layout grammar files excluded).unit? resource = some unit) :
    unit.resource = resource := by
  have source := congrArg (Option.map SourceUnit.parsed) known
  rw [unit?_fresh, Option.map_some, source?_eq_some_iff] at source
  have own : unit.parsed.resource = resource := resource_readUnit source.2
  exact own

/-- The sources stand in order, each under its own name. -/
structure Owned (project : Project) : Prop where
  ascending : project.units.Ascending
  resource : ∀ resource unit, project.unit? resource = some unit → unit.resource = resource

theorem owned_fresh (layout : Layout) (excluded : List Glob) :
    (fresh layout grammar files excluded).Owned :=
  ⟨ascending_fresh layout excluded, fun _ _ => resource_fresh⟩

end Project

end SpringLint
