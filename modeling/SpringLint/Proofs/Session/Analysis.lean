import SpringLint.Proofs.Marker.Store
import SpringLint.Proofs.Project.Discovery
import SpringLint.Session

/-! What the analysis of sources and folders does to the markers when nobody stops it. -/

namespace SpringLint.Session

variable {session after : Session} {files : FileSystem} {asked : Nat → Bool} {pass done : Pass}
  {resources folders : List String} {resource : String}

/-- The markers that the checks give to a resource, if it is a source of the project and every check
has an answer. -/
def found? (session : Session) (files : FileSystem) (resource : String) : Option (List Marker) :=
  (session.project.unit? resource).bind (session.unitMarkers? files)

/-- The markers that the checks give to a resource, none if there are no answers. -/
def found (session : Session) (files : FileSystem) (resource : String) : List Marker :=
  (session.found? files resource).getD []

/-- The store with the markers of sources, and then those of folders, in place of theirs. -/
def recorded (session : Session) (files : FileSystem) (resources folders : List String) :
    MarkerStore :=
  folders.foldl
    (fun store folder => store.replace folder (PackageInfo.check session.project files folder))
    (resources.foldl (fun store resource => store.replace resource (session.found files resource))
      session.store)

/-- What an analysis that is not stopped leaves behind. -/
structure Settles (session : Session) (files : FileSystem) (resources folders : List String)
    (pass : Pass) (after : Session) (done : Pass) : Prop where
  project : after.project = session.project
  checks : after.checks = session.checks
  checksPackages : after.checksPackages = session.checksPackages
  excluded : after.excluded = session.excluded
  answered : ∀ resource ∈ resources, (session.found? files resource).isSome
  table : after.store.table = (session.recorded files resources folders).table
  analyzed : done.analyzed = pass.analyzed ++ resources
  markers : done.markers = pass.markers ++ resources.flatMap (session.found files) ++
    folders.flatMap (PackageInfo.check session.project files)

theorem analyzeUnits_done {look : Nat}
    (known : ∀ resource ∈ resources, (session.project.unit? resource).isSome)
    (run : session.analyzeUnits files asked look pass resources = (after, done, .done)) :
    (∀ resource ∈ resources, (session.found? files resource).isSome) ∧
      after = { session with
        store := resources.foldl
          (fun store resource => store.replace resource (session.found files resource)) session.store
        stopAsked := after.stopAsked } ∧
      done = { pass with
        analyzed := pass.analyzed ++ resources
        markers := pass.markers ++ resources.flatMap (session.found files) } := by
  induction resources generalizing session look pass with
  | nil =>
    simp only [analyzeUnits, Prod.mk.injEq, and_true] at run
    obtain ⟨rfl, rfl⟩ := run
    simp
  | cons resource rest ih =>
    rw [analyzeUnits] at run
    split at run
    · cases run
    · obtain ⟨unit, source⟩ := Option.isSome_iff_exists.mp (known resource (List.mem_cons_self ..))
      simp only [source] at run
      cases answer : session.unitMarkers? files unit with
      | none => simp [answer] at run
      | some markers =>
        simp only [answer] at run
        have first : session.found? files resource = some markers := by
          rw [found?, source, Option.bind_some, answer]
        have own : session.found files resource = markers := by rw [found, first, Option.getD_some]
        obtain ⟨answered, state, result⟩ :=
          @ih { session with store := session.store.replace resource markers } _ _
            (fun r member => known r (List.mem_cons_of_mem _ member)) run
        refine ⟨List.forall_mem_cons.mpr ⟨by rw [first]; rfl, answered⟩, ?_, ?_⟩
        · rw [List.foldl_cons, own]
          exact state
        · rw [result, List.flatMap_cons, own]
          simp only [List.append_assoc, List.singleton_append]
          rfl

theorem isCancelled_of_stopped {look : Nat}
    (run : session.analyzeUnits files asked look pass resources = (after, done, .stopped)) :
    done.isCancelled = true := by
  induction resources generalizing session look pass with
  | nil => simp [analyzeUnits] at run
  | cons resource rest ih =>
    rw [analyzeUnits] at run
    split at run
    · cases run
      rfl
    · cases source : session.project.unit? resource with
      | none => exact ih (by simpa only [source] using run)
      | some unit =>
        simp only [source] at run
        cases answer : session.unitMarkers? files unit with
        | none => simp [answer] at run
        | some markers => exact ih (by simpa only [answer] using run)

theorem analyzeFolders_eq (session : Session) (files : FileSystem) (pass : Pass)
    (folders : List String) :
    session.analyzeFolders files pass folders =
      ({ session with
          store := folders.foldl (fun store folder =>
            store.replace folder (PackageInfo.check session.project files folder)) session.store },
        { pass with
          markers := pass.markers ++ folders.flatMap (PackageInfo.check session.project files) }) := by
  induction folders generalizing session pass with
  | nil => simp [analyzeFolders]
  | cons folder rest ih =>
    simp only [analyzeFolders, ih, List.foldl_cons, List.flatMap_cons, List.append_assoc]

theorem table_flush {store written : MarkerStore} {after : FileSystem}
    (flushed : store.flush files = (after, .ok written)) : written.table = store.table := by
  unfold MarkerStore.flush at flushed
  split at flushed
  · cases flushed
    rfl
  · split at flushed
    · dsimp only at flushed
      split at flushed
      · cases flushed
      · split at flushed
        · cases flushed
        · cases flushed
          rfl
    · cases flushed
      rfl

theorem resource_of_mem_found (owned : ∀ unit, session.project.unit? resource = some unit →
    unit.resource = resource) {m : Marker} (member : m ∈ session.found files resource) :
    m.resource = resource := by
  rw [found, found?] at member
  cases source : session.project.unit? resource with
  | none => simp [source] at member
  | some unit =>
    simp only [source, Option.bind_some, unitMarkers?] at member
    cases answer : Check.runAll? session.checks
        { unit := unit, project := session.project, files := files } with
    | none => simp [answer] at member
    | some findings =>
      simp only [answer, Option.map_some, Option.getD_some, List.mem_map] at member
      obtain ⟨finding, -, rfl⟩ := member
      exact owned unit source

theorem flush_ok {α : Type} {value result : α}
    (flushed : (session.flush files value).result = .ok result) :
    result = value ∧ ∃ written : MarkerStore, written.table = session.store.table ∧
      (session.flush files value).session = { session with store := written } := by
  unfold flush at flushed ⊢
  rcases outcome : session.store.flush files with ⟨written, error | store⟩
  · simp [outcome] at flushed
  · simp only [outcome, Except.ok.injEq] at flushed
    exact ⟨flushed.symm, store, table_flush outcome, rfl⟩

theorem store_reload (session : Session) (grammar : Grammar) (files : FileSystem)
    (resources : List String) :
    (session.reload grammar files resources).1.store =
      ((session.reload grammar files resources).2.map (·.1)).foldl MarkerStore.delete
        session.store := by
  rw [List.foldl_map]
  rfl

theorem layout_reload (session : Session) (grammar : Grammar) (files : FileSystem)
    (resources : List String) :
    (session.reload grammar files resources).1.project.layout = session.project.layout :=
  Project.layout_load ..

/-- An analysis that ends with a result and is not stopped records what the checks find. -/
theorem analyze_settles (known : ∀ resource ∈ resources, (session.project.unit? resource).isSome)
    (ended : (session.analyze files asked resources folders pass).result = .ok done)
    (uncancelled : done.isCancelled = false) :
    session.Settles files resources folders pass
      (session.analyze files asked resources folders pass).session done := by
  unfold analyze at ended ⊢
  rcases run : session.analyzeUnits files asked 0 pass resources with ⟨middle, reached, progress⟩
  simp only [run] at ended
  cases progress with
  | crashed => cases ended
  | stopped =>
    rw [(flush_ok ended).1, isCancelled_of_stopped run] at uncancelled
    cases uncancelled
  | done =>
    obtain ⟨answered, state, result⟩ := analyzeUnits_done known run
    simp only [analyzeFolders_eq] at ended ⊢
    obtain ⟨same, written, table, final⟩ := flush_ok ended
    have project : middle.project = session.project := by rw [state]
    have store : middle.store = resources.foldl
        (fun store resource => store.replace resource (session.found files resource))
        session.store := by rw [state]
    rw [final]
    rw [store, project] at table
    rw [project] at same
    refine ⟨project, ?_, ?_, ?_, answered, table, ?_, ?_⟩
    · change middle.checks = session.checks
      rw [state]
    · change middle.checksPackages = session.checksPackages
      rw [state]
    · change middle.excluded = session.excluded
      rw [state]
    · rw [same, result]
    · rw [same, result]

/-- The markers of each resource after an analysis that is not stopped: those of a folder come last,
and what is not analysed keeps its markers. -/
theorem Settles.markers_eq (settles : session.Settles files resources folders pass after done)
    (owned : ∀ resource unit, session.project.unit? resource = some unit → unit.resource = resource)
    (resource : String) :
    after.store.markers resource =
      if resource ∈ folders then PackageInfo.check session.project files resource
      else if resource ∈ resources then session.found files resource
      else session.store.markers resource := by
  have same : after.store.markers resource =
      (session.recorded files resources folders).markers resource := by
    rw [MarkerStore.markers, MarkerStore.markers, settles.table]
  rw [same, recorded,
    MarkerStore.markers_foldl_replace fun _ _ _ => PackageInfo.resource_of_mem_check,
    MarkerStore.markers_foldl_replace fun r _ _ => resource_of_mem_found (owned r)]

theorem Settles.sound (settles : session.Settles files resources folders pass after done)
    (sound : session.store.Sound) : after.store.Sound :=
  ((sound.foldl_replace _ _).foldl_replace _ _).of_table settles.table

end SpringLint.Session
