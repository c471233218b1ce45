import SpringLint.Proofs.Session.Analysis
import SpringLint.Proofs.Syntax.Numbering

/-! Passes over a whole project. What such a pass leaves in the store depends on the files and the
settings only, whatever the project and the store held before. -/

namespace SpringLint.Session

variable {session after other : Session} {grammar : Grammar} {files : FileSystem}
  {asked : Nat → Bool} {done : Pass} {resource : String}

/-- The sources and the markers are kept in order. -/
structure Kept (session : Session) : Prop where
  units : session.project.units.Ascending
  store : session.store.Sound

/-- Two sessions that differ at most in their sources, their markers, their fixes and a wish to
stop. -/
structure SameSettings (session other : Session) : Prop where
  layout : other.project.layout = session.project.layout
  checks : other.checks = session.checks
  checksPackages : other.checksPackages = session.checksPackages
  excluded : other.excluded = session.excluded

namespace SameSettings

theorem symm (same : session.SameSettings other) : other.SameSettings session :=
  ⟨same.layout.symm, same.checks.symm, same.checksPackages.symm, same.excluded.symm⟩

theorem trans {third : Session} (first : session.SameSettings other)
    (second : other.SameSettings third) : session.SameSettings third :=
  ⟨second.layout.trans first.layout, second.checks.trans first.checks,
    second.checksPackages.trans first.checksPackages, second.excluded.trans first.excluded⟩

end SameSettings

theorem Settles.settings {resources folders : List String} {pass : Pass}
    (settles : session.Settles files resources folders pass after done) :
    session.SameSettings after :=
  ⟨by rw [settles.project], settles.checks, settles.checksPackages, settles.excluded⟩

def surveyed (session : Session) (files : FileSystem) : List String :=
  session.project.discover files session.excluded

/-- The folders whose packages a pass over the whole project checks. -/
def surveyedFolders (session : Session) (files : FileSystem) : List String :=
  session.packageFolders (session.surveyed files)

/-- The session once its sources have been read anew, and what could not be loaded. -/
def refreshed (session : Session) (grammar : Grammar) (files : FileSystem) :
    Session × List (String × Error) :=
  let gone := session.project.units.names.filter fun r => !(session.surveyed files).contains r
  { session with project := gone.foldl Project.remove session.project }.reload grammar files
    (session.surveyed files)

/-- The session once the markers of what is gone are deleted as well. -/
def prepared (session : Session) (grammar : Grammar) (files : FileSystem) : Session :=
  let fresh := (session.refreshed grammar files).1
  let stale := fresh.store.table.entries.filterMap fun (resource, markers) =>
    if markers.isEmpty || (session.surveyed files).contains resource ||
      (fresh.packageFolders (session.surveyed files)).contains resource then none
    else some resource
  { fresh with store := stale.foldl MarkerStore.delete fresh.store }

theorem analyzeAllWith_eq (session : Session) (grammar : Grammar) (files : FileSystem)
    (asked : Nat → Bool) :
    session.analyzeAllWith grammar files asked =
      (session.prepared grammar files).analyze files asked
        ((session.surveyed files).filter fun r =>
          ((session.prepared grammar files).project.unit? r).isSome)
        ((session.prepared grammar files).packageFolders (session.surveyed files))
        { failures := (session.refreshed grammar files).2 } := by
  rw [analyzeAllWith]
  rfl

theorem project_prepared (kept : session.Kept) :
    (session.prepared grammar files).project =
      Project.fresh session.project.layout grammar files session.excluded := by
  let bare := (session.project.units.names.filter fun r =>
    !(session.surveyed files).contains r).foldl Project.remove session.project
  have layout : bare.layout = session.project.layout := Project.layout_foldl_remove ..
  have loaded : (bare.load grammar files (session.surveyed files)).1.layout =
      session.project.layout := (Project.layout_load ..).trans layout
  change ((bare.load grammar files (session.surveyed files)).1).relink = _
  rw [← loaded]
  refine Project.relink_eq_fresh
    (Project.ascending_load (Project.ascending_foldl_remove kept.units _) _) fun resource => ?_
  rw [Project.unit?_load, Project.source?_eq loaded, Project.readUnit_eq layout, Project.source?]
  refine ite_congr rfl (fun _ => rfl) fun absent => ?_
  -- What discovery does not find has been removed before.
  rw [Project.unit?_foldl_remove]
  split
  · rfl
  · rename_i spared
    have unlisted : resource ∉ session.project.units.names := fun listed =>
      spared (List.mem_filter.mpr ⟨listed, by simpa [surveyed] using absent⟩)
    rw [Table.mem_names_iff, Bool.not_eq_true, Option.isSome_eq_false_iff,
      Option.isNone_iff_eq_none] at unlisted
    exact unlisted

theorem surveyed_eq (settings : session.SameSettings other) :
    other.surveyed files = session.surveyed files := by
  rw [surveyed, settings.excluded, Project.discover_eq settings.layout]
  rfl

theorem packageFolders_eq (settings : session.SameSettings other) (resources : List String) :
    other.packageFolders resources = session.packageFolders resources := by
  rw [packageFolders, packageFolders, settings.checksPackages, settings.layout]

theorem mem_folders_of_mem {resources : List String}
    (among : resource ∈ session.packageFolders resources) :
    resource ∈ PackageInfo.folders session.project.layout resources := by
  unfold packageFolders at among
  split at among
  · exact among
  · cases among

theorem sameSettings_prepared (session : Session) :
    session.SameSettings (session.prepared grammar files) :=
  ⟨(layout_reload ..).trans (Project.layout_foldl_remove ..), rfl, rfl, rfl⟩

theorem store_refreshed (session : Session) :
    (session.refreshed grammar files).1.store =
      ((session.refreshed grammar files).2.map (·.1)).foldl MarkerStore.delete session.store :=
  store_reload ..

theorem sound_prepared (kept : session.Kept) : (session.prepared grammar files).store.Sound := by
  refine MarkerStore.Sound.foldl_delete ?_ _
  rw [store_refreshed]
  exact kept.store.foldl_delete _

theorem mem_failures_of_none (kept : session.Kept) (listed : resource ∈ session.surveyed files)
    (unknown : (session.prepared grammar files).project.unit? resource = none) :
    resource ∈ (session.refreshed grammar files).2.map (·.1) := by
  rw [project_prepared kept] at unknown
  refine Project.mem_failures_load.mpr ⟨listed, ?_⟩
  rw [Project.readUnit_eq (Project.layout_foldl_remove ..)]
  exact Project.readUnit_of_unknown unknown listed

theorem markers_prepared (kept : session.Kept)
    (unknown : (session.prepared grammar files).project.unit? resource = none)
    (outside : resource ∉ (session.prepared grammar files).packageFolders (session.surveyed files)) :
    (session.prepared grammar files).store.markers resource = [] := by
  change (List.foldl MarkerStore.delete (session.refreshed grammar files).1.store _).markers _ = _
  rw [MarkerStore.markers_foldl_delete]
  split
  · rfl
  · rename_i spared
    by_cases listed : resource ∈ session.surveyed files
    · rw [store_refreshed, MarkerStore.markers_foldl_delete,
        if_pos (mem_failures_of_none kept listed unknown)]
    · -- A resource that still has markers would be stale.
      refine Classical.byContradiction fun left => ?_
      have marked : (session.refreshed grammar files).1.store.table.get? resource =
          some ((session.refreshed grammar files).1.store.markers resource) := by
        rw [MarkerStore.markers] at left ⊢
        cases found : (session.refreshed grammar files).1.store.table.get? resource with
        | none => simp [found] at left
        | some markers => rfl
      refine spared (List.mem_filterMap.mpr ⟨_, Table.mem_of_get? marked, ?_⟩)
      have free : (session.refreshed grammar files).1.packageFolders (session.surveyed files) =
          (session.prepared grammar files).packageFolders (session.surveyed files) := rfl
      simp [left, listed, free, outside]

/-- The session holds the sources that are there, and the markers that they deserve: a source has
those of the checks, a folder of a package those of the package check, and nothing else has any. -/
structure Current (session : Session) (grammar : Grammar) (files : FileSystem) : Prop where
  project : session.project =
    Project.fresh session.project.layout grammar files session.excluded
  store : session.store.Sound
  sources : ∀ resource unit, session.project.unit? resource = some unit →
    session.unitMarkers? files unit = some (session.store.markers resource)
  folders : ∀ folder ∈ session.surveyedFolders files,
    session.store.markers folder = PackageInfo.check session.project files folder
  others : ∀ resource, session.project.unit? resource = none →
    resource ∉ session.surveyedFolders files → session.store.markers resource = []

theorem owned_prepared (kept : session.Kept) (resource : String) (unit : SourceUnit)
    (known : (session.prepared grammar files).project.unit? resource = some unit) :
    unit.resource = resource :=
  Project.resource_fresh (project_prepared kept ▸ known)

theorem surveyed_of_known (kept : session.Kept)
    (known : ((session.prepared grammar files).project.unit? resource).isSome) :
    resource ∈ session.surveyed files := by
  rw [project_prepared kept] at known
  have both := (Project.isSome_unit?_fresh session.project.layout session.excluded _).mp known
  rw [Project.discover_eq (Project.layout_fresh ..)] at both
  exact both.1

theorem unknown_of_folder (kept : session.Kept) (apart : files.Apart)
    (among : resource ∈ (session.prepared grammar files).packageFolders (session.surveyed files)) :
    (session.prepared grammar files).project.unit? resource = none := by
  refine Option.not_isSome_iff_eq_none.mp fun known => ?_
  exact Project.not_mem_discover_of_folder session.project _ apart (mem_folders_of_mem among)
    (surveyed_of_known kept known)

theorem nodup_packageFolders (session : Session) (resources : List String) :
    (session.packageFolders resources).Nodup := by
  unfold packageFolders
  split
  · exact PackageInfo.nodup_folders
  · exact List.nodup_nil

theorem found_eq_some {unit : SourceUnit} (known : session.project.unit? resource = some unit)
    (answered : (session.found? files resource).isSome) :
    session.unitMarkers? files unit = some (session.found files resource) := by
  rw [found, found?, known, Option.bind_some] at *
  obtain ⟨markers, same⟩ := Option.isSome_iff_exists.mp answered
  rw [same, Option.getD_some]

/-- A pass over the whole project that nobody stops brings the session up to date. -/
theorem analyzeAll_current (kept : session.Kept) (apart : files.Apart)
    (ended : (session.analyzeAllWith grammar files asked).result = .ok done)
    (uncancelled : done.isCancelled = false) :
    let after := (session.analyzeAllWith grammar files asked).session
    session.SameSettings after ∧ after.Current grammar files ∧
      done.markers.Perm after.store.all := by
  rw [analyzeAllWith_eq] at ended ⊢
  have settles := analyze_settles (fun r member => (List.mem_filter.mp member).2) ended uncancelled
  generalize (session.prepared grammar files).analyze files asked _ _ _ = outcome at settles
  have base : session.SameSettings (session.prepared grammar files) := sameSettings_prepared session
  have settings : session.SameSettings outcome.session :=
    base.trans settles.settings
  have folders : outcome.session.surveyedFolders files =
      (session.prepared grammar files).packageFolders (session.surveyed files) := by
    rw [surveyedFolders, surveyed_eq settings, packageFolders_eq settings, packageFolders_eq base]
  have source : ∀ r, r ∈ (session.surveyed files).filter (fun r =>
      ((session.prepared grammar files).project.unit? r).isSome) ↔
      ((session.prepared grammar files).project.unit? r).isSome := fun r => by
    rw [List.mem_filter, and_iff_right_iff_imp]
    exact surveyed_of_known kept
  have markers := settles.markers_eq (owned_prepared kept)
  have sound := settles.sound (sound_prepared kept)
  refine ⟨settings, ⟨?_, sound, ?_, ?_, ?_⟩, ?_⟩
  · rw [settings.layout, settings.excluded]
    exact settles.project.trans (project_prepared kept)
  · intro r unit known
    rw [settles.project] at known
    have among := (source r).mpr (Option.isSome_of_eq_some known)
    have outside : r ∉ (session.prepared grammar files).packageFolders (session.surveyed files) :=
      fun folded => by simp [unknown_of_folder kept apart folded] at known
    rw [markers, if_neg outside, if_pos among, ← found_eq_some known (settles.answered r among)]
    simp only [unitMarkers?, settles.checks, settles.project]
  · intro folder among
    rw [folders] at among
    rw [markers, if_pos among, settles.project]
  · intro r unknown outside
    rw [settles.project] at unknown
    rw [folders] at outside
    rw [markers, if_neg outside, if_neg fun among => by simp [source, unknown] at among,
      markers_prepared kept unknown outside]
  · refine sound.perm_all fun r => ?_
    have once : ((session.surveyed files).filter fun r =>
        ((session.prepared grammar files).project.unit? r).isSome).Nodup :=
      (Project.discover_nodup apart).filter _
    rw [settles.markers, markers, List.nil_append, List.filter_append,
      MarkerStore.filter_flatMap once fun r _ _ => resource_of_mem_found (owned_prepared kept r),
      MarkerStore.filter_flatMap (nodup_packageFolders _ _) fun _ _ _ =>
        PackageInfo.resource_of_mem_check]
    by_cases folded : r ∈ (session.prepared grammar files).packageFolders (session.surveyed files)
    · simp [folded, source, unknown_of_folder kept apart folded]
    · by_cases among : ((session.prepared grammar files).project.unit? r).isSome
      · simp [folded, source, among]
      · rw [if_neg folded, if_neg folded, if_neg (mt (source r).mp among),
          if_neg (mt (source r).mp among),
          markers_prepared kept (Option.not_isSome_iff_eq_none.mp among) folded]
        rfl

namespace Current

theorem kept (current : session.Current grammar files) : session.Kept :=
  ⟨by rw [current.project]; exact Project.ascending_fresh .., current.store⟩

/-- Nothing but the files and the settings tells the markers of a session that is up to date. -/
theorem markers_eq (first : session.Current grammar files) (second : other.Current grammar files)
    (same : session.SameSettings other) (resource : String) :
    other.store.markers resource = session.store.markers resource := by
  have project : other.project = session.project := by
    rw [second.project, first.project, same.layout, same.excluded]
  have folders : other.surveyedFolders files = session.surveyedFolders files := by
    rw [surveyedFolders, surveyed_eq same, packageFolders_eq same, surveyedFolders]
  cases known : session.project.unit? resource with
  | some unit =>
    have fresh := first.sources resource unit known
    have again := second.sources resource unit (by rw [project, known])
    have alike : other.unitMarkers? files unit = session.unitMarkers? files unit := by
      simp only [unitMarkers?, project, same.checks]
    rw [alike, fresh, Option.some.injEq] at again
    exact again.symm
  | none =>
    by_cases folded : resource ∈ session.surveyedFolders files
    · rw [first.folders resource folded, second.folders resource (by rwa [folders]), project]
    · rw [first.others resource known folded,
        second.others resource (by rw [project, known]) (by rwa [folders])]

theorem table_eq (first : session.Current grammar files) (second : other.Current grammar files)
    (same : session.SameSettings other) : other.store.table = session.store.table :=
  second.store.table_eq first.store (first.markers_eq second same)

end Current

/-- After a pass over the whole project that nobody stops, a resource that was found and loaded has
the markers of the checks, a folder of a package those of the package check, and nothing else has
any. They are the markers that the pass reports. Another session with the same settings comes to the
same markers from any sources and markers that it held before, and so does a second pass. -/
theorem analyzeAll_leaves_current_markers (kept : session.Kept) (apart : files.Apart)
    (ended : (session.analyzeAllWith grammar files asked).result = .ok done)
    (uncancelled : done.isCancelled = false) :
    let after := (session.analyzeAllWith grammar files asked).session
    session.SameSettings after ∧
      (∀ resource, (after.project.unit? resource).isSome ↔
        resource ∈ session.surveyed files ∧
          (session.project.readUnit grammar files resource).toOption.isSome) ∧
      (∀ resource unit, after.project.unit? resource = some unit →
        after.unitMarkers? files unit = some (after.store.markers resource)) ∧
      (∀ folder ∈ session.surveyedFolders files,
        after.store.markers folder = PackageInfo.check after.project files folder) ∧
      (∀ resource, after.project.unit? resource = none →
        resource ∉ session.surveyedFolders files → after.store.markers resource = []) ∧
      done.markers.Perm after.store.all ∧
      (∀ (other : Session) (otherAsked : Nat → Bool) (otherDone : Pass),
        session.SameSettings other → other.Kept →
        (other.analyzeAllWith grammar files otherAsked).result = .ok otherDone →
        otherDone.isCancelled = false →
        (other.analyzeAllWith grammar files otherAsked).session.store.table = after.store.table) ∧
      ∀ (again : Nat → Bool) (secondDone : Pass),
        (after.analyzeAllWith grammar files again).result = .ok secondDone →
        secondDone.isCancelled = false →
        (after.analyzeAllWith grammar files again).session.store.table = after.store.table := by
  intro after
  obtain ⟨settings, current, reported⟩ := analyzeAll_current kept apart ended uncancelled
  have folders : after.surveyedFolders files = session.surveyedFolders files := by
    rw [surveyedFolders, surveyed_eq settings, packageFolders_eq settings, surveyedFolders]
  refine ⟨settings, fun resource => ?_, current.sources, folders ▸ current.folders,
    folders ▸ current.others, reported, ?_, ?_⟩
  · rw [current.project, Project.isSome_unit?_fresh, Project.discover_eq (Project.layout_fresh ..),
      Project.readUnit_eq (Project.layout_fresh ..), settings.excluded,
      Project.discover_eq settings.layout, Project.readUnit_eq settings.layout]
    rfl
  · intro other otherAsked otherDone same otherKept otherEnded otherWhole
    obtain ⟨otherSettings, otherCurrent, -⟩ :=
      analyzeAll_current otherKept apart otherEnded otherWhole
    exact current.table_eq otherCurrent (settings.symm.trans (same.trans otherSettings))
  · intro again secondDone secondEnded secondWhole
    obtain ⟨secondSettings, second, -⟩ :=
      analyzeAll_current current.kept apart secondEnded secondWhole
    exact current.table_eq second secondSettings

theorem exists_of_map_isCancelled {result : Except Halt Pass}
    (ended : result.toOption.map (·.isCancelled) = some false) :
    ∃ done, result = .ok done ∧ done.isCancelled = false := by
  cases result with
  | error _ => simp [Except.toOption] at ended
  | ok done => exact ⟨done, rfl, by simpa [Except.toOption] using ended⟩

section Leftover

open ParseTree (token leaf)

def bareLambda : String := "package p; public class A \x7b F f = v -> v; \x7d"

def bareLambdaParse : Parse where
  tree := .node "program" true ⟨0, 43⟩ none [
    .node "package_declaration" true ⟨0, 10⟩ none
      [token "package" 0, leaf none "identifier" 8 9, token ";" 9],
    .node "class_declaration" true ⟨11, 43⟩ none [
      .node "modifiers" true ⟨11, 17⟩ none [token "public" 11],
      token "class" 18,
      leaf (some "name") "identifier" 24 25,
      .node "class_body" true ⟨26, 43⟩ (some "body") [
        token "\x7b" 26,
        .node "field_declaration" true ⟨28, 41⟩ none [
          leaf (some "type") "type_identifier" 28 29,
          .node "variable_declarator" true ⟨30, 40⟩ (some "declarator") [
            leaf (some "name") "identifier" 30 31,
            token "=" 32,
            .node "lambda_expression" true ⟨34, 40⟩ (some "value") [
              leaf (some "parameters") "identifier" 34 35,
              token "->" 36,
              leaf (some "body") "identifier" 39 40]],
          token ";" 40],
        token "\x7d" 42]]]
  hasErrors := false

def bareLambdaGrammar : Grammar := fun text =>
  if text = bareLambda then some bareLambdaParse else none

def leftoverFiles : FileSystem where
  entries := { entries := [
    ("/r", .folder), ("/r/src", .folder), ("/r/src/main", .folder), ("/r/src/main/java", .folder),
    ("/r/src/main/java/p", .folder),
    ("/r/src/main/java/p/A.java", .file bareLambda.toUTF8),
    ("/r/src/main/java/p/B.java", .file ⟨#[255]⟩)] }

def leftoverSession : Session where
  project := { layout := { root := "/r" } }
  store := ({} : MarkerStore).create
    (["src/main/java/p/A.java", "src/main/java/p/B.java", "src/main/java/p/C.java"].map fun resource =>
      .ofResource resource .missingPackageInfo .error [])
  checks := [.lambdaParameterParentheses]

def leftoverOutcome : Outcome Pass :=
  leftoverSession.analyzeAllWith bareLambdaGrammar leftoverFiles fun _ => false

theorem leftoverOutcome_run :
    leftoverOutcome.result.toOption.map (·.isCancelled) = some false ∧
      leftoverOutcome.session.store.table.names =
        ["src/main/java/p", "src/main/java/p/A.java"] := by
  decide +kernel

theorem leftoverSession_kept : leftoverSession.Kept :=
  ⟨by decide, by decide⟩

theorem leftoverFiles_apart : leftoverFiles.Apart := by
  decide +kernel

/-- Only the readable source and its package are marked in the end. -/
theorem analyzeAll_leaves_current_markers_leftover :
    (leftoverSession.Kept ∧ leftoverFiles.Apart) ∧
      leftoverOutcome.session.store.table.names = ["src/main/java/p", "src/main/java/p/A.java"] ∧
      ∃ done, (leftoverOutcome.result = .ok done ∧ done.isCancelled = false) ∧
        done.markers.Perm leftoverOutcome.session.store.all := by
  have kept := leftoverSession_kept
  have apart := leftoverFiles_apart
  obtain ⟨run, names⟩ := leftoverOutcome_run
  obtain ⟨done, ended, whole⟩ := exists_of_map_isCancelled run
  refine ⟨⟨kept, apart⟩, names, done, ⟨ended, whole⟩, ?_⟩
  unfold leftoverOutcome at ended ⊢
  obtain ⟨-, -, -, -, -, reported, -⟩ := analyzeAll_leaves_current_markers kept apart ended whole
  exact reported

end Leftover

end SpringLint.Session
