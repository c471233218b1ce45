import SpringLint.CommandLine.Run
import SpringLint.Proofs.Project.Linking
import SpringLint.Proofs.Session.Changes

/-! Operations on a session one after another, whatever becomes of the files in between. Each of them,
with or without a result, leaves sources that were parsed and a store that was written by its own
operations, so that the sources and the markers of every such session are in order. What a pass then
finds does not depend on what was done before. -/

namespace SpringLint

/-- The stores that come of their own operations. -/
inductive MarkerStore.Reached : MarkerStore → Prop
  | new : Reached {}
  | openAt {files : FileSystem} {path : String} {store : MarkerStore} :
      MarkerStore.openAt files path = .ok store → Reached store
  | delete {store : MarkerStore} (resource : String) :
      Reached store → Reached (store.delete resource)
  | create {store : MarkerStore} (markers : List Marker) :
      Reached store → Reached (store.create markers)
  | clear {store : MarkerStore} : Reached store → Reached store.clear
  | flush {store written : MarkerStore} {files after : FileSystem} :
      Reached store → store.flush files = (after, .ok written) → Reached written

namespace MarkerStore.Reached

variable {store : MarkerStore}

theorem sound (reached : store.Reached) : store.Sound := by
  induction reached with
  | new => exact .empty none
  | openAt opened => exact .openAt opened
  | delete resource _ ih => exact ih.delete resource
  | create markers _ ih => exact ih.create markers
  | clear _ _ => exact (Sound.empty none).of_table rfl
  | flush _ flushed ih => exact ih.of_table (Session.table_flush flushed)

theorem replace (reached : store.Reached) (resource : String) (markers : List Marker) :
    (store.replace resource markers).Reached :=
  (reached.delete resource).create markers

theorem foldl_delete (reached : store.Reached) (resources : List String) :
    (resources.foldl MarkerStore.delete store).Reached := by
  induction resources generalizing store with
  | nil => exact reached
  | cons resource rest ih => exact ih (reached.delete resource)

end MarkerStore.Reached

namespace Session

variable {session start after : Session} {grammar : Grammar} {files : FileSystem}
  {asked : Nat → Bool}

/-- The sources and the markers of a session come of their own operations, and the settings are those
of the session that it started as. -/
structure Made (start session : Session) (grammar : Grammar) : Prop where
  project : Project.Reached grammar session.project
  store : session.store.Reached
  settings : start.SameSettings session

inductive Operation where
  | analyzeAll (asked : Nat → Bool)
  | analyzeChanges (asked : Nat → Bool) (changes : ChangeSet)
  | clean
  | applyFix (fixer : Fixer) (m : Marker)

/-- The session after an operation on the files as they then are, whether it has a result or not. -/
def Operation.next (grammar : Grammar) (files : FileSystem) (session : Session) :
    Operation → Session
  | .analyzeAll asked => (session.analyzeAllWith grammar files asked).session
  | .analyzeChanges asked changes =>
    (session.analyzeChangesWith grammar files asked changes).session
  | .clean => (session.clean files).session
  | .applyFix fixer m => (session.applyFix grammar files fixer m).session

def following (session : Session) (grammar : Grammar) : List (FileSystem × Operation) → Session
  | [] => session
  | (files, operation) :: rest =>
    (operation.next grammar files session).following grammar rest

namespace Made

theorem kept (made : start.Made session grammar) : session.Kept :=
  ⟨made.project.ascending, made.store.sound⟩

theorem goesOn (made : start.Made session grammar) (project : Project.Reached grammar after.project)
    (store : after.store.Reached) (same : session.SameSettings after) : start.Made after grammar :=
  ⟨project, store, made.settings.trans same⟩

theorem flush {α : Type} (made : start.Made session grammar) (files : FileSystem) (result : α) :
    start.Made (session.flush files result).session grammar := by
  unfold Session.flush
  rcases outcome : session.store.flush files with ⟨written, error | store⟩
  · exact made
  · exact made.goesOn made.project (made.store.flush outcome) ⟨rfl, rfl, rfl, rfl⟩

theorem analyzeUnits {look : Nat} {pass : Pass} (made : start.Made session grammar)
    (resources : List String) :
    start.Made (session.analyzeUnits files asked look pass resources).1 grammar := by
  induction resources generalizing session look pass with
  | nil => exact made.goesOn made.project made.store ⟨rfl, rfl, rfl, rfl⟩
  | cons resource rest ih =>
    rw [Session.analyzeUnits]
    split
    · exact made.goesOn made.project made.store ⟨rfl, rfl, rfl, rfl⟩
    · split
      · exact ih made
      · split
        · exact made
        · exact ih (made.goesOn made.project (made.store.replace resource _) ⟨rfl, rfl, rfl, rfl⟩)

theorem analyzeFolders {pass : Pass} (made : start.Made session grammar) (folders : List String) :
    start.Made (session.analyzeFolders files pass folders).1 grammar := by
  induction folders generalizing session pass with
  | nil => exact made
  | cons folder rest ih =>
    exact ih (made.goesOn made.project (made.store.replace folder _) ⟨rfl, rfl, rfl, rfl⟩)

theorem analyze {pass : Pass} (made : start.Made session grammar) (resources folders : List String) :
    start.Made (session.analyze files asked resources folders pass).session grammar := by
  have middle : start.Made (session.analyzeUnits files asked 0 pass resources).1 grammar :=
    made.analyzeUnits resources
  unfold Session.analyze
  rcases run : session.analyzeUnits files asked 0 pass resources with ⟨after, reached, progress⟩
  rw [run] at middle
  cases progress with
  | crashed => exact middle
  | stopped => exact middle.flush files reached
  | done => exact (middle.analyzeFolders folders).flush files _

theorem analyzeAll (made : start.Made session grammar) (files : FileSystem) (asked : Nat → Bool) :
    start.Made (session.analyzeAllWith grammar files asked).session grammar := by
  have project : Project.Reached grammar (session.prepared grammar files).project :=
    ((made.project.foldl_remove _).load files (session.surveyed files)).relink
  have store : (session.prepared grammar files).store.Reached := by
    refine MarkerStore.Reached.foldl_delete ?_ _
    rw [store_refreshed]
    exact made.store.foldl_delete _
  have prepared := made.goesOn project store (sameSettings_prepared session)
  rw [analyzeAllWith_eq]
  exact prepared.analyze _ _

theorem analyzeChanges (made : start.Made session grammar) (files : FileSystem)
    (asked : Nat → Bool) (changes : ChangeSet) :
    start.Made (session.analyzeChangesWith grammar files asked changes).session grammar := by
  have project : Project.Reached grammar (session.updated grammar files changes).1.project :=
    ((made.project.foldl_remove _).load files (session.loadable changes)).relink
  have store : (session.updated grammar files changes).1.store.Reached := by
    rw [updated, store_reload]
    exact (made.store.foldl_delete _).foldl_delete _
  have updated := made.goesOn project store (sameSettings_updated session grammar files changes)
  rw [analyzeChangesWith_eq]
  exact updated.analyze _ _

theorem applyFix (made : start.Made session grammar) (files : FileSystem) (fixer : Fixer)
    (m : Marker) : start.Made (session.applyFix grammar files fixer m).session grammar := by
  unfold Session.applyFix
  split
  · exact made
  · exact made
  · exact made.analyzeChanges _ _ _

theorem next (made : start.Made session grammar) (files : FileSystem) (operation : Operation) :
    start.Made (operation.next grammar files session) grammar := by
  cases operation with
  | analyzeAll asked => exact made.analyzeAll files asked
  | analyzeChanges asked changes => exact made.analyzeChanges files asked changes
  | clean =>
    have cleared : start.Made { session with store := session.store.clear } grammar :=
      made.goesOn made.project made.store.clear ⟨rfl, rfl, rfl, rfl⟩
    exact cleared.flush files ()
  | applyFix fixer m => exact made.applyFix files fixer m

/-- Operations in a row, with or without results, whatever becomes of the files in between. -/
theorem following (made : start.Made session grammar) (run : List (FileSystem × Operation)) :
    start.Made (session.following grammar run) grammar := by
  induction run generalizing session with
  | nil => exact made
  | cons step rest ih => exact ih (made.next step.1 step.2)

end Made

section Opened

variable {earlier before : FileSystem} {root : String} {config : Config}
  (opened : Command.openSession earlier root config = .ok session)
  (run : List (FileSystem × Operation))

include opened

theorem made_of_opened : session.Made session grammar := by
  unfold Command.openSession at opened
  cases found : MarkerStore.openAt earlier (config.markersFile root) with
  | error _ => simp [found, bind, Except.bind] at opened
  | ok store =>
    cases patterns : config.excludedGlobs with
    | error _ => simp [found, patterns, bind, Except.bind] at opened
    | ok excluded =>
      simp only [found, patterns, bind, Except.bind, pure, Except.pure, Except.ok.injEq] at opened
      subst opened
      exact ⟨.new _, .openAt found, rfl, rfl, rfl, rfl⟩

/-- Whatever has been done with a session since it was opened, a pass over the whole project that
nobody stops brings it up to date. The markers are those that the pass would have given the session as
it was opened. -/
theorem current_following (apart : files.Apart)
    (ended : ((session.following grammar run).analyzeAllWith grammar files asked).result = .ok done)
    (uncancelled : done.isCancelled = false) :
    let after := ((session.following grammar run).analyzeAllWith grammar files asked).session
    after.Current grammar files ∧ done.markers.Perm after.store.all ∧
      ∀ (askedFirst : Nat → Bool) (first : Pass),
        (session.analyzeAllWith grammar files askedFirst).result = .ok first →
        first.isCancelled = false →
        (session.analyzeAllWith grammar files askedFirst).session.store.table =
          after.store.table := by
  intro after
  have made : session.Made session grammar := made_of_opened opened
  have late := made.following run
  obtain ⟨settings, current, reported⟩ := analyzeAll_current late.kept apart ended uncancelled
  refine ⟨current, reported, fun askedFirst first firstEnded firstUncancelled => ?_⟩
  obtain ⟨firstSettings, firstCurrent, -⟩ :=
    analyzeAll_current made.kept apart firstEnded firstUncancelled
  exact current.table_eq firstCurrent ((late.settings.trans settings).symm.trans firstSettings)

/-- A pass over the changes then gives every listed resource, and the folder of every listed resource
of main code, the markers that a pass over the whole project would give the session as it was
opened. -/
theorem markers_following {askedFirst askedFull : Nat → Bool} {first done whole : Pass}
    {changes : ChangeSet} (apartBefore : before.Apart) (apart : files.Apart)
    (firstEnded : ((session.following grammar run).analyzeAllWith grammar before
      askedFirst).result = .ok first)
    (firstUncancelled : first.isCancelled = false)
    (lists : changes.Lists session.project.layout before files)
    (foreseen : session.Foreseen before files changes)
    (ended : (((session.following grammar run).analyzeAllWith grammar before
      askedFirst).session.analyzeChangesWith grammar files asked changes).result = .ok done)
    (uncancelled : done.isCancelled = false)
    (fullEnded : (session.analyzeAllWith grammar files askedFull).result = .ok whole)
    (fullUncancelled : whole.isCancelled = false) (folder : String)
    (concerned : changes.Names folder ∨ ∃ r, changes.Names r ∧
      session.project.layout.classify r = .main ∧ PackageInfo.folderOf? r = some folder) :
    (((session.following grammar run).analyzeAllWith grammar before
      askedFirst).session.analyzeChangesWith grammar files asked changes).session.store.markers
        folder =
      (session.analyzeAllWith grammar files askedFull).session.store.markers folder := by
  have made : session.Made session grammar := made_of_opened opened
  have late := made.following run
  obtain ⟨settings, current, -⟩ :=
    analyzeAll_current late.kept apartBefore firstEnded firstUncancelled
  obtain ⟨fullSettings, fresh, -⟩ := analyzeAll_current made.kept apart fullEnded fullUncancelled
  have same := late.settings.trans settings
  exact markers_agree ended uncancelled current fresh (same.symm.trans fullSettings) apartBefore
    apart (same.layout ▸ lists) (foreseen.of_settings same) folder (same.layout ▸ concerned)

end Opened

end Session

end SpringLint
