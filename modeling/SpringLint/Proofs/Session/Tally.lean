import Mathlib.Data.List.Nodup
import SpringLint.Proofs.Session.Cancellation
import SpringLint.Proofs.Syntax.Splices

/-! What a pass over changes reports against what it stores. The report grows with every entry of the
changes, while the store replaces the markers of a resource. So the two agree on a source that is
analysed unless it is listed more than once, or stands where a checked package had its folder, and
then only if the checks find nothing in it. -/

namespace SpringLint

namespace Pass

def markersOf (pass : Pass) (resource : String) : List Marker :=
  pass.markers.filter (·.resource == resource)

/-- Each source is analysed once, and is reported with the markers that are stored of it. -/
structure Tallies (pass : Pass) (store : MarkerStore) : Prop where
  once : pass.analyzed.Nodup
  stored : ∀ r ∈ pass.analyzed, pass.markersOf r = store.markers r

end Pass

def ChangeSet.mentions (changes : ChangeSet) (resource : String) : Nat :=
  (changes.added ++ changes.changed).count resource

namespace Session

variable {session : Session} {grammar : Grammar} {files : FileSystem} {asked : Nat → Bool}
  {changes : ChangeSet} {done : Pass} {resource : String}

theorem flatten_replicate_eq_self_iff {α : Type} {l : List α} {n : Nat} (positive : 0 < n) :
    (List.replicate n l).flatten = l ↔ l = [] ∨ n = 1 := by
  constructor
  · intro same
    have size : n * l.length = l.length := by simpa using congrArg List.length same
    by_cases none : l = []
    · exact .inl none
    · exact .inr (Nat.eq_of_mul_eq_mul_right (List.length_pos_iff.mpr none) (by omega))
  · rintro (rfl | rfl) <;> simp

def changedFolders (session : Session) (changes : ChangeSet) : List String :=
  session.packageFolders (session.loadable changes ++ changes.removed)

section Changed

variable (ended : (session.analyzeChangesWith grammar files asked changes).result = .ok done)
  (uncancelled : done.isCancelled = false)
include ended uncancelled

theorem analyzed_changes :
    done.analyzed = (session.analyzeChangesWith grammar files asked changes).sources
      (session.loadable changes) :=
  ((analyzeChanges_whole session grammar files asked changes).finished done ended uncancelled).2

theorem count_analyzed (analyzed : resource ∈ done.analyzed) :
    done.analyzed.count resource = changes.mentions resource := by
  rw [analyzed_changes ended uncancelled] at analyzed ⊢
  obtain ⟨read, known⟩ := List.mem_filter.mp analyzed
  calc
    _ = (session.loadable changes).count resource := List.count_filter known
    _ = _ := List.count_filter (List.mem_filter.mp read).2

theorem settles_changes :
    (session.updated grammar files changes).1.Settles files
      ((session.loadable changes).filter fun r =>
        ((session.updated grammar files changes).1.project.unit? r).isSome)
      (session.changedFolders changes) { failures := (session.updated grammar files changes).2 }
      (session.analyzeChangesWith grammar files asked changes).session done := by
  rw [analyzeChangesWith_eq, packageFolders_eq (sameSettings_updated ..)] at ended ⊢
  exact analyze_settles (fun r member => (List.mem_filter.mp member).2) ended uncancelled

/-- The report: what the checks find in the sources, and then what is found in the folders. -/
theorem markers_reported :
    let after := (session.analyzeChangesWith grammar files asked changes).session
    done.markers = done.analyzed.flatMap (after.found files) ++
      (session.changedFolders changes).flatMap (PackageInfo.check after.project files) := by
  intro after
  have settles := settles_changes ended uncancelled
  have same : after.found files = (session.updated grammar files changes).1.found files :=
    funext fun r => by rw [found, found, found?_congr settles.project settles.checks]
  rw [settles.markers, settles.analyzed, same, settles.project]
  rfl

theorem resource_of_mem_reported {m : Marker} (analyzed : resource ∈ done.analyzed)
    (member : m ∈ (session.analyzeChangesWith grammar files asked changes).session.found files
      resource) : m.resource = resource := by
  have settles := settles_changes ended uncancelled
  refine resource_of_mem_found (fun unit told => ?_) member
  rw [analyzed_changes ended uncancelled] at analyzed
  rw [settles.project] at told
  exact (known_reload (Option.isSome_of_eq_some told)).2.2 unit told (List.mem_filter.mp analyzed).1

theorem markersOf_reported (analyzed : resource ∈ done.analyzed) :
    let after := (session.analyzeChangesWith grammar files asked changes).session
    done.markersOf resource =
      (List.replicate (changes.mentions resource) (after.found files resource)).flatten ++
        if resource ∈ session.changedFolders changes then
          PackageInfo.check after.project files resource
        else [] := by
  intro after
  have sources : (done.analyzed.flatMap (after.found files)).filter (·.resource == resource) =
      (List.replicate (done.analyzed.count resource) (after.found files resource)).flatten :=
    MarkerStore.filter_flatMap_eq_replicate
      (fun _ among _ member => resource_of_mem_reported ended uncancelled among member) resource
  have folders : ((session.changedFolders changes).flatMap
        (PackageInfo.check after.project files)).filter (·.resource == resource) =
      if resource ∈ session.changedFolders changes then
        PackageInfo.check after.project files resource
      else [] :=
    MarkerStore.filter_flatMap (nodup_packageFolders ..)
      (fun _ _ _ => PackageInfo.resource_of_mem_check) resource
  rw [Pass.markersOf, markers_reported ended uncancelled, List.filter_append, sources, folders,
    count_analyzed ended uncancelled analyzed]

theorem markers_stored (analyzed : resource ∈ done.analyzed) :
    let after := (session.analyzeChangesWith grammar files asked changes).session
    after.store.markers resource =
      if resource ∈ session.changedFolders changes then
        PackageInfo.check after.project files resource
      else after.found files resource := by
  intro after
  have whole := analyzeChanges_whole session grammar files asked changes
  split
  · rename_i folded
    exact whole.folders done ended uncancelled resource folded
  · rename_i outside
    rcases whole.analyzed done ended resource analyzed with complete | ⟨-, folded⟩
    · change _ = after.found files resource
      rw [found, complete, Option.getD_some]
    · exact absurd folded outside

/-- What is reported of a source is what is stored of it, unless it has findings and either is listed
more than once or is checked as a folder. -/
theorem markersOf_eq_iff (analyzed : resource ∈ done.analyzed) :
    let after := (session.analyzeChangesWith grammar files asked changes).session
    done.markersOf resource = after.store.markers resource ↔
      after.found files resource = [] ∨
        changes.mentions resource = 1 ∧ resource ∉ session.changedFolders changes := by
  intro after
  have positive : 0 < changes.mentions resource := by
    rw [← count_analyzed ended uncancelled analyzed]
    exact List.count_pos_iff.mpr analyzed
  rw [markersOf_reported ended uncancelled analyzed, markers_stored ended uncancelled analyzed]
  by_cases folded : resource ∈ session.changedFolders changes
  · rw [if_pos folded, if_pos folded, List.append_left_eq_self, List.flatten_eq_nil_iff]
    simp [folded, List.mem_replicate, Nat.ne_of_gt positive, after]
  · rw [if_neg folded, if_neg folded, List.append_nil, flatten_replicate_eq_self_iff positive]
    simp [folded, after]

theorem tallies_iff :
    let after := (session.analyzeChangesWith grammar files asked changes).session
    done.Tallies after.store ↔ ∀ r ∈ done.analyzed, changes.mentions r = 1 ∧
      (r ∈ session.changedFolders changes → after.found files r = []) := by
  intro after
  constructor
  · intro tallies r analyzed
    have once := List.nodup_iff_count_eq_one.mp tallies.once r analyzed
    rw [count_analyzed ended uncancelled analyzed] at once
    refine ⟨once, fun folded => ?_⟩
    rcases (markersOf_eq_iff ended uncancelled analyzed).mp (tallies.stored r analyzed) with
      silent | ⟨-, outside⟩
    · exact silent
    · exact absurd folded outside
  · intro clear
    refine ⟨List.nodup_iff_count_eq_one.mpr fun r analyzed => ?_, fun r analyzed => ?_⟩
    · rw [count_analyzed ended uncancelled analyzed]
      exact (clear r analyzed).1
    · obtain ⟨once, silent⟩ := clear r analyzed
      apply (markersOf_eq_iff ended uncancelled analyzed).mpr
      by_cases folded : r ∈ session.changedFolders changes
      · exact .inl (silent folded)
      · exact .inr ⟨once, folded⟩

theorem markers_of_tallies
    (tallies : done.Tallies (session.analyzeChangesWith grammar files asked changes).session.store) :
    done.markers = (done.analyzed.filter (fun r => !(session.changedFolders changes).contains r) ++
        session.changedFolders changes).flatMap
      (session.analyzeChangesWith grammar files asked changes).session.store.markers := by
  have clear := (tallies_iff ended uncancelled).mp tallies
  have whole := analyzeChanges_whole session grammar files asked changes
  rw [markers_reported ended uncancelled, List.flatMap_append, flatMap_filter_eq]
  congr 1
  · apply List.flatMap_congr
    intro r analyzed
    rw [markers_stored ended uncancelled analyzed]
    by_cases folded : r ∈ session.changedFolders changes
    · simp [folded, (clear r analyzed).2 folded]
    · simp [folded]
  · apply List.flatMap_congr
    intro folder folded
    exact (whole.folders done ended uncancelled folder folded).symm

end Changed

/-- A pass over changes that nobody stops analyses the changed sources that could be loaded, and each
as often as the changes list it. It reports of a source what is stored of it unless the source has
findings and is listed more than once or checked as a folder. So each source is analysed once, with
what is stored of it, exactly if each is listed once and those that are checked as folders have no
findings; and then the findings that the pass counts are those stored of the sources and folders. -/
theorem report_tallies_iff
    (ended : (session.analyzeChangesWith grammar files asked changes).result = .ok done)
    (uncancelled : done.isCancelled = false) :
    let after := (session.analyzeChangesWith grammar files asked changes).session
    let folders := session.changedFolders changes
    (∀ r, r ∈ done.analyzed ↔
      r ∈ session.loadable changes ∧ (after.project.unit? r).isSome) ∧
    (∀ r ∈ done.analyzed, done.analyzed.count r = changes.mentions r ∧
      (done.markersOf r = after.store.markers r ↔
        after.found files r = [] ∨ changes.mentions r = 1 ∧ r ∉ folders)) ∧
    (done.Tallies after.store ↔ ∀ r ∈ done.analyzed, changes.mentions r = 1 ∧
      (r ∈ folders → after.found files r = [])) ∧
    (done.Tallies after.store → ∀ severity, done.count severity =
      ((done.analyzed.filter (fun r => !folders.contains r) ++ folders).flatMap fun r =>
        (after.store.markers r).filter fun m => m.severity = severity).length) := by
  intro after folders
  refine ⟨fun r => ?_, fun r analyzed => ?_, tallies_iff ended uncancelled, fun tallies severity => ?_⟩
  · rw [analyzed_changes ended uncancelled]
    exact List.mem_filter
  · exact ⟨count_analyzed ended uncancelled analyzed, markersOf_eq_iff ended uncancelled analyzed⟩
  · rw [Pass.count, markers_of_tallies ended uncancelled tallies, List.filter_flatMap]

def twinChanges : ChangeSet where
  added := ["src/main/java/p/A.java"]
  changed := ["src/main/java/p/B.java"]

def doubledChanges : ChangeSet where
  added := ["src/main/java/p/A.java"]
  changed := ["src/main/java/p/A.java"]

def changedOutcome (changes : ChangeSet) : Outcome Pass :=
  leftoverSession.analyzeChangesWith bareLambdaGrammar twinFiles (fun _ => false) changes

theorem changedOutcome_run :
    (changedOutcome twinChanges).result.toOption.map (fun done => (done.isCancelled, done.analyzed)) =
      some (false, ["src/main/java/p/A.java", "src/main/java/p/B.java"]) ∧
    (changedOutcome doubledChanges).result.toOption.map
        (fun done => (done.isCancelled, done.analyzed)) =
      some (false, ["src/main/java/p/A.java", "src/main/java/p/A.java"]) := by
  decide +kernel

theorem report_tallies_iff_doubled :
    (∃ done, (changedOutcome twinChanges).result = .ok done ∧ done.isCancelled = false ∧
      done.Tallies (changedOutcome twinChanges).session.store) ∧
    ∃ done, (changedOutcome doubledChanges).result = .ok done ∧ done.isCancelled = false ∧
      ¬done.Tallies (changedOutcome doubledChanges).session.store := by
  obtain ⟨twin, doubled⟩ := changedOutcome_run
  obtain ⟨first, firstEnded, firstWhole, firstAnalyzed⟩ := exists_of_map_eq twin
  obtain ⟨second, secondEnded, secondWhole, secondAnalyzed⟩ := exists_of_map_eq doubled
  unfold changedOutcome at firstEnded secondEnded ⊢
  constructor
  · refine ⟨first, firstEnded, firstWhole, ?_⟩
    apply (report_tallies_iff firstEnded firstWhole).2.2.1.mpr
    have folders : leftoverSession.changedFolders twinChanges = ["src/main/java/p"] := by
      decide +kernel
    have apart : ∀ r ∈ ["src/main/java/p/A.java", "src/main/java/p/B.java"],
        twinChanges.mentions r = 1 ∧ r ∉ ["src/main/java/p"] := by decide
    rw [firstAnalyzed, folders]
    intro r analyzed
    obtain ⟨once, outside⟩ := apart r analyzed
    exact ⟨once, fun folded => absurd folded outside⟩
  · refine ⟨second, secondEnded, secondWhole, fun tallies => ?_⟩
    have clear := (report_tallies_iff secondEnded secondWhole).2.2.1.mp tallies
    have once := (clear "src/main/java/p/A.java" (by simp [secondAnalyzed])).1
    revert once
    decide

end Session

end SpringLint
