import SpringLint.Proofs.Session.Changes

/-! Passes that are stopped. A look before each source is the only place where a wish to stop counts,
so a source has either the markers that it had or all that the checks find. -/

namespace SpringLint

/-- The sources among the resources that a pass read, once it is over. -/
def Outcome.sources (outcome : Outcome Pass) (read : List String) : List String :=
  read.filter fun r => (outcome.session.project.unit? r).isSome

namespace Session

variable {session after : Session} {grammar : Grammar} {files : FileSystem} {asked : Nat → Bool}
  {changes : ChangeSet} {pass done : Pass} {resources folders : List String} {resource : String}
  {unit : SourceUnit}

/-- Whether a look that comes after idle ones only finds a wish to stop. -/
def isRaised (session : Session) (asked : Nat → Bool) (look : Nat) : Bool :=
  session.stopAsked || asked look

/-- An analysis of sources that has recorded the first `n` of them. -/
structure Records (session : Session) (files : FileSystem) (resources : List String) (n : Nat)
    (pass : Pass) (after : Session) (done : Pass) : Prop where
  answered : ∀ resource ∈ resources.take n, (session.found? files resource).isSome
  state : after = { session with
    store := (resources.take n).foldl
      (fun store resource => store.replace resource (session.found files resource)) session.store
    stopAsked := after.stopAsked }
  analyzed : done.analyzed = pass.analyzed ++ resources.take n

/-- Where an analysis that starts at a look ends. A wish to stop that ends it is used up, one that
comes after the last source is left. -/
structure EndsAt (session : Session) (asked : Nat → Bool) (look : Nat) (resources : List String)
    (n : Nat) (pass : Pass) (after : Session) (done : Pass) (progress : Progress) : Prop where
  idle : ∀ i < n, session.isRaised asked (look + i) = false
  stopped : progress = .stopped → n < resources.length ∧
    session.isRaised asked (look + n) = true ∧ done.isCancelled = true ∧ after.stopAsked = false
  done : progress = .done → n = resources.length ∧
    done.isCancelled = pass.isCancelled ∧ after.stopAsked = session.isRaised asked (look + n)

theorem Records.cons {markers : List Marker} {n : Nat} {further : Pass}
    (first : session.found? files resource = some markers)
    (grown : further.analyzed = pass.analyzed ++ [resource])
    (records : ({ session with store := session.store.replace resource markers } : Session).Records
      files resources n further after done) :
    session.Records files (resource :: resources) (n + 1) pass after done where
  answered := List.forall_mem_cons.mpr ⟨by rw [first]; rfl, records.answered⟩
  state := by
    have own : session.found files resource = markers := by rw [found, first, Option.getD_some]
    rw [List.take_succ_cons, List.foldl_cons, own]
    exact records.state
  analyzed := by
    rw [records.analyzed, grown, List.take_succ_cons, List.append_assoc]
    rfl

theorem EndsAt.cons {store : MarkerStore} {look n : Nat} {further : Pass} {progress : Progress}
    (calm : session.isRaised asked look = false)
    (ends : ({ session with store := store } : Session).EndsAt asked (look + 1) resources n further
      after done progress)
    (same : further.isCancelled = pass.isCancelled) :
    session.EndsAt asked look (resource :: resources) (n + 1) pass after done progress where
  idle i early := by
    cases i with
    | zero => exact calm
    | succ i =>
      rw [← Nat.add_assoc, Nat.add_right_comm]
      exact ends.idle i (Nat.lt_of_succ_lt_succ early)
  stopped stopped := by
    obtain ⟨early, raised, rest⟩ := ends.stopped stopped
    rw [Nat.add_right_comm] at raised
    exact ⟨Nat.succ_lt_succ early, raised, rest⟩
  done finished := by
    obtain ⟨all, uncancelled, left⟩ := ends.done finished
    rw [Nat.add_right_comm] at left
    exact ⟨congrArg Nat.succ all, uncancelled.trans same, left⟩

/-- The analysis of sources records a part of them from the front, and each of these in full. -/
theorem analyzeUnits_records {look : Nat} {progress : Progress}
    (known : ∀ resource ∈ resources, (session.project.unit? resource).isSome)
    (run : session.analyzeUnits files asked look pass resources = (after, done, progress)) :
    ∃ n, session.Records files resources n pass after done ∧
      session.EndsAt asked look resources n pass after done progress := by
  induction resources generalizing session look pass with
  | nil =>
    simp only [analyzeUnits, Prod.mk.injEq] at run
    obtain ⟨rfl, rfl, rfl⟩ := run
    exact ⟨0, ⟨by simp, rfl, by simp⟩, by simp, by simp, by simp [isRaised]⟩
  | cons resource rest ih =>
    rw [analyzeUnits] at run
    split at run
    · rename_i raised
      cases run
      exact ⟨0, ⟨by simp, rfl, by simp⟩, by simp, by simp [isRaised, raised], by simp⟩
    · rename_i calm
      replace calm : session.isRaised asked look = false := by simpa [isRaised] using calm
      obtain ⟨unit, source⟩ := Option.isSome_iff_exists.mp (known resource (List.mem_cons_self ..))
      simp only [source] at run
      cases answer : session.unitMarkers? files unit with
      | none =>
        simp only [answer, Prod.mk.injEq] at run
        obtain ⟨rfl, rfl, rfl⟩ := run
        exact ⟨0, ⟨by simp, rfl, by simp⟩, by simp, by simp, by simp⟩
      | some markers =>
        simp only [answer] at run
        have first : session.found? files resource = some markers := by
          rw [found?, source, Option.bind_some, answer]
        obtain ⟨n, records, ends⟩ :=
          @ih { session with store := session.store.replace resource markers } _ _
            (fun r member => known r (List.mem_cons_of_mem _ member)) run
        exact ⟨n + 1, records.cons first rfl, ends.cons calm rfl⟩

theorem session_flush {α : Type} (session : Session) (files : FileSystem) (value : α) :
    ∃ written : MarkerStore, written.table = session.store.table ∧
      (session.flush files value).session = { session with store := written } := by
  unfold flush
  rcases outcome : session.store.flush files with ⟨left, error | store⟩
  · exact ⟨session.store, rfl, rfl⟩
  · exact ⟨store, table_flush outcome, rfl⟩

/-- What an analysis leaves that has recorded the first `n` sources and the folders `checked`. -/
structure Leaves (session : Session) (files : FileSystem) (asked : Nat → Bool)
    (resources folders : List String) (n : Nat) (checked : List String) (outcome : Outcome Pass) :
    Prop where
  project : outcome.session.project = session.project
  checks : outcome.session.checks = session.checks
  among : ∀ folder ∈ checked, folder ∈ folders
  answered : ∀ resource ∈ resources.take n, (session.found? files resource).isSome
  markers : ∀ resource, outcome.session.store.markers resource =
    if resource ∈ checked then PackageInfo.check session.project files resource
    else if resource ∈ resources.take n then session.found files resource
    else session.store.markers resource
  idle : ∀ i < n, session.isRaised asked i = false
  result : ∀ done, outcome.result = .ok done → done.analyzed = resources.take n ∧
    ((done.isCancelled = true ∧ n < resources.length ∧ session.isRaised asked n = true ∧
        outcome.session.stopAsked = false ∧ checked = []) ∨
      (done.isCancelled = false ∧ n = resources.length ∧
        outcome.session.stopAsked = session.isRaised asked n ∧ checked = folders))

theorem Leaves.flush {n : Nat} {checked : List String}
    (leaves : session.Leaves files asked resources folders n checked
      { session := after, files := files, result := .ok done }) :
    session.Leaves files asked resources folders n checked (after.flush files done) := by
  obtain ⟨written, table, state⟩ := session_flush after files done
  refine ⟨?_, ?_, leaves.among, leaves.answered, fun r => ?_, leaves.idle, fun final ended => ?_⟩
  · rw [state]
    exact leaves.project
  · rw [state]
    exact leaves.checks
  · rw [state, ← leaves.markers r, MarkerStore.markers, MarkerStore.markers, table]
  · rw [state, (flush_ok ended).1]
    exact leaves.result done rfl

theorem analyze_leaves (known : ∀ resource ∈ resources, (session.project.unit? resource).isSome)
    (owned : ∀ resource ∈ resources, ∀ unit, session.project.unit? resource = some unit →
      unit.resource = resource)
    (fresh : pass.analyzed = [] ∧ pass.isCancelled = false) :
    ∃ n checked, session.Leaves files asked resources folders n checked
      (session.analyze files asked resources folders pass) := by
  unfold analyze
  rcases run : session.analyzeUnits files asked 0 pass resources with ⟨middle, reached, progress⟩
  obtain ⟨n, records, ends⟩ := analyzeUnits_records known run
  have project : middle.project = session.project := by rw [records.state]
  have checks : middle.checks = session.checks := by rw [records.state]
  have analyzed : reached.analyzed = resources.take n := by
    rw [records.analyzed, fresh.1, List.nil_append]
  have markers : ∀ resource, middle.store.markers resource =
      if resource ∈ resources.take n then session.found files resource
      else session.store.markers resource := fun resource => by
    rw [records.state]
    exact MarkerStore.markers_foldl_replace (fun r member _ => resource_of_mem_found
      (owned r (List.mem_of_mem_take member))) session.store resource
  obtain ⟨idle, stopped, finished⟩ := ends
  simp only [Nat.zero_add] at idle stopped finished
  cases progress with
  | crashed =>
    exact ⟨n, [], project, checks, nofun, records.answered, by simpa using markers, idle, nofun⟩
  | stopped =>
    obtain ⟨early, raised, cancelled, used⟩ := stopped rfl
    refine ⟨n, [], .flush ⟨project, checks, nofun, records.answered, by simpa using markers, idle, ?_⟩⟩
    intro _ same
    cases same
    exact ⟨analyzed, .inl ⟨cancelled, early, raised, used, rfl⟩⟩
  | done =>
    obtain ⟨whole, uncancelled, left⟩ := finished rfl
    dsimp only
    rw [analyzeFolders_eq]
    refine ⟨n, folders, .flush ⟨project, checks, fun _ among => among, records.answered, fun r => ?_,
      idle, ?_⟩⟩
    · rw [← markers, ← project]
      exact MarkerStore.markers_foldl_replace
        (fun _ _ _ => PackageInfo.resource_of_mem_check) middle.store r
    · intro _ same
      cases same
      exact ⟨analyzed, .inr ⟨uncancelled.trans fresh.2, whole, left, rfl⟩⟩

/-- A pass that may have been stopped leaves no source with a part of its markers, and says whether
it used up a wish to stop. A folder that it checks stands outside. -/
structure Whole (before : Session) (files : FileSystem) (asked : Nat → Bool)
    (removed read folders : List String) (outcome : Outcome Pass) : Prop where
  sources : ∀ r, (outcome.session.project.unit? r).isSome → r ∉ removed →
    outcome.session.store.markers r = before.store.markers r ∨
    outcome.session.found? files r = some (outcome.session.store.markers r) ∨
    r ∈ folders ∧ outcome.session.store.markers r = PackageInfo.check outcome.session.project files r
  analyzed : ∀ done, outcome.result = .ok done → ∀ r ∈ done.analyzed,
    outcome.session.found? files r = some (outcome.session.store.markers r) ∨
    done.isCancelled = false ∧ r ∈ folders
  folders : ∀ done, outcome.result = .ok done → done.isCancelled = false → ∀ r ∈ folders,
    outcome.session.store.markers r = PackageInfo.check outcome.session.project files r
  cancelled : ∀ done, outcome.result = .ok done →
    (done.isCancelled = true ↔ ∃ n < (outcome.sources read).length, before.isRaised asked n = true)
  stopped : ∀ done, outcome.result = .ok done → done.isCancelled = true →
    outcome.session.stopAsked = false ∧ ∃ n < (outcome.sources read).length,
      done.analyzed = (outcome.sources read).take n ∧ before.isRaised asked n = true ∧
      ∀ i < n, before.isRaised asked i = false
  finished : ∀ done, outcome.result = .ok done → done.isCancelled = false →
    outcome.session.stopAsked = before.isRaised asked (outcome.sources read).length ∧
      done.analyzed = outcome.sources read

theorem found?_congr (project : after.project = session.project)
    (checks : after.checks = session.checks) (resource : String) :
    after.found? files resource = session.found? files resource := by
  rw [found?, found?, project]
  refine congrArg (Option.bind _) (funext fun unit => ?_)
  rw [unitMarkers?, unitMarkers?, project, checks]

theorem Leaves.whole {before : Session} {removed read : List String} {n : Nat}
    {checked : List String} {outcome : Outcome Pass}
    (leaves : session.Leaves files asked (outcome.sources read) folders n checked outcome)
    (flag : session.stopAsked = before.stopAsked)
    (stored : ∀ r, (session.project.unit? r).isSome → r ∉ removed →
      session.store.markers r = before.store.markers r) :
    before.Whole files asked removed read folders outcome := by
  have raised : ∀ look, before.isRaised asked look = session.isRaised asked look := fun look => by
    rw [isRaised, isRaised, flag]
  have again : ∀ r, outcome.session.found? files r = session.found? files r :=
    found?_congr leaves.project leaves.checks
  have complete : ∀ r ∈ (outcome.sources read).take n,
      session.found? files r = some (session.found files r) := fun r member => by
    obtain ⟨markers, same⟩ := Option.isSome_iff_exists.mp (leaves.answered r member)
    rw [found, same, Option.getD_some]
  constructor
  case sources =>
    intro r known left
    rw [leaves.project] at known ⊢
    rw [again, leaves.markers r]
    split
    · rename_i folded
      exact .inr (.inr ⟨leaves.among r folded, rfl⟩)
    · split
      · rename_i member
        exact .inr (.inl (complete r member))
      · exact .inl (stored r known left)
  case analyzed =>
    intro done ended r member
    obtain ⟨analyzed, ending⟩ := leaves.result done ended
    rw [analyzed] at member
    rw [again, leaves.markers r, complete r member, if_pos member]
    split
    · rename_i folded
      rcases ending with ⟨-, -, -, -, none⟩ | ⟨uncancelled, -⟩
      · rw [none] at folded
        cases folded
      · exact .inr ⟨uncancelled, leaves.among r folded⟩
    · exact .inl rfl
  case folders =>
    intro done ended uncancelled r folded
    rcases (leaves.result done ended).2 with ⟨cancelled, -⟩ | ⟨-, -, -, all⟩
    · simp [uncancelled] at cancelled
    · rw [leaves.markers r, all, if_pos folded, leaves.project]
  case cancelled =>
    intro done ended
    simp only [raised]
    rcases (leaves.result done ended).2 with ⟨cancelled, early, found, -⟩ | ⟨uncancelled, whole, -⟩
    · exact ⟨fun _ => ⟨n, early, found⟩, fun _ => cancelled⟩
    · rw [uncancelled]
      constructor
      · intro never
        cases never
      · rintro ⟨i, early, found⟩
        rw [leaves.idle i (whole ▸ early)] at found
        cases found
  case stopped =>
    intro done ended cancelled
    simp only [raised]
    obtain ⟨analyzed, ⟨-, early, found, used, -⟩ | ⟨uncancelled, -⟩⟩ := leaves.result done ended
    · exact ⟨used, n, early, analyzed, found, leaves.idle⟩
    · simp [uncancelled] at cancelled
  case finished =>
    intro done ended uncancelled
    rw [raised]
    obtain ⟨analyzed, ⟨cancelled, -⟩ | ⟨-, whole, left, -⟩⟩ := leaves.result done ended
    · simp [uncancelled] at cancelled
    · rw [← whole, analyzed, whole, List.take_length]
      exact ⟨whole ▸ left, rfl⟩

theorem analyze_whole {before : Session} {removed read : List String}
    (owned : ∀ resource ∈ read, ∀ unit, session.project.unit? resource = some unit →
      unit.resource = resource)
    (flag : session.stopAsked = before.stopAsked)
    (stored : ∀ r, (session.project.unit? r).isSome → r ∉ removed →
      session.store.markers r = before.store.markers r)
    (fresh : pass.analyzed = [] ∧ pass.isCancelled = false) :
    before.Whole files asked removed read folders (session.analyze files asked
      (read.filter fun r => (session.project.unit? r).isSome) folders pass) := by
  obtain ⟨n, checked, leaves⟩ := @analyze_leaves session files asked pass _ folders
    (fun r member => (List.mem_filter.mp member).2)
    (fun r member => owned r (List.mem_filter.mp member).1) fresh
  generalize session.analyze files asked _ folders pass = outcome at leaves ⊢
  have sources : outcome.sources read = read.filter fun r => (session.project.unit? r).isSome := by
    rw [Outcome.sources, leaves.project]
  rw [← sources] at leaves
  exact leaves.whole flag stored

theorem known_reload {session : Session}
    (known : ((session.reload grammar files resources).1.project.unit? resource).isSome) :
    resource ∉ (session.reload grammar files resources).2.map (·.1) ∧
      (resource ∉ resources → (session.project.unit? resource).isSome) ∧
      ∀ unit, (session.reload grammar files resources).1.project.unit? resource = some unit →
        resource ∈ resources → unit.resource = resource := by
  change ((Project.relink (session.project.load grammar files resources).1).unit? resource).isSome
    at known
  rw [Project.unit?_relink, Option.isSome_map, Project.unit?_load] at known
  refine ⟨fun failed => ?_, fun unread => ?_, fun unit told read => ?_⟩
  · obtain ⟨read, lost⟩ := Project.mem_failures_load.mp failed
    simp [read, lost] at known
  · rwa [if_neg unread] at known
  · change (Project.relink (session.project.load grammar files resources).1).unit? resource = _ at told
    rw [Project.unit?_relink, Project.unit?_load, if_pos read] at told
    obtain ⟨source, taken, rfl⟩ := Option.map_eq_some_iff.mp told
    cases outcome : session.project.readUnit grammar files resource with
    | error _ => simp [outcome, Except.toOption] at taken
    | ok source =>
      rw [outcome] at taken
      cases taken
      have own : source.resource = resource := Project.resource_readUnit outcome
      exact own

def spared (session : Session) (files : FileSystem) : Session :=
  let gone := session.project.units.names.filter fun r => !(session.surveyed files).contains r
  { session with project := gone.foldl Project.remove session.project }

theorem surveyed_of_spared (known : ((session.spared files).project.unit? resource).isSome) :
    resource ∈ session.surveyed files := by
  refine Classical.byContradiction fun absent => ?_
  rw [spared, Project.unit?_foldl_remove] at known
  split at known
  · cases known
  · rename_i left
    exact left (List.mem_filter.mpr ⟨Table.mem_names_iff.mpr known, by simpa using absent⟩)

theorem refreshed_eq (session : Session) (grammar : Grammar) (files : FileSystem) :
    session.refreshed grammar files =
      (session.spared files).reload grammar files (session.surveyed files) :=
  rfl

theorem project_prepared_eq (session : Session) (grammar : Grammar) (files : FileSystem) :
    (session.prepared grammar files).project = (session.refreshed grammar files).1.project :=
  rfl

theorem markers_prepared_of_found (found : resource ∈ session.surveyed files) :
    (session.prepared grammar files).store.markers resource =
      (session.refreshed grammar files).1.store.markers resource := by
  refine (MarkerStore.markers_foldl_delete ..).trans (if_neg fun stale => ?_)
  obtain ⟨⟨name, markers⟩, -, gone⟩ := List.mem_filterMap.mp stale
  rw [Option.ite_none_left_eq_some] at gone
  obtain ⟨unlisted, same⟩ := gone
  cases same
  simp [found] at unlisted

theorem analyzeAll_whole (session : Session) (grammar : Grammar) (files : FileSystem)
    (asked : Nat → Bool) :
    session.Whole files asked [] (session.surveyed files) (session.surveyedFolders files)
      (session.analyzeAllWith grammar files asked) := by
  rw [analyzeAllWith_eq, packageFolders_eq (sameSettings_prepared session)]
  refine analyze_whole (fun r read unit told => ?_) rfl (fun r known _ => ?_) ⟨rfl, rfl⟩
  · rw [project_prepared_eq, refreshed_eq] at told
    exact (known_reload (Option.isSome_of_eq_some told)).2.2 unit told read
  · rw [project_prepared_eq, refreshed_eq] at known
    obtain ⟨read, old, -⟩ := known_reload known
    have found : r ∈ session.surveyed files :=
      Classical.byContradiction fun absent => absent (surveyed_of_spared (old absent))
    rw [← refreshed_eq] at read
    rw [markers_prepared_of_found found, store_refreshed, MarkerStore.markers_foldl_delete,
      if_neg read]

def without (session : Session) (removed : List String) : Session :=
  { session with
    project := removed.foldl Project.remove session.project
    store := removed.foldl MarkerStore.delete session.store }

theorem updated_eq (session : Session) (grammar : Grammar) (files : FileSystem)
    (changes : ChangeSet) :
    session.updated grammar files changes =
      (session.without changes.removed).reload grammar files (session.loadable changes) :=
  rfl

theorem analyzeChanges_whole (session : Session) (grammar : Grammar) (files : FileSystem)
    (asked : Nat → Bool) (changes : ChangeSet) :
    session.Whole files asked changes.removed (session.loadable changes)
      (session.packageFolders (session.loadable changes ++ changes.removed))
      (session.analyzeChangesWith grammar files asked changes) := by
  rw [analyzeChangesWith_eq, packageFolders_eq (sameSettings_updated ..)]
  refine analyze_whole (fun r read unit told => ?_) rfl (fun r known left => ?_) ⟨rfl, rfl⟩
  · rw [updated_eq] at told
    exact (known_reload (Option.isSome_of_eq_some told)).2.2 unit told read
  · rw [updated_eq] at known
    have read := (known_reload known).1
    rw [← updated_eq] at read
    rw [markers_updated, if_neg (not_or.mpr ⟨read, left⟩)]

/-- A pass of either kind, whenever somebody asks to stop it, leaves each of its sources with its
earlier markers or with all that the checks find, and those it reports as analysed with the latter.
It is cancelled exactly if a look before one of the sources found a wish to stop, which is then used
up. Only a source that stands where a checked package had its folder is marked otherwise, and a pass
over the whole project has no such source. -/
theorem cancellation_keeps_sources_whole (session : Session) (grammar : Grammar)
    (files : FileSystem) (asked : Nat → Bool) :
    session.Whole files asked [] (session.surveyed files) (session.surveyedFolders files)
      (session.analyzeAllWith grammar files asked) ∧
    (files.Apart → ∀ r ∈ session.surveyed files, r ∉ session.surveyedFolders files) ∧
    ∀ changes : ChangeSet, session.Whole files asked changes.removed (session.loadable changes)
      (session.packageFolders (session.loadable changes ++ changes.removed))
      (session.analyzeChangesWith grammar files asked changes) := by
  refine ⟨analyzeAll_whole .., fun apart r found folded => ?_, fun changes => analyzeChanges_whole ..⟩
  exact Project.not_mem_discover_of_folder session.project _ apart (mem_folders_of_mem folded) found

def twinFiles : FileSystem where
  entries := { entries := [
    ("/r", .folder), ("/r/src", .folder), ("/r/src/main", .folder), ("/r/src/main/java", .folder),
    ("/r/src/main/java/p", .folder),
    ("/r/src/main/java/p/A.java", .file bareLambda.toUTF8),
    ("/r/src/main/java/p/B.java", .file bareLambda.toUTF8)] }

def twinOutcome : Outcome Pass :=
  leftoverSession.analyzeAllWith bareLambdaGrammar twinFiles fun look => look == 1

theorem exists_of_map_eq {result : Except Halt Pass} {cancelled : Bool} {analyzed : List String}
    (ended : result.toOption.map (fun done => (done.isCancelled, done.analyzed)) =
      some (cancelled, analyzed)) :
    ∃ done, result = .ok done ∧ done.isCancelled = cancelled ∧ done.analyzed = analyzed := by
  cases result with
  | error _ => cases ended
  | ok done =>
    obtain ⟨same, listed⟩ := Prod.mk.inj (Option.some.inj ended)
    exact ⟨done, rfl, same, listed⟩

theorem twinOutcome_run :
    twinOutcome.result.toOption.map (fun done => (done.isCancelled, done.analyzed)) =
      some (true, ["src/main/java/p/A.java"]) ∧
    twinOutcome.session.store.markers "src/main/java/p/B.java" =
      leftoverSession.store.markers "src/main/java/p/B.java" := by
  decide +kernel

theorem cancellation_keeps_sources_whole_between :
    ∃ done, twinOutcome.result = .ok done ∧ done.isCancelled = true ∧
      done.analyzed = ["src/main/java/p/A.java"] ∧ twinOutcome.session.stopAsked = false ∧
      twinOutcome.session.found? twinFiles "src/main/java/p/A.java" =
        some (twinOutcome.session.store.markers "src/main/java/p/A.java") ∧
      twinOutcome.session.store.markers "src/main/java/p/B.java" =
        leftoverSession.store.markers "src/main/java/p/B.java" := by
  obtain ⟨run, kept⟩ := twinOutcome_run
  have whole := (cancellation_keeps_sources_whole leftoverSession bareLambdaGrammar twinFiles
    fun look => look == 1).1
  change leftoverSession.Whole _ _ _ _ _ twinOutcome at whole
  obtain ⟨done, ended, cancelled, analyzed⟩ := exists_of_map_eq run
  refine ⟨done, ended, cancelled, analyzed, (whole.stopped done ended cancelled).1, ?_, kept⟩
  rcases whole.analyzed done ended _ (by rw [analyzed]; exact List.mem_singleton.mpr rfl) with
    complete | ⟨uncancelled, -⟩
  · exact complete
  · rw [cancelled] at uncancelled
    cases uncancelled

end Session

end SpringLint
