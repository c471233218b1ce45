import SpringLint.Proofs.Session.FullPass

/-! Passes over what changed. A pass over the listed changes leaves the listed resources and their
packages with the markers that a pass over the whole project would give them, as long as the changes
name nothing that discovery passes over. -/

namespace SpringLint

/-- The source files that were added, changed and removed between two states of the files, those in
skipped folders and those that a pattern excludes among them. -/
structure ChangeSet.Lists (changes : ChangeSet) (layout : Layout) (before files : FileSystem) :
    Prop where
  added : ∀ resource, resource ∈ changes.added ↔
    resource ∈ Project.sourceFiles layout files ∧ resource ∉ Project.sourceFiles layout before
  changed : ∀ resource, resource ∈ changes.changed ↔
    resource ∈ Project.sourceFiles layout before ∧ resource ∈ Project.sourceFiles layout files ∧
      before.find (layout.pathOf resource) ≠ files.find (layout.pathOf resource)
  removed : ∀ resource, resource ∈ changes.removed ↔
    resource ∈ Project.sourceFiles layout before ∧ resource ∉ Project.sourceFiles layout files

namespace ChangeSet

variable {changes : ChangeSet} {layout : Layout} {before files : FileSystem} {resource : String}

def Names (changes : ChangeSet) (resource : String) : Prop :=
  resource ∈ changes.added ∨ resource ∈ changes.changed ∨ resource ∈ changes.removed

theorem Lists.mem_sourceFiles (lists : changes.Lists layout before files)
    (listed : changes.Names resource) :
    resource ∈ Project.sourceFiles layout before ∨ resource ∈ Project.sourceFiles layout files := by
  rcases listed with added | changed | removed
  · exact .inr ((lists.added resource).mp added).1
  · exact .inl ((lists.changed resource).mp changed).1
  · exact .inl ((lists.removed resource).mp removed).1

end ChangeSet

namespace Session

variable {session after full : Session} {grammar : Grammar} {before files : FileSystem}
  {asked : Nat → Bool} {changes : ChangeSet} {done : Pass} {resource folder : String}
  {unit : SourceUnit}

def loadable (session : Session) (changes : ChangeSet) : List String :=
  (changes.added ++ changes.changed).filter fun r =>
    Text.endsWith ".java" r && !session.excluded.any (·.accepts r)

def updated (session : Session) (grammar : Grammar) (files : FileSystem) (changes : ChangeSet) :
    Session × List (String × Error) :=
  { session with
    project := changes.removed.foldl Project.remove session.project
    store := changes.removed.foldl MarkerStore.delete session.store }.reload grammar files
      (session.loadable changes)

theorem analyzeChangesWith_eq (session : Session) (grammar : Grammar) (files : FileSystem)
    (asked : Nat → Bool) (changes : ChangeSet) :
    session.analyzeChangesWith grammar files asked changes =
      (session.updated grammar files changes).1.analyze files asked
        ((session.loadable changes).filter fun r =>
          ((session.updated grammar files changes).1.project.unit? r).isSome)
        ((session.updated grammar files changes).1.packageFolders
          (session.loadable changes ++ changes.removed))
        { failures := (session.updated grammar files changes).2 } := by
  rw [analyzeChangesWith]
  rfl

theorem sameSettings_updated (session : Session) (grammar : Grammar) (files : FileSystem)
    (changes : ChangeSet) : session.SameSettings (session.updated grammar files changes).1 :=
  ⟨(layout_reload ..).trans (Project.layout_foldl_remove ..), rfl, rfl, rfl⟩

theorem mem_packageFolders_iff {resources : List String} :
    folder ∈ session.packageFolders resources ↔
      session.checksPackages = true ∧ ∃ r ∈ resources,
        session.project.layout.classify r = .main ∧ PackageInfo.folderOf? r = some folder := by
  unfold packageFolders
  split <;> simp [*, PackageInfo.mem_folders_iff]

/-! Sessions that are up to date. -/

namespace Current

theorem owned (current : session.Current grammar files) : session.project.Owned :=
  current.project ▸ Project.owned_fresh ..

theorem unit?_eq (current : session.Current grammar files) (resource : String) :
    (session.project.unit? resource).map SourceUnit.parsed =
      session.project.source? grammar files session.excluded resource := by
  calc
    _ = ((Project.fresh session.project.layout grammar files session.excluded).unit? resource).map
        SourceUnit.parsed := by rw [← current.project]
    _ = _ := by rw [Project.unit?_fresh, ← current.project]

theorem source?_eq_some (current : session.Current grammar files)
    (known : session.project.unit? resource = some unit) :
    session.project.source? grammar files session.excluded resource = some unit.parsed := by
  rw [← current.unit?_eq, known, Option.map_some]

theorem mem_surveyed (current : session.Current grammar files)
    (known : session.project.unit? resource = some unit) : resource ∈ session.surveyed files :=
  (Project.source?_eq_some_iff.mp (current.source?_eq_some known)).1

theorem mem_sourceFiles (current : session.Current grammar files)
    (known : session.project.unit? resource = some unit) :
    resource ∈ Project.sourceFiles session.project.layout files ∧
      session.excluded.any (·.accepts resource) = false := by
  obtain ⟨source, taken⟩ := Project.mem_sourceFiles_of_source? (current.source?_eq_some known)
  exact ⟨source, Project.not_accepts_of_takes taken⟩

theorem markers_folder (current : session.Current grammar files)
    (main : session.project.layout.classify resource = .main)
    (inside : PackageInfo.folderOf? resource = some folder)
    (unknown : session.project.unit? folder = none) :
    session.store.markers folder =
      if session.checksPackages then PackageInfo.check session.project files folder else [] := by
  by_cases surveyed : folder ∈ session.surveyedFolders files
  · rw [current.folders folder surveyed, if_pos (mem_packageFolders_iff.mp surveyed).1]
  · rw [current.others folder unknown surveyed]
    split
    · rename_i checks
      refine (PackageInfo.check_eq_nil current.owned fun r there => ?_).symm
      cases known : session.project.unit? r with
      | none => rfl
      | some unit =>
        refine absurd (mem_packageFolders_iff.mpr ⟨checks, r, current.mem_surveyed known, ?_, there⟩)
          surveyed
        rw [PackageInfo.classify_eq there inside, main]
    · rfl

end Current

/-! What the changes do to the sources. -/

theorem mem_loadable_iff :
    resource ∈ session.loadable changes ↔
      (resource ∈ changes.added ∨ resource ∈ changes.changed) ∧
        Text.endsWith ".java" resource = true ∧
        session.excluded.any (·.accepts resource) = false := by
  simp only [loadable, List.mem_filter, List.mem_append, Bool.and_eq_true, Bool.not_eq_true']

section Listed

variable (lists : changes.Lists session.project.layout before files)
include lists

theorem mem_sourceFiles_of_changed
    (changed : resource ∈ changes.added ∨ resource ∈ changes.changed) :
    resource ∈ Project.sourceFiles session.project.layout files := by
  rcases changed with added | changed
  · exact ((lists.added resource).mp added).1
  · exact ((lists.changed resource).mp changed).2.1

theorem excluded_of_unread (listed : changes.Names resource)
    (unread : resource ∉ session.loadable changes) (left : resource ∉ changes.removed) :
    resource ∈ Project.sourceFiles session.project.layout files ∧
      session.excluded.any (·.accepts resource) = true := by
  have changed : resource ∈ changes.added ∨ resource ∈ changes.changed := by
    rcases listed with added | changed | gone
    · exact .inl added
    · exact .inr changed
    · exact absurd gone left
  have here := mem_sourceFiles_of_changed lists changed
  refine ⟨here, eq_true_of_ne_false fun free => unread ?_⟩
  exact mem_loadable_iff.mpr ⟨changed, (List.mem_filter.mp here).2, free⟩

theorem mem_loadable_of_new (here : resource ∈ Project.sourceFiles session.project.layout files)
    (free : session.excluded.any (·.accepts resource) = false)
    (new : resource ∉ Project.sourceFiles session.project.layout before) :
    resource ∈ session.loadable changes :=
  mem_loadable_iff.mpr ⟨.inl ((lists.added resource).mpr ⟨here, new⟩), (List.mem_filter.mp here).2,
    free⟩

theorem source?_unlisted (unread : resource ∉ session.loadable changes)
    (left : resource ∉ changes.removed) :
    session.project.source? grammar before session.excluded resource =
      session.project.source? grammar files session.excluded resource := by
  have same : resource ∈ Project.sourceFiles session.project.layout before →
      resource ∈ Project.sourceFiles session.project.layout files →
      session.excluded.any (·.accepts resource) = false →
      before.find (session.project.layout.pathOf resource) =
        files.find (session.project.layout.pathOf resource) := fun was here free =>
    Classical.byContradiction fun differs => unread (mem_loadable_iff.mpr
      ⟨.inr ((lists.changed resource).mpr ⟨was, here, differs⟩), (List.mem_filter.mp here).2, free⟩)
  refine Option.ext fun unit => ⟨fun known => ?_, fun known => ?_⟩
  · obtain ⟨was, taken⟩ := Project.mem_sourceFiles_of_source? known
    have here : resource ∈ Project.sourceFiles session.project.layout files :=
      Classical.byContradiction fun gone => left ((lists.removed resource).mpr ⟨was, gone⟩)
    exact Project.source?_of_find_eq known here
      (same was here (Project.not_accepts_of_takes taken))
  · obtain ⟨here, taken⟩ := Project.mem_sourceFiles_of_source? known
    have free := Project.not_accepts_of_takes taken
    have was : resource ∈ Project.sourceFiles session.project.layout before :=
      Classical.byContradiction fun new => unread (mem_loadable_of_new lists here free new)
    exact Project.source?_of_find_eq known was (same was here free).symm

/-- The sources after the changes are those that discovery finds, if it finds what is read. -/
theorem project_updated (current : session.Current grammar before)
    (found : ∀ r ∈ session.loadable changes, r ∈ session.surveyed files) :
    (session.updated grammar files changes).1.project =
      Project.fresh session.project.layout grammar files session.excluded := by
  let bare := changes.removed.foldl Project.remove session.project
  have layout : bare.layout = session.project.layout := Project.layout_foldl_remove ..
  let loaded := (bare.load grammar files (session.loadable changes)).1
  have same : loaded.layout = session.project.layout := (Project.layout_load ..).trans layout
  change loaded.relink = _
  rw [← Project.relink_unlinked, ← same]
  refine Project.relink_eq_fresh (Project.ascending_unlinked
    (Project.ascending_load (Project.ascending_foldl_remove current.kept.units _) _)) fun r => ?_
  rw [Project.source?_eq (show loaded.unlinked.layout = session.project.layout from same),
    Project.unit?_unlinked, Project.unit?_load, Project.readUnit_eq layout]
  by_cases read : r ∈ session.loadable changes
  · have listed : r ∈ session.project.discover files session.excluded := found r read
    rw [if_pos read, Project.source?, if_pos listed]
    cases outcome : session.project.readUnit grammar files r with
    | error _ => rfl
    | ok unit => simp [Except.toOption, Project.parsed_readUnit outcome]
  · rw [if_neg read, Project.unit?_foldl_remove]
    by_cases gone : r ∈ changes.removed
    · rw [if_pos gone, Option.map_none]
      refine (Option.eq_none_iff_forall_ne_some.mpr fun unit known => ?_).symm
      exact ((lists.removed r).mp gone).2 (Project.mem_sourceFiles_of_source? known).1
    · rw [if_neg gone, current.unit?_eq, source?_unlisted lists read gone]

theorem mem_failures_updated (current : session.Current grammar before)
    (found : ∀ r ∈ session.loadable changes, r ∈ session.surveyed files)
    (read : resource ∈ session.loadable changes)
    (unknown : (session.updated grammar files changes).1.project.unit? resource = none) :
    resource ∈ (session.updated grammar files changes).2.map (·.1) := by
  rw [project_updated lists current found] at unknown
  refine Project.mem_failures_load.mpr ⟨read, ?_⟩
  rw [Project.readUnit_eq (Project.layout_foldl_remove ..)]
  exact Project.readUnit_of_unknown unknown (found resource read)

end Listed

theorem mem_loadable_of_failure
    (failed : resource ∈ (session.updated grammar files changes).2.map (·.1)) :
    resource ∈ session.loadable changes :=
  (Project.mem_failures_load.mp failed).1

theorem markers_updated (resource : String) :
    (session.updated grammar files changes).1.store.markers resource =
      if resource ∈ (session.updated grammar files changes).2.map (·.1) ∨
        resource ∈ changes.removed then [] else session.store.markers resource := by
  have store : (session.updated grammar files changes).1.store =
      ((session.updated grammar files changes).2.map (·.1)).foldl MarkerStore.delete
        (changes.removed.foldl MarkerStore.delete session.store) := store_reload ..
  rw [store, MarkerStore.markers_foldl_delete, MarkerStore.markers_foldl_delete]
  by_cases failed : resource ∈ (session.updated grammar files changes).2.map (·.1)
  · rw [if_pos failed, if_pos (.inl failed)]
  · by_cases gone : resource ∈ changes.removed <;> simp [failed, gone]

/-- The changes name nothing on which the two kinds of pass part. What is read is what discovery
finds; it does not stand where removed sources had their folder; and where all changes of a folder
are excluded, its package file is there or missing as before. -/
structure Foreseen (session : Session) (before files : FileSystem) (changes : ChangeSet) : Prop where
  found : ∀ r ∈ session.loadable changes, r ∈ session.surveyed files
  clear : ∀ r ∈ session.loadable changes, r ∉ session.packageFolders changes.removed
  packages : session.checksPackages = true → ∀ r folder,
    r ∈ changes.added ∨ r ∈ changes.changed → session.project.layout.classify r = .main →
    PackageInfo.folderOf? r = some folder →
    folder ∉ session.packageFolders (session.loadable changes ++ changes.removed) →
    files.isFile (Path.join (session.project.layout.pathOf folder) PackageInfo.fileName) =
      before.isFile (Path.join (session.project.layout.pathOf folder) PackageInfo.fileName)

theorem not_mem_sourceFiles_of_folder {layout : Layout} (apart : files.Apart)
    (here : resource ∈ files.filesBelow layout.root fun _ => false)
    (inside : PackageInfo.folderOf? resource = some folder) :
    folder ∉ Project.sourceFiles layout files := by
  intro source
  obtain ⟨name, rfl, -⟩ := PackageInfo.folderOf?_eq_some inside
  exact apart.not_below (List.mem_filter.mp source).1 here

section Agreement

variable (current : session.Current grammar before) (fresh : full.Current grammar files)
  (same : session.SameSettings full) (apartBefore : before.Apart) (apart : files.Apart)
  (lists : changes.Lists session.project.layout before files)
  (foreseen : session.Foreseen before files changes)

include current fresh same lists foreseen in
theorem project_eq : (session.updated grammar files changes).1.project = full.project := by
  rw [project_updated lists current foreseen.found, fresh.project, same.layout, same.excluded]

include current fresh same lists foreseen in
theorem markers_changes
    (ended : (session.analyzeChangesWith grammar files asked changes).result = .ok done)
    (uncancelled : done.isCancelled = false) (resource : String) :
    (session.analyzeChangesWith grammar files asked changes).session.store.markers resource =
      if resource ∈ session.packageFolders (session.loadable changes ++ changes.removed) then
        PackageInfo.check full.project files resource
      else if resource ∈ session.loadable changes then
        if (full.project.unit? resource).isSome then full.store.markers resource else []
      else if resource ∈ changes.removed then [] else session.store.markers resource := by
  rw [analyzeChangesWith_eq] at ended ⊢
  have project := project_eq current fresh same lists foreseen
  have settles := analyze_settles (fun r member => (List.mem_filter.mp member).2) ended uncancelled
  have owned : ∀ r unit, (session.updated grammar files changes).1.project.unit? r = some unit →
      unit.resource = r := project ▸ fresh.owned.resource
  have settings := sameSettings_updated session grammar files changes
  rw [settles.markers_eq owned, packageFolders_eq settings, project, markers_updated]
  refine ite_congr rfl (fun _ => rfl) fun _ => ?_
  by_cases read : resource ∈ session.loadable changes
  · cases known : full.project.unit? resource with
    | some unit =>
      have answered := settles.answered resource
        (List.mem_filter.mpr ⟨read, by rw [project, known]; rfl⟩)
      have own := found_eq_some (project.symm ▸ known) answered
      have alike : (session.updated grammar files changes).1.unitMarkers? files unit =
          full.unitMarkers? files unit := by
        simp only [unitMarkers?, project, same.checks, settings.checks]
      rw [alike, fresh.sources resource unit known, Option.some.injEq] at own
      simp [read, known, own]
    | none =>
      have failed := mem_failures_updated lists current foreseen.found read (project.symm ▸ known)
      rw [if_neg (by simp [known]), if_pos (.inl failed), if_pos read]
      rfl
  · have safe : resource ∉ (session.updated grammar files changes).2.map (·.1) :=
      mt mem_loadable_of_failure read
    rw [if_neg fun among => read (List.mem_filter.mp among).1, if_neg read]
    exact ite_congr (by simp [safe]) (fun _ => rfl) fun _ => rfl

include fresh same in
theorem mem_sourceFiles_of_known (known : full.project.unit? resource = some unit) :
    resource ∈ Project.sourceFiles session.project.layout files ∧
      session.excluded.any (·.accepts resource) = false := by
  have source := fresh.mem_sourceFiles known
  rwa [same.layout, same.excluded] at source

include fresh same apartBefore apart lists foreseen in
theorem unknown_of_mem_packageFolders
    (among : folder ∈ session.packageFolders (session.loadable changes ++ changes.removed)) :
    full.project.unit? folder = none := by
  obtain ⟨checks, r, listed, main, inside⟩ := mem_packageFolders_iff.mp among
  refine Option.eq_none_iff_forall_ne_some.mpr fun unit known => ?_
  obtain ⟨here, free⟩ := mem_sourceFiles_of_known fresh same known
  rcases List.mem_append.mp listed with read | gone
  · have below := (List.mem_filter.mp (mem_sourceFiles_of_changed lists (mem_loadable_iff.mp read).1)).1
    exact not_mem_sourceFiles_of_folder apart below inside here
  · have below := (List.mem_filter.mp ((lists.removed r).mp gone).1).1
    have new := not_mem_sourceFiles_of_folder apartBefore below inside
    exact foreseen.clear folder (mem_loadable_of_new lists here free new)
      (mem_packageFolders_iff.mpr ⟨checks, r, gone, main, inside⟩)

include fresh same apartBefore lists in
theorem markers_of_removed (gone : resource ∈ changes.removed)
    (outside : resource ∉ session.packageFolders (session.loadable changes ++ changes.removed)) :
    full.store.markers resource = [] := by
  obtain ⟨was, missing⟩ := (lists.removed resource).mp gone
  have unknown : full.project.unit? resource = none :=
    Option.eq_none_iff_forall_ne_some.mpr fun unit known =>
      missing (mem_sourceFiles_of_known fresh same known).1
  by_cases surveyed : resource ∈ full.surveyedFolders files
  · obtain ⟨checks, r, -, main, inside⟩ := mem_packageFolders_iff.mp surveyed
    rw [same.layout] at main
    rw [same.checksPackages] at checks
    rw [fresh.folders resource surveyed]
    refine PackageInfo.check_eq_nil fresh.owned fun t there => ?_
    refine Option.eq_none_iff_forall_ne_some.mpr fun unit known => ?_
    obtain ⟨here, free⟩ := mem_sourceFiles_of_known fresh same known
    have new : t ∉ Project.sourceFiles session.project.layout before := fun old =>
      not_mem_sourceFiles_of_folder apartBefore (List.mem_filter.mp old).1 there was
    refine outside (mem_packageFolders_iff.mpr ⟨checks, t,
      List.mem_append_left _ (mem_loadable_of_new lists here free new), ?_, there⟩)
    rw [PackageInfo.classify_eq there inside, main]
  · exact fresh.others resource unknown surveyed

include fresh same apart in
theorem markers_of_excluded (here : resource ∈ Project.sourceFiles session.project.layout files)
    (excluded : session.excluded.any (·.accepts resource) = true) :
    full.store.markers resource = [] := by
  refine fresh.others resource (Option.eq_none_iff_forall_ne_some.mpr fun unit known => ?_) ?_
  · rw [(mem_sourceFiles_of_known fresh same known).2] at excluded
    cases excluded
  · intro surveyed
    obtain ⟨-, r, found, -, inside⟩ := mem_packageFolders_iff.mp surveyed
    have below := (Project.mem_discover_iff.mp found).1
    rw [same.layout] at below
    exact not_mem_sourceFiles_of_folder apart below inside here

include current apart lists in
/-- A resource that is excluded had no markers: what was below it is gone. -/
theorem markers_before_of_excluded
    (here : resource ∈ Project.sourceFiles session.project.layout files)
    (excluded : session.excluded.any (·.accepts resource) = true)
    (outside : resource ∉ session.packageFolders (session.loadable changes ++ changes.removed)) :
    session.store.markers resource = [] := by
  have unknown : session.project.unit? resource = none :=
    Option.eq_none_iff_forall_ne_some.mpr fun unit known => by
      rw [(current.mem_sourceFiles known).2] at excluded
      cases excluded
  by_cases surveyed : resource ∈ session.surveyedFolders before
  · obtain ⟨checks, r, -, main, inside⟩ := mem_packageFolders_iff.mp surveyed
    rw [current.folders resource surveyed]
    refine PackageInfo.check_eq_nil current.owned fun t there => ?_
    refine Option.eq_none_iff_forall_ne_some.mpr fun unit known => ?_
    have was := (current.mem_sourceFiles known).1
    have missing : t ∉ Project.sourceFiles session.project.layout files := fun left =>
      not_mem_sourceFiles_of_folder apart (List.mem_filter.mp left).1 there here
    refine outside (mem_packageFolders_iff.mpr ⟨checks, t,
      List.mem_append_right _ ((lists.removed t).mpr ⟨was, missing⟩), ?_, there⟩)
    rw [PackageInfo.classify_eq there inside, main]
  · exact current.others resource unknown surveyed

include current fresh same apartBefore apart lists foreseen in
theorem markers_of_untouched_folder (listed : changes.Names resource)
    (main : session.project.layout.classify resource = .main)
    (inside : PackageInfo.folderOf? resource = some folder)
    (unread : folder ∉ session.loadable changes) (left : folder ∉ changes.removed)
    (outside : folder ∉ session.packageFolders (session.loadable changes ++ changes.removed)) :
    session.store.markers folder = full.store.markers folder := by
  have was : folder ∉ Project.sourceFiles session.project.layout before := fun old =>
    left ((lists.removed folder).mpr ⟨old, fun still => by
      rcases lists.mem_sourceFiles listed with early | late
      · exact not_mem_sourceFiles_of_folder apartBefore (List.mem_filter.mp early).1 inside old
      · exact not_mem_sourceFiles_of_folder apart (List.mem_filter.mp late).1 inside still⟩)
  have unknownBefore : session.project.unit? folder = none :=
    Option.eq_none_iff_forall_ne_some.mpr fun unit known => was (current.mem_sourceFiles known).1
  have unknown : full.project.unit? folder = none :=
    Option.eq_none_iff_forall_ne_some.mpr fun unit known => by
      obtain ⟨here, free⟩ := mem_sourceFiles_of_known fresh same known
      exact unread (mem_loadable_of_new lists here free was)
  rw [current.markers_folder main inside unknownBefore,
    fresh.markers_folder (same.layout ▸ main) inside unknown, same.checksPackages]
  split
  · rename_i checks
    have absent : ∀ t, PackageInfo.folderOf? t = some folder →
        t ∉ session.loadable changes ++ changes.removed := fun t there member =>
      outside (mem_packageFolders_iff.mpr ⟨checks, t, member,
        (PackageInfo.classify_eq there inside).trans main, there⟩)
    refine (PackageInfo.check_congr fresh.owned current.owned same.layout ?_ fun t there => ?_).symm
    · rw [same.layout]
      have changed : resource ∈ changes.added ∨ resource ∈ changes.changed := by
        rcases listed with added | changed | gone
        · exact .inl added
        · exact .inr changed
        · exact absurd (List.mem_append_right _ gone) (absent resource inside)
      exact foreseen.packages checks resource folder changed main inside outside
    · obtain ⟨unread, left⟩ := not_or.mp (mt List.mem_append.mpr (absent t there))
      rw [fresh.unit?_eq, current.unit?_eq, Project.source?_eq same.layout, same.excluded,
        source?_unlisted lists unread left]
  · rfl

/-- The listed resources and the folders of those that are main code have, after a pass over the
changes, the markers of a session that is up to date. -/
theorem markers_agree
    (ended : (session.analyzeChangesWith grammar files asked changes).result = .ok done)
    (uncancelled : done.isCancelled = false) (current : session.Current grammar before)
    (fresh : full.Current grammar files) (same : session.SameSettings full)
    (apartBefore : before.Apart) (apart : files.Apart)
    (lists : changes.Lists session.project.layout before files)
    (foreseen : session.Foreseen before files changes) (folder : String)
    (concerned : changes.Names folder ∨ ∃ r, changes.Names r ∧
      session.project.layout.classify r = .main ∧ PackageInfo.folderOf? r = some folder) :
    (session.analyzeChangesWith grammar files asked changes).session.store.markers folder =
      full.store.markers folder := by
  rw [markers_changes current fresh same lists foreseen ended uncancelled]
  split
  · rename_i among
    obtain ⟨checks, r, -, main, inside⟩ := mem_packageFolders_iff.mp among
    rw [fresh.markers_folder (same.layout ▸ main) inside
      (unknown_of_mem_packageFolders fresh same apartBefore apart lists foreseen among),
      same.checksPackages, if_pos checks]
  · rename_i outside
    by_cases read : folder ∈ session.loadable changes
    · rw [if_pos read]
      split
      · rfl
      · rename_i unknown
        refine (fresh.others folder (Option.not_isSome_iff_eq_none.mp unknown) fun surveyed => ?_).symm
        have found := foreseen.found folder read
        rw [surveyedFolders, surveyed_eq same, packageFolders_eq same] at surveyed
        exact Project.not_mem_discover_of_folder session.project _ apart
          (mem_folders_of_mem surveyed) found
    · rw [if_neg read]
      split
      · rename_i gone
        exact (markers_of_removed fresh same apartBefore lists gone outside).symm
      · rename_i left
        rcases concerned with listed | ⟨r, listed, main, inside⟩
        · obtain ⟨here, excluded⟩ := excluded_of_unread lists listed read left
          rw [markers_of_excluded fresh same apart here excluded,
            markers_before_of_excluded current apart lists here excluded outside]
        · exact markers_of_untouched_folder current fresh same apartBefore apart lists foreseen
            listed main inside read left outside

end Agreement

theorem Foreseen.of_settings {other : Session} (same : session.SameSettings other)
    (foreseen : session.Foreseen before files changes) : other.Foreseen before files changes := by
  have read : other.loadable changes = session.loadable changes := by
    rw [loadable, loadable, same.excluded]
  constructor
  · rw [read, surveyed_eq same]
    exact foreseen.found
  · rw [read, packageFolders_eq same]
    exact foreseen.clear
  · rw [read, packageFolders_eq same, same.checksPackages, same.layout]
    exact foreseen.packages

/-- A session that has completed a pass over the whole project and goes over the changes since then
gives every listed resource, and the folder of every listed resource of main code, the markers that
a pass over the whole project gives them. -/
theorem analyzeChanges_agrees_with_analyzeAll {start other : Session}
    {askedFirst askedFull : Nat → Bool} {first whole : Pass}
    (kept : start.Kept) (apartBefore : before.Apart) (apart : files.Apart)
    (firstEnded : (start.analyzeAllWith grammar before askedFirst).result = .ok first)
    (firstUncancelled : first.isCancelled = false)
    (lists : changes.Lists start.project.layout before files)
    (foreseen : start.Foreseen before files changes)
    (ended : ((start.analyzeAllWith grammar before askedFirst).session.analyzeChangesWith grammar
      files asked changes).result = .ok done)
    (uncancelled : done.isCancelled = false)
    (otherKept : other.Kept) (same : start.SameSettings other)
    (fullEnded : (other.analyzeAllWith grammar files askedFull).result = .ok whole)
    (fullUncancelled : whole.isCancelled = false) :
    let after := ((start.analyzeAllWith grammar before askedFirst).session.analyzeChangesWith grammar
      files asked changes).session
    let full := (other.analyzeAllWith grammar files askedFull).session
    (∀ resource, changes.Names resource →
      after.store.markers resource = full.store.markers resource) ∧
      ∀ resource folder, changes.Names resource →
        start.project.layout.classify resource = .main →
        PackageInfo.folderOf? resource = some folder →
        after.store.markers folder = full.store.markers folder := by
  intro after full
  obtain ⟨settings, current, -⟩ :=
    analyzeAll_current kept apartBefore firstEnded firstUncancelled
  obtain ⟨otherSettings, fresh, -⟩ := analyzeAll_current otherKept apart fullEnded fullUncancelled
  have agree := markers_agree ended uncancelled current fresh
    (settings.symm.trans (same.trans otherSettings)) apartBefore apart (settings.layout ▸ lists)
    (foreseen.of_settings settings)
  refine ⟨fun resource listed => agree resource (.inl listed), ?_⟩
  intro resource folder listed main inside
  exact agree folder (.inr ⟨resource, listed, settings.layout ▸ main, inside⟩)

section Added

def earlierFiles : FileSystem where
  entries := { entries := [
    ("/r", .folder), ("/r/src", .folder), ("/r/src/main", .folder), ("/r/src/main/java", .folder),
    ("/r/src/main/java/p", .folder),
    ("/r/src/main/java/p/B.java", .file ⟨#[255, 255]⟩),
    ("/r/src/main/java/p/C.java", .file ⟨#[255]⟩)] }

def leftoverChanges : ChangeSet where
  added := ["src/main/java/p/A.java"]
  changed := ["src/main/java/p/B.java"]
  removed := ["src/main/java/p/C.java"]

def earlierOutcome : Outcome Pass :=
  leftoverSession.analyzeAllWith bareLambdaGrammar earlierFiles fun _ => false

def changesOutcome : Outcome Pass :=
  earlierOutcome.session.analyzeChangesWith bareLambdaGrammar leftoverFiles (fun _ => false)
    leftoverChanges

theorem leftoverChanges_lists :
    leftoverChanges.Lists leftoverSession.project.layout earlierFiles leftoverFiles := by
  have before : Project.sourceFiles leftoverSession.project.layout earlierFiles =
      ["src/main/java/p/B.java", "src/main/java/p/C.java"] := by decide +kernel
  have files : Project.sourceFiles leftoverSession.project.layout leftoverFiles =
      ["src/main/java/p/A.java", "src/main/java/p/B.java"] := by decide +kernel
  have differs : earlierFiles.find
        (leftoverSession.project.layout.pathOf "src/main/java/p/B.java") ≠
      leftoverFiles.find (leftoverSession.project.layout.pathOf "src/main/java/p/B.java") := by
    intro same
    have sizes := congrArg (fun found => found.toOption.map Entry.size) same
    revert sizes
    decide +kernel
  constructor
  · intro resource
    rw [before, files]
    constructor
    · intro added
      rw [List.mem_singleton.mp added]
      decide
    · rintro ⟨here, new⟩
      simp only [List.mem_cons, List.not_mem_nil, or_false, not_or] at here new
      exact List.mem_singleton.mpr (here.resolve_right new.1)
  · intro resource
    rw [before, files]
    constructor
    · intro changed
      rw [List.mem_singleton.mp changed]
      exact ⟨by decide, by decide, differs⟩
    · rintro ⟨was, here, -⟩
      refine List.mem_singleton.mpr ?_
      simp only [List.mem_cons, List.not_mem_nil, or_false] at was here
      rcases was with rfl | rfl
      · rfl
      · revert here
        decide
  · intro resource
    rw [before, files]
    constructor
    · intro gone
      rw [List.mem_singleton.mp gone]
      decide
    · rintro ⟨was, missing⟩
      simp only [List.mem_cons, List.not_mem_nil, or_false, not_or] at was missing
      exact List.mem_singleton.mpr (was.resolve_left missing.2)

theorem leftoverChanges_foreseen :
    leftoverSession.Foreseen earlierFiles leftoverFiles leftoverChanges := by
  constructor
  · decide +kernel
  · decide +kernel
  · intro _ r folder changed _ inside outside
    have folders : leftoverSession.packageFolders
        (leftoverSession.loadable leftoverChanges ++ leftoverChanges.removed) =
          ["src/main/java/p"] := by decide +kernel
    have here : PackageInfo.folderOf? r = some "src/main/java/p" := by
      rcases changed with added | changed
      · rw [List.mem_singleton.mp added]
        decide +kernel
      · rw [List.mem_singleton.mp changed]
        decide +kernel
    rw [folders, ← Option.some.inj (here.symm.trans inside)] at outside
    exact absurd (List.mem_singleton.mpr rfl) outside

/-- The package and the added source are marked alike by both passes. -/
theorem analyzeChanges_agrees_with_analyzeAll_added :
    (earlierFiles.Apart ∧ leftoverSession.Foreseen earlierFiles leftoverFiles leftoverChanges ∧
      leftoverChanges.Lists leftoverSession.project.layout earlierFiles leftoverFiles) ∧
      changesOutcome.session.store.table.names = ["src/main/java/p", "src/main/java/p/A.java"] ∧
      changesOutcome.session.store.markers "src/main/java/p/A.java" =
        leftoverOutcome.session.store.markers "src/main/java/p/A.java" ∧
      changesOutcome.session.store.markers "src/main/java/p" =
        leftoverOutcome.session.store.markers "src/main/java/p" := by
  have apart : earlierFiles.Apart := by decide +kernel
  have ⟨early, run, names⟩ :
      earlierOutcome.result.toOption.map (·.isCancelled) = some false ∧
      changesOutcome.result.toOption.map (·.isCancelled) = some false ∧
      changesOutcome.session.store.table.names =
        ["src/main/java/p", "src/main/java/p/A.java"] := by
    decide +kernel
  obtain ⟨first, firstEnded, firstWhole⟩ := exists_of_map_isCancelled early
  obtain ⟨done, ended, whole⟩ := exists_of_map_isCancelled run
  obtain ⟨full, fullEnded, fullWhole⟩ := exists_of_map_isCancelled leftoverOutcome_run.1
  refine ⟨⟨apart, leftoverChanges_foreseen, leftoverChanges_lists⟩, names, ?_⟩
  unfold changesOutcome at ended ⊢
  unfold earlierOutcome at firstEnded ended ⊢
  unfold leftoverOutcome at fullEnded ⊢
  obtain ⟨resources, folders⟩ := analyzeChanges_agrees_with_analyzeAll leftoverSession_kept apart
    leftoverFiles_apart firstEnded firstWhole leftoverChanges_lists leftoverChanges_foreseen ended
    whole leftoverSession_kept ⟨rfl, rfl, rfl, rfl⟩ fullEnded fullWhole
  have added : leftoverChanges.Names "src/main/java/p/A.java" := .inl (List.mem_singleton.mpr rfl)
  exact ⟨resources _ added, folders _ _ added (by decide +kernel) (by decide +kernel)⟩

end Added

end Session

end SpringLint
