import SpringLint.Check.PackageInfo
import SpringLint.Proofs.Project.Load
import SpringLint.Proofs.Text.Affixes

/-! The sources that discovery finds, and the folders that hold them. -/

namespace SpringLint

def Entry.isFolder : Entry → Bool
  | .folder => true
  | .file _ => false

namespace FileSystem

variable {files : FileSystem} {folder : String} {skips : String → Bool}

/-- No path is listed twice, and none is both a file and a folder: what has something below it is a
folder. -/
structure Apart (files : FileSystem) : Prop where
  ascending : files.entries.Ascending
  above : ∀ a ∈ files.entries.entries, ∀ b ∈ files.entries.entries,
    Text.startsWith (a.1 ++ "/") b.1 = true → a.2.isFolder = true

instance (files : FileSystem) : Decidable files.Apart :=
  decidable_of_iff
    (files.entries.Ascending ∧
      ∀ a ∈ files.entries.entries, ∀ b ∈ files.entries.entries,
        Text.startsWith (a.1 ++ "/") b.1 = true → a.2.isFolder = true)
    ⟨fun ⟨ascending, above⟩ => ⟨ascending, above⟩, fun apart => ⟨apart.1, apart.2⟩⟩

/-- The path that an entry has below a head, if it is a file and in no folder that is skipped. -/
def below? (head : String) (skips : String → Bool) (entry : String × Entry) : Option String :=
  match entry.2, Text.afterHead? head entry.1 with
  | .file _, some relative =>
    if ((Text.split '/' relative).dropLast).any skips then none else some relative
  | _, _ => none

theorem below?_eq_some_iff {head relative : String} {entry : String × Entry} :
    below? head skips entry = some relative ↔
      entry.2.isFolder = false ∧ Text.afterHead? head entry.1 = some relative ∧
        ((Text.split '/' relative).dropLast).any skips = false := by
  obtain ⟨path, entry⟩ := entry
  cases entry with
  | folder => simp [below?, Entry.isFolder]
  | file content =>
    cases after : Text.afterHead? head path with
    | none => simp [below?, after]
    | some tail =>
      simp only [below?, after, Entry.isFolder, Option.some.injEq, true_and]
      constructor
      · intro taken
        split at taken
        · cases taken
        · cases taken
          exact ⟨rfl, eq_false_of_ne_true ‹_›⟩
      · rintro ⟨rfl, free⟩
        rw [free, if_neg Bool.false_ne_true]

/-- What is listed below a folder: nothing if it is missing, itself if it is a file, and else the
files of one head. -/
theorem filesBelow_cases (files : FileSystem) (folder : String) :
    (∀ skips, files.filesBelow folder skips = []) ∨ (∀ skips, files.filesBelow folder skips = [""]) ∨
      ∃ head, ∀ skips,
        files.filesBelow folder skips = files.entries.entries.filterMap (below? head skips) := by
  unfold filesBelow
  cases files.canonical folder with
  | error _ => exact .inl fun _ => rfl
  | ok base =>
    dsimp only
    cases files.entry? (Path.parts base) with
    | none => exact .inr (.inr ⟨if base == "/" then "/" else base ++ "/", fun _ => rfl⟩)
    | some entry =>
      cases entry with
      | folder => exact .inr (.inr ⟨if base == "/" then "/" else base ++ "/", fun _ => rfl⟩)
      | file _ => exact .inr (.inl fun _ => rfl)

/-- Which files are listed depends on the folders on their way only. -/
theorem mem_filesBelow_iff {relative : String} :
    relative ∈ files.filesBelow folder skips ↔
      relative ∈ files.filesBelow folder (fun _ => false) ∧
        ((Text.split '/' relative).dropLast).any skips = false := by
  rcases files.filesBelow_cases folder with none | self | ⟨head, listed⟩
  · simp [none]
  · simp only [self, List.mem_singleton, iff_self_and]
    rintro rfl
    rfl
  · simp only [listed, List.mem_filterMap, below?_eq_some_iff]
    constructor
    · rintro ⟨entry, member, file, path, free⟩
      exact ⟨⟨entry, member, file, path, by simp⟩, free⟩
    · rintro ⟨⟨entry, member, file, path, -⟩, free⟩
      exact ⟨entry, member, file, path, free⟩

theorem Apart.nodup_filesBelow (apart : files.Apart) (folder : String) (skips : String → Bool) :
    (files.filesBelow folder skips).Nodup := by
  rcases files.filesBelow_cases folder with none | self | ⟨head, listed⟩
  · simp [none]
  · simp [self]
  · rw [listed]
    refine apart.ascending.filterMap _ fun a b before x first y second => ?_
    have left := Text.afterHead?_eq_some (below?_eq_some_iff.mp first).2.1
    have right := Text.afterHead?_eq_some (below?_eq_some_iff.mp second).2.1
    rintro rfl
    exact Table.ne_of_lt before (left.trans right.symm)

theorem Apart.not_below (apart : files.Apart) {relative rest : String}
    (here : relative ∈ files.filesBelow folder skips) :
    relative ++ "/" ++ rest ∉ files.filesBelow folder skips := by
  intro inner
  rcases files.filesBelow_cases folder with none | self | ⟨head, listed⟩
  · simp [none] at here
  · rw [self, List.mem_singleton] at inner
    simpa using congrArg String.toList inner
  · rw [listed, List.mem_filterMap] at here inner
    obtain ⟨a, first, found⟩ := here
    obtain ⟨b, second, inside⟩ := inner
    obtain ⟨file, left, -⟩ := below?_eq_some_iff.mp found
    have path : b.1 = a.1 ++ "/" ++ rest := by
      rw [Text.afterHead?_eq_some left,
        Text.afterHead?_eq_some (below?_eq_some_iff.mp inside).2.1]
      simp only [String.append_assoc]
    have folder := apart.above a first b second (path ▸ Text.startsWith_append _ _)
    rw [file] at folder
    cases folder

end FileSystem

namespace Project

variable {project : Project} {files : FileSystem} {excluded : List Glob} {resource : String}

theorem discover_nodup (apart : files.Apart) : (project.discover files excluded).Nodup :=
  (apart.nodup_filesBelow _ _).filter _

/-- Whether discovery takes a file below the project folder: no folder on its way is skipped, its
name has the extension of sources, and no pattern excludes it. -/
def takes (layout : Layout) (excluded : List Glob) (resource : String) : Bool :=
  !((Text.split '/' resource).dropLast).any isSkipped &&
    ((Path.fileName? (if resource == "" then layout.root else resource)).bind Path.extension? ==
      some "java") &&
    !excluded.any (·.accepts resource)

theorem mem_discover_iff :
    resource ∈ project.discover files excluded ↔
      resource ∈ files.filesBelow project.layout.root (fun _ => false) ∧
        takes project.layout excluded resource = true := by
  simp only [discover, List.mem_filter, takes]
  rw [FileSystem.mem_filesBelow_iff]
  simp only [Bool.and_eq_true, Bool.not_eq_true', and_assoc]

/-- The source files below the project folder, those in skipped folders included. -/
def sourceFiles (layout : Layout) (files : FileSystem) : List String :=
  (files.filesBelow layout.root fun _ => false).filter (Text.endsWith ".java")

theorem endsWith_of_extension {name : String} (java : Path.extension? name = some "java") :
    Text.endsWith ".java" name = true := by
  unfold Path.extension? at java
  split at java
  · obtain ⟨whole, -⟩ := Text.cutLast?_eq_some ‹_›
    split at java
    · cases java
    · cases java
      simp only [Text.endsWith, List.isSuffixOf_iff_suffix]
      exact ⟨_, whole.symm⟩
  · cases java

theorem asksFolder_of_read {path text : String} (read : files.read path = .ok text) :
    FileSystem.asksFolder path = false := by
  unfold FileSystem.read FileSystem.find at read
  cases follow : files.follow [] (files.absolute path) with
  | error _ => simp [follow, bind, Except.bind] at read
  | ok parts =>
    simp only [follow, bind, Except.bind] at read
    cases asks : FileSystem.asksFolder path with
    | false => rfl
    | true =>
      simp only [asks] at read
      split at read
      · cases read
      · cases read
      · rename_i outcome
        split at outcome
        · cases outcome
        · cases outcome
        · cases outcome

theorem lastPart_of_asksFolder {path : String} (free : FileSystem.asksFolder path = false) :
    Text.lastPart '/' path ≠ "" ∧ Text.lastPart '/' path ≠ "." := by
  simp only [FileSystem.asksFolder, Bool.or_eq_false_iff, beq_eq_false_iff_ne] at free
  obtain ⟨⟨slash, empty⟩, dot⟩ := free
  refine ⟨fun none => ?_, dot⟩
  obtain ⟨-, same | ⟨head, whole⟩⟩ := Text.lastPart_cases '/' path
  · rw [none] at same
    exact empty (same ▸ by decide)
  · exact slash (by simp [whole, none])

theorem exists_join_eq (base part : String) :
    ∃ front, Path.join base part = front ++ part ∧
      (front = "" ∨ front.toList.getLast? = some '/') := by
  unfold Path.join
  split
  · exact ⟨"", by simp, .inl rfl⟩
  · split
    · rename_i parted
      simp only [Bool.or_eq_true, beq_iff_eq] at parted
      exact ⟨base, rfl, parted⟩
    · exact ⟨base ++ "/", rfl, .inr (by simp)⟩

theorem fileName?_eq {path name : String} (last : Text.lastPart '/' path = name) (filled : name ≠ "")
    (plain : name ≠ ".") : Path.fileName? path = some name ∨ Path.fileName? path = none := by
  obtain ⟨front, pieces⟩ := Text.exists_split_eq '/' path
  have parts : (Path.parts path).getLast? = some name := by
    simp [Path.parts, pieces, last, filled, plain]
  rw [Path.fileName?, parts]
  by_cases up : name = ".."
  · exact .inr (by simp [up])
  · exact .inl (by simp [up])

theorem endsWith_of_takes {text : String} {layout : Layout}
    (read : files.read (layout.pathOf resource) = .ok text)
    (taken : takes layout excluded resource = true) : Text.endsWith ".java" resource = true := by
  obtain ⟨front, whole, parted⟩ := exists_join_eq layout.root resource
  obtain ⟨filled, plain⟩ := lastPart_of_asksFolder (asksFolder_of_read read)
  rw [Layout.pathOf, whole, Text.lastPart_append resource parted] at filled plain
  have some : resource ≠ "" := by
    rintro rfl
    exact filled (by decide)
  simp only [takes, beq_eq_false_iff_ne.mpr some, Bool.and_eq_true, beq_iff_eq] at taken
  rcases fileName?_eq rfl filled plain with named | unnamed
  · have java := taken.1.2
    rw [if_neg Bool.false_ne_true, named, Option.bind_some] at java
    obtain ⟨rest, same⟩ := List.isSuffixOf_iff_suffix.mp (endsWith_of_extension java)
    obtain ⟨-, same' | ⟨head, split⟩⟩ := Text.lastPart_cases '/' resource
    · exact List.isSuffixOf_iff_suffix.mpr ⟨rest, by rw [same, ← same']⟩
    · exact List.isSuffixOf_iff_suffix.mpr ⟨head ++ '/' :: rest, by rw [split, ← same]; simp⟩
  · have java := taken.1.2
    rw [if_neg Bool.false_ne_true, unnamed] at java
    cases java

theorem not_accepts_of_takes {layout : Layout} (taken : takes layout excluded resource = true) :
    excluded.any (·.accepts resource) = false := by
  simp only [takes, Bool.and_eq_true, Bool.not_eq_true'] at taken
  exact taken.2

section Source

variable {grammar : Grammar} {unit : SourceUnit}

theorem mem_sourceFiles_of_source?
    (known : project.source? grammar files excluded resource = some unit) :
    resource ∈ sourceFiles project.layout files ∧ takes project.layout excluded resource = true := by
  obtain ⟨found, read⟩ := source?_eq_some_iff.mp known
  obtain ⟨below, taken⟩ := mem_discover_iff.mp found
  obtain ⟨text, -, content, -, -⟩ := readUnit_eq_ok read
  exact ⟨List.mem_filter.mpr ⟨below, endsWith_of_takes content taken⟩, taken⟩

theorem source?_of_find_eq {later : FileSystem}
    (known : project.source? grammar files excluded resource = some unit)
    (still : resource ∈ sourceFiles project.layout later)
    (same : files.find (project.layout.pathOf resource) =
      later.find (project.layout.pathOf resource)) :
    project.source? grammar later excluded resource = some unit := by
  obtain ⟨-, taken⟩ := mem_sourceFiles_of_source? known
  obtain ⟨-, read⟩ := source?_eq_some_iff.mp known
  refine source?_eq_some_iff.mpr
    ⟨mem_discover_iff.mpr ⟨(List.mem_filter.mp still).1, taken⟩, ?_⟩
  rw [← read]
  refine (readUnit_congr ?_).symm
  rw [FileSystem.read, same, FileSystem.read]

end Source

end Project

namespace PackageInfo

variable {layout : Layout} {resources : List String} {folder resource : String}

theorem folderOf?_eq_some (found : folderOf? resource = some folder) :
    ∃ name, resource = folder ++ "/" ++ name ∧ '/' ∉ name.toList := by
  obtain ⟨⟨head, tail⟩, split, rfl⟩ := Option.map_eq_some_iff.mp found
  obtain ⟨whole, absent⟩ := Text.cutLast?_eq_some split
  refine ⟨tail, String.toList_inj.mp ?_, absent⟩
  simp [whole]

theorem mem_folders_iff :
    folder ∈ folders layout resources ↔
      ∃ resource ∈ resources, layout.classify resource = .main ∧ folderOf? resource = some folder := by
  simp only [folders, Table.mem_names_ofList, List.map_map, Function.comp_def, List.map_id',
    List.mem_filterMap, List.mem_filter, decide_eq_true_eq, and_assoc]

theorem nodup_folders : (folders layout resources).Nodup :=
  (Table.Ascending.ofList _).nodup_names

theorem resource_of_mem_check {project : Project} {files : FileSystem} {m : Marker}
    (member : m ∈ check project files folder) : m.resource = folder := by
  simp only [check] at member
  split at member
  · rw [List.mem_singleton.mp member]
    rfl
  · cases member

theorem headsBefore_append (done head : List Char) {tail : List Char} (absent : '/' ∉ tail) :
    Layout.headsBefore done (head ++ '/' :: tail) =
      Layout.headsBefore done head ++ [String.ofList (done.reverse ++ head)] := by
  have none : ∀ done, Layout.headsBefore done tail = [] := by
    induction tail with
    | nil => exact fun _ => rfl
    | cons c tail ih =>
      obtain ⟨other, later⟩ := not_or.mp (mt List.mem_cons.mpr absent)
      exact fun done => by simp [Layout.headsBefore, Ne.symm other, ih later]
  induction head generalizing done with
  | nil => simp [Layout.headsBefore, none]
  | cons c head ih =>
    rw [List.cons_append, Layout.headsBefore, Layout.headsBefore, ih]
    split <;> simp

theorem classify_eq {other : String} (here : folderOf? resource = some folder)
    (there : folderOf? other = some folder) : layout.classify resource = layout.classify other := by
  obtain ⟨name, rfl, absent⟩ := folderOf?_eq_some here
  obtain ⟨name', rfl, absent'⟩ := folderOf?_eq_some there
  have folders : ∀ {name : String}, '/' ∉ name.toList →
      Layout.folders (folder ++ "/" ++ name) =
        folder :: (Layout.headsBefore [] folder.toList).reverse := fun absent => by
    simp [Layout.folders, headsBefore_append [] folder.toList absent]
  simp only [Layout.classify, Layout.nearestRoot?, folders absent, folders absent']

section Check

variable {p q : Project} {files before : FileSystem}

theorem any_units_iff (owned : p.Owned) (holds : SourceUnit → Bool) :
    ((p.units.values.filter fun unit => folderOf? unit.resource == some folder).any holds) = true ↔
      ∃ resource unit, folderOf? resource = some folder ∧ p.unit? resource = some unit ∧
        holds unit = true := by
  simp only [List.any_eq_true, List.mem_filter, Table.values, List.mem_map, beq_iff_eq]
  constructor
  · rintro ⟨unit, ⟨⟨⟨resource, _⟩, member, rfl⟩, inside⟩, holding⟩
    have known : p.unit? resource = some _ := owned.ascending.get?_of_mem member
    rw [owned.resource resource _ known] at inside
    exact ⟨resource, _, inside, known, holding⟩
  · rintro ⟨resource, unit, inside, known, holding⟩
    refine ⟨unit, ⟨⟨(resource, unit), Table.mem_of_get? known, rfl⟩, ?_⟩, holding⟩
    rw [owned.resource resource unit known]
    exact inside

theorem check_eq_nil (owned : p.Owned)
    (none : ∀ resource, folderOf? resource = some folder → p.unit? resource = none) :
    check p files folder = [] := by
  have no : ¬((p.units.values.filter fun unit => folderOf? unit.resource == some folder).any
      exportsType) = true := by
    rw [any_units_iff owned]
    rintro ⟨resource, unit, inside, known, -⟩
    rw [none resource inside] at known
    cases known
  simp only [check]
  rw [if_neg (by simp only [Bool.and_eq_true, not_and]; exact fun _ => no)]

/-- The markers of a folder depend on the texts of its sources and on its package file. -/
theorem check_congr (left : p.Owned) (right : q.Owned) (layout : p.layout = q.layout)
    (file : files.isFile (Path.join (p.layout.pathOf folder) fileName) =
      before.isFile (Path.join (p.layout.pathOf folder) fileName))
    (sources : ∀ resource, folderOf? resource = some folder →
      (p.unit? resource).map SourceUnit.parsed = (q.unit? resource).map SourceUnit.parsed) :
    check p files folder = check q before folder := by
  have same : ∀ holds : SourceUnit → Bool, (∀ unit, holds unit.parsed = holds unit) →
      ((p.units.values.filter fun unit => folderOf? unit.resource == some folder).any holds) =
        ((q.units.values.filter fun unit => folderOf? unit.resource == some folder).any holds) := by
    intro holds bare
    rw [Bool.eq_iff_iff, any_units_iff left, any_units_iff right]
    have half : ∀ {a b : Project}, (∀ resource, folderOf? resource = some folder →
        (a.unit? resource).map SourceUnit.parsed = (b.unit? resource).map SourceUnit.parsed) →
        (∃ resource unit, folderOf? resource = some folder ∧ a.unit? resource = some unit ∧
          holds unit = true) →
        ∃ resource unit, folderOf? resource = some folder ∧ b.unit? resource = some unit ∧
          holds unit = true := by
      rintro a b alike ⟨resource, unit, inside, known, holding⟩
      have other := alike resource inside
      rw [known, Option.map_some, eq_comm, Option.map_eq_some_iff] at other
      obtain ⟨twin, found, parsed⟩ := other
      exact ⟨resource, twin, inside, found, by rw [← bare, parsed, bare, holding]⟩
    exact ⟨half sources, half fun resource inside => (sources resource inside).symm⟩
  simp only [check]
  rw [same (fun unit => Text.endsWith fileName unit.resource) fun _ => rfl,
    same exportsType fun _ => rfl, ← layout, file]

end Check

end PackageInfo

namespace Project

variable {files : FileSystem} {excluded : List Glob} {folder : String}

theorem not_mem_discover_of_folder (project : Project) (layout : Layout) (apart : files.Apart)
    (folded : folder ∈ PackageInfo.folders layout (project.discover files excluded)) :
    folder ∉ project.discover files excluded := by
  intro source
  obtain ⟨resource, found, -, split⟩ := PackageInfo.mem_folders_iff.mp folded
  obtain ⟨name, rfl, -⟩ := PackageInfo.folderOf?_eq_some split
  exact apart.not_below (List.mem_filter.mp source).1 (List.mem_filter.mp found).1

end Project

end SpringLint
