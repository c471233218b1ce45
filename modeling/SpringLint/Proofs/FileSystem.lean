import SpringLint.FileSystem
import SpringLint.Proofs.Path

/-! A file that has been written is there, with its text, and writing it touches nothing else. -/

namespace SpringLint.FileSystem

variable {fs later last : FileSystem} {path source target : String} {content : ByteArray}
  {at_ rest found parts names : List String}

theorem ne_nil_of_entryAt? {parts : List String} (other : fs.entry? parts ≠ some .folder) :
    parts ≠ [] := by
  rintro rfl
  exact other rfl

theorem get?_of_entryAt? {parts : List String} (filled : parts ≠ []) :
    fs.entry? parts = fs.entries.get? (Path.ofParts parts) := by
  unfold entry?
  rw [if_neg (by simpa using filled)]

theorem entry?_put_self {parts : List String} (filled : parts ≠ []) (entry : Entry) :
    FileSystem.entry? (fs.put parts entry) parts = some entry := by
  rw [get?_of_entryAt? filled, put, Table.get?_insert, if_pos rfl]

theorem entry?_put_of_folder {parts folder : List String} (other : fs.entry? parts ≠ some .folder)
    (stands : fs.entry? folder = some .folder) (entry : Entry) :
    FileSystem.entry? (fs.put parts entry) folder = some .folder := by
  by_cases root : folder = []
  · rw [root]
    rfl
  · rw [get?_of_entryAt? root] at stands ⊢
    rw [get?_of_entryAt? (ne_nil_of_entryAt? other)] at other
    have apart : Path.ofParts folder ≠ Path.ofParts parts := by
      intro same
      rw [same] at stands
      exact other stands
    rw [put, Table.get?_insert, if_neg apart, stands]

/-- A path leads on where it led as long as no folder goes. -/
theorem follow_mono
    (folders : ∀ parts, fs.entry? parts = some .folder → later.entry? parts = some .folder)
    (followed : fs.follow at_ rest = .ok found) : later.follow at_ rest = .ok found := by
  induction rest generalizing at_ with
  | nil => exact followed
  | cons part rest ih =>
    rw [follow] at followed ⊢
    cases stands : fs.entry? at_ with
    | none =>
      rw [stands] at followed
      cases followed
    | some entered =>
      cases entered with
      | file content =>
        rw [stands] at followed
        cases followed
      | folder =>
        rw [stands] at followed
        rw [folders at_ stands]
        exact ih followed

theorem follow_put {parts : List String} (other : fs.entry? parts ≠ some .folder) (entry : Entry)
    (followed : fs.follow at_ rest = .ok found) :
    (fs.put parts entry).follow at_ rest = .ok found :=
  follow_mono (fun _ stands => entry?_put_of_folder other stands entry) followed

theorem eq_of_follow (followed : fs.follow at_ rest = .ok found) :
    found = (rest.foldl (fun kept part => if part == ".." then kept.tail else part :: kept)
      at_.reverse).reverse := by
  induction rest generalizing at_ with
  | nil => simpa [follow] using followed.symm
  | cons part rest ih =>
    rw [follow] at followed
    split at followed
    · cases followed
    · cases followed
    · rw [ih followed, List.foldl_cons]
      by_cases back : part = ".." <;> simp [back]

theorem eq_resolved_of_follow (followed : fs.follow [] rest = .ok found) :
    found = Path.resolved rest :=
  eq_of_follow followed

theorem follow_append (front back : List String) :
    fs.follow at_ (front ++ back) = (fs.follow at_ front).bind fun middle => fs.follow middle back := by
  induction front generalizing at_ with
  | nil => rfl
  | cons part front ih =>
    rw [List.cons_append, follow, follow]
    split
    · rfl
    · rfl
    · exact ih

theorem folder_above (followed : fs.follow at_ rest = .ok found)
    (above : ∀ n < at_.length, fs.entry? (at_.take n) = some .folder) :
    ∀ n < found.length, fs.entry? (found.take n) = some .folder := by
  induction rest generalizing at_ with
  | nil =>
    cases followed
    exact above
  | cons part rest ih =>
    rw [follow] at followed
    split at followed
    · cases followed
    · cases followed
    · rename_i stands
      refine ih followed fun n before => ?_
      by_cases back : part = ".."
      · simp only [back, beq_self_eq_true, if_true, List.length_dropLast] at before ⊢
        rw [List.dropLast_eq_take, List.take_take, Nat.min_eq_left (by omega)]
        exact above n (by omega)
      · simp only [beq_iff_eq, back, if_false, List.length_append, List.length_singleton] at before ⊢
        rcases Nat.lt_succ_iff_lt_or_eq.mp before with early | rfl
        · rw [List.take_append_of_le_length (by omega)]
          exact above n early
        · rw [List.take_left]
          exact stands

theorem exists_of_write (written : fs.write path content = .ok later) :
    ∃ parts, fs.follow [] (fs.absolute path) = .ok parts ∧ fs.entry? parts ≠ some .folder ∧
      asksFolder path = false ∧ later = fs.put parts (.file content) := by
  unfold write at written
  cases followed : fs.follow [] (fs.absolute path) with
  | error fault =>
    rw [followed] at written
    cases written
  | ok parts =>
    rw [followed] at written
    simp only [bind, Except.bind] at written
    split at written
    · cases written
    · rename_i stands
      split at written
      · cases written
      · rename_i plain
        exact ⟨parts, rfl, by simp [stands], by simpa using plain, (Except.ok.inj written).symm⟩
    · rename_i stands
      split at written
      · cases written
      · rename_i plain
        exact ⟨parts, rfl, by simp [stands], by simpa using plain, (Except.ok.inj written).symm⟩

theorem find_write (written : fs.write path content = .ok later) :
    later.find path = .ok (.file content) := by
  obtain ⟨parts, followed, other, plain, rfl⟩ := exists_of_write written
  have again : (fs.put parts (.file content)).follow [] (fs.absolute path) = .ok parts :=
    follow_put other _ followed
  have same : (fs.put parts (.file content)).absolute path = fs.absolute path := rfl
  unfold find
  rw [same, again]
  simp only [bind, Except.bind, entry?_put_self (ne_nil_of_entryAt? other), plain, Bool.false_eq_true,
    if_false]

theorem isFile_write (written : fs.write path content = .ok later) : later.isFile path = true := by
  unfold isFile
  rw [find_write written]

theorem read_write {text : String} (written : fs.write path text.toUTF8 = .ok later) :
    later.read path = .ok text := by
  have decoded : String.fromUTF8? text.toUTF8 = some text := by
    unfold String.fromUTF8?
    exact dif_pos text.isValidUTF8
  unfold read
  rw [find_write written]
  simp only [decoded]

theorem exists_find_of_read {text : String} (read : fs.read path = .ok text) :
    ∃ content, fs.find path = .ok (.file content) := by
  unfold FileSystem.read at read
  split at read
  · cases read
  · cases read
  · exact ⟨_, ‹_›⟩

/-! What writing and moving files leaves as it is. -/

def place (fs : FileSystem) (path : String) : String :=
  Path.ofParts (Path.resolved (fs.absolute path))

/-- Nothing but the named entries may have changed. -/
structure AgreesBut (fs later : FileSystem) (names : List String) : Prop where
  current : later.current = fs.current
  entries : ∀ name ∉ names, later.entries.get? name = fs.entries.get? name

namespace AgreesBut

theorem refl (fs : FileSystem) (names : List String) : fs.AgreesBut fs names :=
  ⟨rfl, fun _ _ => rfl⟩

theorem trans (first : fs.AgreesBut later names) (second : later.AgreesBut last names) :
    fs.AgreesBut last names :=
  ⟨second.current.trans first.current,
    fun name other => (second.entries name other).trans (first.entries name other)⟩

theorem mono {more : List String} (agrees : fs.AgreesBut later names)
    (among : ∀ name ∈ names, name ∈ more) : fs.AgreesBut later more :=
  ⟨agrees.current, fun name other => agrees.entries name fun member => other (among name member)⟩

theorem place_eq (agrees : fs.AgreesBut later names) (path : String) :
    later.place path = fs.place path := by
  rw [place, place, absolute, absolute, agrees.current]

end AgreesBut

theorem find_eq_file (stands : fs.find path = .ok (.file content)) :
    ∃ parts, fs.follow [] (fs.absolute path) = .ok parts ∧
      fs.entry? parts = some (.file content) ∧ asksFolder path = false ∧
      fs.place path = Path.ofParts parts := by
  unfold find at stands
  cases followed : fs.follow [] (fs.absolute path) with
  | error fault =>
    rw [followed] at stands
    cases stands
  | ok parts =>
    rw [followed] at stands
    simp only [bind, Except.bind] at stands
    split at stands
    · cases stands
    · cases stands
    · rename_i there
      split at stands
      · cases stands
      · rename_i plain
        cases stands
        refine ⟨parts, rfl, there, by simpa using plain, ?_⟩
        rw [place, eq_resolved_of_follow followed]

theorem AgreesBut.find (agrees : fs.AgreesBut later names)
    (stands : fs.find path = .ok (.file content)) (apart : fs.place path ∉ names)
    (files : ∀ name ∈ names, fs.entries.get? name ≠ some .folder) :
    later.find path = .ok (.file content) := by
  obtain ⟨parts, followed, there, plain, named⟩ := find_eq_file stands
  have other : fs.entry? parts ≠ some .folder := by simp [there]
  have filled : parts ≠ [] := ne_nil_of_entryAt? other
  have folders : ∀ folder, fs.entry? folder = some .folder → later.entry? folder = some .folder := by
    intro folder stands
    by_cases root : folder = []
    · rw [root]
      rfl
    · rw [get?_of_entryAt? root] at stands ⊢
      rw [agrees.entries _ fun member => files _ member stands, stands]
  have again : later.follow [] (later.absolute path) = .ok parts := by
    rw [absolute, agrees.current]
    exact follow_mono folders followed
  have kept : later.entry? parts = some (.file content) := by
    rw [get?_of_entryAt? filled] at there ⊢
    rw [agrees.entries _ (named ▸ apart), there]
  unfold FileSystem.find
  rw [again]
  simp only [bind, Except.bind, kept, plain, Bool.false_eq_true, if_false]

theorem agreesBut_of_write (written : fs.write path content = .ok later) :
    fs.AgreesBut later [fs.place path] ∧ fs.entries.get? (fs.place path) ≠ some .folder := by
  obtain ⟨parts, followed, other, -, rfl⟩ := exists_of_write written
  have named : fs.place path = Path.ofParts parts := by
    rw [place, eq_resolved_of_follow followed]
  rw [get?_of_entryAt? (ne_nil_of_entryAt? other)] at other
  refine ⟨⟨rfl, fun name apart => ?_⟩, named ▸ other⟩
  rw [put, Table.get?_insert, if_neg fun same => apart (by rw [named, same]; exact List.mem_singleton_self _)]

theorem agreesBut_unlink (fs : FileSystem) (path : String) :
    fs.AgreesBut (fs.unlink path) [fs.place path] := by
  unfold unlink
  split
  · rename_i parts _ followed
    refine ⟨rfl, fun name apart => ?_⟩
    rw [Table.get?_erase, if_neg]
    rintro rfl
    rw [place, ← eq_resolved_of_follow followed] at apart
    exact apart (List.mem_singleton_self _)
  · exact .refl ..

theorem exists_of_rename (moved : fs.rename source target = .ok later) :
    ∃ content, fs.find source = .ok (.file content) ∧
      (fs.unlink source).write target content = .ok later := by
  unfold rename at moved
  cases stands : fs.find source with
  | error fault =>
    rw [stands] at moved
    cases moved
  | ok entry =>
    rw [stands] at moved
    cases entry with
    | folder => cases moved
    | file content =>
      refine ⟨content, rfl, ?_⟩
      cases written : (fs.unlink source).write target content with
      | error fault => simp [written, bind, Except.bind] at moved
      | ok done => simpa [written, bind, Except.bind] using moved

theorem agreesBut_of_rename (moved : fs.rename source target = .ok later) :
    fs.AgreesBut later [fs.place source, fs.place target] := by
  obtain ⟨content, -, written⟩ := exists_of_rename moved
  have gone := agreesBut_unlink fs source
  have put := (agreesBut_of_write written).1
  rw [gone.place_eq] at put
  exact (gone.mono (by simp)).trans (put.mono (by simp))

theorem lastPart_ne_of_asksFolder (plain : asksFolder path = false) :
    Text.lastPart '/' path ≠ "" ∧ Text.lastPart '/' path ≠ "." := by
  simp only [asksFolder, Bool.or_eq_false_iff, beq_eq_false_iff_ne] at plain
  obtain ⟨⟨last, filled⟩, dot⟩ := plain
  refine ⟨fun empty => ?_, dot⟩
  rcases (Text.lastPart_cases '/' path).2 with same | ⟨head, whole⟩
  · rw [empty] at same
    exact filled (same ▸ rfl)
  · rw [empty] at whole
    exact last (by simp [whole])

theorem folder_of_follow_back {front : List String}
    (followed : fs.follow [] (front ++ [".."]) = .ok found) : fs.entry? found = some .folder := by
  rw [follow_append] at followed
  cases inner : fs.follow [] front with
  | error fault =>
    rw [inner] at followed
    cases followed
  | ok middle =>
    rw [inner] at followed
    change fs.follow middle [".."] = .ok found at followed
    rw [follow] at followed
    split at followed
    · cases followed
    · cases followed
    · have same : middle.dropLast = found := by simpa [follow] using followed
      rw [← same]
      by_cases root : middle = []
      · rw [root]
        rfl
      · have filled := List.length_pos_iff.mpr root
        rw [List.dropLast_eq_take]
        exact folder_above inner (by simp) _ (by omega)

theorem exists_absolute_append (fs : FileSystem) {front : String}
    (parted : front = "" ∨ front.toList.getLast? = some '/') :
    ∃ above, ∀ name : String, '/' ∉ name.toList → name ≠ "" → name ≠ "." →
      fs.absolute (front ++ name) = above ++ [name] := by
  obtain ⟨pieces, split⟩ := Text.exists_split_append '/' parted
  have below : ∀ name : String, '/' ∉ name.toList → name ≠ "" → name ≠ "." →
      Path.parts (front ++ name) =
        (pieces.filter fun part => part != "" && part != ".") ++ [name] := by
    intro name absent filled plain
    rw [Path.parts, split name absent, List.filter_append]
    simp [filled, plain]
  have head : ∀ name : String, '/' ∉ name.toList →
      Path.isAbsolute (front ++ name) = Path.isAbsolute front := by
    intro name absent
    rcases parted with rfl | parted
    · cases chars : name.toList with
      | nil => simp [Path.isAbsolute, chars]
      | cons c rest =>
        have other : c ≠ '/' := fun same => absent (by simp [chars, same])
        simp [Path.isAbsolute, chars, other]
    · cases chars : front.toList with
      | nil => simp [chars] at parted
      | cons c rest => simp [Path.isAbsolute, chars]
  refine ⟨(if Path.isAbsolute front then [] else Path.parts fs.current) ++
    pieces.filter fun part => part != "" && part != ".", fun name absent filled plain => ?_⟩
  rw [absolute, head name absent, below name absent filled plain]
  split <;> simp

theorem place_withExtension_ne {ext : String} (dotted : '.' ∈ ext.toList)
    (slashless : '/' ∉ ext.toList) (stands : fs.find path = .ok (.file content)) :
    fs.place (Path.withExtension path ext) ≠ fs.place path := by
  obtain ⟨parts, followed, there, plain, -⟩ := find_eq_file stands
  obtain ⟨filled, single⟩ := lastPart_ne_of_asksFolder plain
  have absent := (Text.lastPart_cases '/' path).1
  have named : Text.lastPart '/' path ≠ ".." := by
    intro back
    obtain ⟨before, ends⟩ := Path.exists_parts_eq filled single
    have way : ∃ front, fs.absolute path = front ++ [".."] := by
      rw [absolute, ends, back]
      split
      · exact ⟨before, rfl⟩
      · exact ⟨Path.parts fs.current ++ before, (List.append_assoc ..).symm⟩
    obtain ⟨front, way⟩ := way
    rw [way] at followed
    rw [folder_of_follow_back followed] at there
    cases there
  obtain ⟨front, parted, whole, renamed⟩ := Path.exists_withExtension_eq filled single named ext
  generalize Text.lastPart '/' path = name at filled single named absent whole renamed
  obtain ⟨above, split⟩ := fs.exists_absolute_append parted
  -- The new name has at least three characters, so it is no step of a path.
  have long : 3 ≤ (Path.stem name ++ "." ++ ext).length := by
    have stem : (Path.stem name).length ≠ 0 := by simpa using Path.stem_ne_empty filled
    have tail : 0 < ext.length := List.length_pos_of_mem dotted
    have dot : ".".length = 1 := rfl
    simp only [String.length_append]
    omega
  have other : ∀ step : String, step.length < 3 → Path.stem name ++ "." ++ ext ≠ step := by
    rintro _ short rfl
    omega
  have free : '/' ∉ (Path.stem name ++ "." ++ ext).toList := by
    have dot : ".".toList = ['.'] := rfl
    simp only [String.toList_append, List.mem_append, dot, List.mem_singleton, not_or]
    exact ⟨⟨mt Path.mem_of_mem_stem absent, by decide⟩, slashless⟩
  intro same
  rw [renamed, place, place, split _ free (other _ (by decide)) (other _ (by decide)), whole,
    split name absent filled single, Path.resolved_concat _ named,
    Path.resolved_concat _ (other _ (by decide))] at same
  exact Path.stem_append_ne name dotted (Path.ofParts_concat_inj same)

end SpringLint.FileSystem
