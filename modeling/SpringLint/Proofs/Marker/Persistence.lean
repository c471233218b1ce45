import SpringLint.Proofs.FileSystem
import SpringLint.Proofs.Marker.Record
import SpringLint.Proofs.Marker.Store

/-! What a store keeps from one opening of its file to the next. -/

namespace SpringLint

namespace Text

theorem trim_ne_empty {text : String} {c : Char} {rest : List Char} (starts : text.toList = c :: rest)
    (solid : isBlank c = false) : trim text ≠ "" := by
  have front : text.toList.dropWhile isBlank = c :: rest := by
    rw [starts, List.dropWhile_cons_of_neg (by simp [solid])]
  have back : (c :: rest).reverse.dropWhile isBlank ≠ [] := by
    rw [Ne, List.dropWhile_eq_nil_iff]
    intro blank
    have none := blank c (by simp)
    rw [solid] at none
    cases none
  unfold trim trimBoth dropTail
  rw [front]
  intro empty
  have gone := congrArg String.toList empty
  rw [String.toList_ofList] at gone
  exact back (List.reverse_eq_nil_iff.mp gone)

end Text

namespace MarkerStore

inductive Action where
  | delete (resource : String)
  | create (markers : List Marker)
  | clear
  | flush
  deriving DecidableEq, Repr

namespace Action

def wipes (resource : String) : Action → Bool
  | .delete other => other == resource
  | .clear => true
  | .create _ | .flush => false

def adds (resource : String) : Action → List Marker
  | .create markers => markers.filter (·.resource == resource)
  | .delete _ | .clear | .flush => []

/-- Numbers in 64 bits, in all markers that are created. -/
def Fits : Action → Prop
  | .create markers => ∀ m ∈ markers, m.Fits
  | .delete _ | .clear | .flush => True

instance : (action : Action) → Decidable action.Fits
  | .create markers => inferInstanceAs (Decidable (∀ m ∈ markers, m.Fits))
  | .delete _ | .clear | .flush => inferInstanceAs (Decidable True)

theorem fits_of_mem_adds {action : Action} (fits : action.Fits) {resource : String} {m : Marker}
    (member : m ∈ action.adds resource) : m.Fits := by
  cases action with
  | create markers => exact fits m (List.mem_filter.mp member).1
  | _ => cases member

end Action

/-- The files and the store after an action. There is no result when the store cannot be written. -/
def perform (files : FileSystem) (store : MarkerStore) :
    Action → Except Error (FileSystem × MarkerStore)
  | .delete resource => .ok (files, store.delete resource)
  | .create markers => .ok (files, store.create markers)
  | .clear => .ok (files, store.clear)
  | .flush =>
    match store.flush files with
    | (files, .ok store) => .ok (files, store)
    | (_, .error fault) => .error fault

def run (files : FileSystem) (store : MarkerStore) :
    List Action → Except Error (FileSystem × MarkerStore)
  | [] => .ok (files, store)
  | action :: rest =>
    match perform files store action with
    | .ok (files, store) => run files store rest
    | .error fault => .error fault

/-- The markers created for a resource since all of its markers were last removed, in the order of
their creation. -/
def createdSince (resource : String) (actions : List Action) : List Marker :=
  (actions.reverse.takeWhile fun action => !action.wipes resource).reverse.flatMap
    (·.adds resource)

theorem createdSince_concat (resource : String) (actions : List Action) (action : Action) :
    createdSince resource (actions ++ [action]) =
      if action.wipes resource then [] else createdSince resource actions ++ action.adds resource := by
  unfold createdSince
  rw [List.reverse_append, List.reverse_singleton, List.singleton_append, List.takeWhile_cons]
  cases action.wipes resource with
  | true => rfl
  | false =>
    simp only [Bool.not_false, if_true, Bool.false_eq_true, if_false, List.reverse_cons,
      List.flatMap_append, List.flatMap_singleton]

theorem fits_of_mem_createdSince {actions : List Action} (fits : ∀ action ∈ actions, action.Fits)
    {resource : String} {m : Marker} (member : m ∈ createdSince resource actions) : m.Fits := by
  obtain ⟨action, late, adds⟩ := List.mem_flatMap.mp member
  have listed : action ∈ actions :=
    List.mem_reverse.mp ((List.takeWhile_sublist _).mem (List.mem_reverse.mp late))
  exact Action.fits_of_mem_adds (fits action listed) adds

theorem mem_markers_of_mem_all {store : MarkerStore} (sound : store.Sound) {m : Marker}
    (member : m ∈ store.all) : m ∈ store.markers m.resource := by
  rw [← sound.filter_all]
  exact List.mem_filter.mpr ⟨member, beq_self_eq_true _⟩

/-- A store after actions. The file is read back to the markers as they are, unless the store says
that it may not be. -/
structure Kept (path : String) (actions : List Action) (files : FileSystem) (store : MarkerStore) :
    Prop where
  place : store.path = some path
  sound : store.Sound
  markers : ∀ resource, store.markers resource = createdSince resource actions
  saved : store.isDirty = false → openAt files path = .ok store

variable {files later written : FileSystem} {path : String} {store opened next : MarkerStore}
  {actions done : List Action}

theorem brackets_writeAll (markers : List Marker) :
    ∃ rest, (Marker.writeAll markers).toList = '[' :: rest := by
  unfold Marker.writeAll
  cases markers with
  | nil =>
    rw [List.map_nil, Json.pretty, Json.prettyItems, Json.toList_bracket_nil]
    exact ⟨_, rfl⟩
  | cons m rest =>
    rw [List.map_cons, Json.toList_array]
    exact ⟨_, rfl⟩

theorem openAt_cases (opens : openAt files path = .ok opened) :
    opened = { path := some path } ∨ ∃ text markers, Marker.readAll? text = some markers ∧
      opened = { ({ path := some path } : MarkerStore).create markers with isDirty := false } := by
  unfold openAt at opens
  split at opens
  · split at opens
    · cases opens
    · split at opens
      · cases opens
        exact .inl rfl
      · split at opens
        · rename_i read
          cases opens
          exact .inr ⟨_, _, read, rfl⟩
        · cases opens
  · cases opens
    exact .inl rfl

theorem fits_of_openAt (opens : openAt files path = .ok opened) : ∀ m ∈ opened.all, m.Fits := by
  have sound := Sound.openAt opens
  intro m member
  have among := mem_markers_of_mem_all sound member
  rcases openAt_cases opens with rfl | ⟨text, markers, read, rfl⟩
  · cases among
  · have created : m ∈ ({ path := some path } : MarkerStore).markers m.resource ++
        markers.filter (·.resource == m.resource) := by
      rw [← markers_create]
      exact among
    have none : ({ path := some path } : MarkerStore).markers m.resource = [] := rfl
    rw [none, List.nil_append] at created
    exact Marker.fits_of_readAll? read m (List.mem_filter.mp created).1

theorem openAt_of_read (place : store.path = some path) (sound : store.Sound)
    (fits : ∀ m ∈ store.all, m.Fits) (file : files.isFile path = true)
    (read : files.read path = .ok (Marker.writeAll store.all)) :
    openAt files path = .ok { store with isDirty := false } := by
  obtain ⟨rest, starts⟩ := brackets_writeAll store.all
  have filled : (Text.trim (Marker.writeAll store.all) == "") = false :=
    beq_eq_false_iff_ne.mpr (Text.trim_ne_empty starts (by decide))
  have empty := Sound.empty (some path)
  have table : (({ path := some path } : MarkerStore).create store.all).table = store.table := by
    apply (empty.create store.all).table_eq sound
    intro resource
    rw [markers_create, sound.filter_all]
    rfl
  unfold openAt
  simp only [file, if_true, read, filled, Bool.false_eq_true, if_false, Marker.readAll?_writeAll fits]
  rw [table, ← place]
  rfl

theorem fits_all (sound : store.Sound)
    (markers : ∀ resource, store.markers resource = createdSince resource actions)
    (fits : ∀ action ∈ actions, action.Fits) : ∀ m ∈ store.all, m.Fits := by
  intro m member
  have among := mem_markers_of_mem_all sound member
  rw [markers] at among
  exact fits_of_mem_createdSince fits among

theorem flush_cases {flushed : Except Error MarkerStore} (place : store.path = some path)
    (flushes : store.flush files = (written, flushed)) (done : flushed = .ok next) :
    next = { store with isDirty := false } ∧
      (store.isDirty = false ∧ written = files ∨
        ∃ made : FileSystem, made.write path (Marker.writeAll store.all).toUTF8 = .ok written) := by
  rw [done] at flushes
  unfold flush at flushes
  rw [place] at flushes
  dsimp only at flushes
  split at flushes
  · split at flushes
    · cases flushes
    · split at flushes
      · cases flushes
      · rename_i made _ other into
        cases flushes
        exact ⟨by rw [place], .inr ⟨_, into⟩⟩
  · rename_i clean
    have same : store.isDirty = false := by simpa using clean
    cases flushes
    exact ⟨by rw [← same], .inl ⟨same, rfl⟩⟩

theorem Kept.of_openAt (opens : openAt files path = .ok opened) :
    Kept path [.create opened.all] files opened := by
  have sound := Sound.openAt opens
  have clean : opened.path = some path ∧ opened.isDirty = false := by
    rcases openAt_cases opens with rfl | ⟨text, markers, -, rfl⟩
    · exact ⟨rfl, rfl⟩
    · exact ⟨rfl, rfl⟩
  refine ⟨clean.1, sound, fun resource => ?_, fun _ => opens⟩
  rw [← sound.filter_all]
  exact (List.append_nil _).symm

theorem Kept.flush (kept : Kept path done files store) (fits : ∀ action ∈ done, action.Fits)
    (flushes : store.flush files = (written, .ok next)) :
    next = { store with isDirty := false } ∧ openAt written path = .ok next := by
  obtain ⟨same, ⟨clean, untouched⟩ | ⟨made, into⟩⟩ := flush_cases kept.place flushes rfl
  · have still : next = store := by rw [same, ← clean]
    rw [untouched, still]
    exact ⟨by rw [← clean], kept.saved clean⟩
  · rw [same]
    exact ⟨rfl, openAt_of_read kept.place kept.sound (fits_all kept.sound kept.markers fits)
      (FileSystem.isFile_write into) (FileSystem.read_write into)⟩

/-- What every action keeps. -/
theorem Kept.perform (kept : Kept path done files store) {action : Action}
    (fits : ∀ action ∈ done, action.Fits)
    (performed : MarkerStore.perform files store action = .ok (later, next)) :
    Kept path (done ++ [action]) later next := by
  cases action with
  | delete other =>
    cases performed
    refine ⟨kept.place, kept.sound.delete other, fun resource => ?_, fun clean => by cases clean⟩
    rw [markers_delete, createdSince_concat, kept.markers]
    by_cases same : resource = other
    · simp [Action.wipes, same]
    · simp [Action.wipes, Action.adds, same, Ne.symm same]
  | create markers =>
    cases performed
    refine ⟨kept.place, kept.sound.create markers, fun resource => ?_, fun clean => by cases clean⟩
    rw [markers_create, createdSince_concat, kept.markers]
    rfl
  | clear =>
    cases performed
    refine ⟨kept.place, ⟨Table.ascending_empty, fun _ member => nomatch member⟩, fun resource => ?_,
      fun clean => by cases clean⟩
    rw [createdSince_concat]
    rfl
  | flush =>
    unfold MarkerStore.perform at performed
    dsimp only at performed
    split at performed
    · rename_i flushes
      cases performed
      obtain ⟨same, opens⟩ := kept.flush fits flushes
      refine ⟨?_, ?_, fun resource => ?_, fun _ => opens⟩
      · rw [same]
        exact kept.place
      · exact kept.sound.of_table (by rw [same])
      · have still : next.markers resource = store.markers resource := by rw [same]; rfl
        rw [still, kept.markers, createdSince_concat]
        exact (List.append_nil _).symm
    · cases performed

theorem Kept.run (kept : Kept path done files store)
    (fits : ∀ action ∈ done ++ actions, action.Fits)
    (ran : MarkerStore.run files store actions = .ok (later, next)) :
    Kept path (done ++ actions) later next := by
  induction actions generalizing done files store with
  | nil =>
    cases ran
    rwa [List.append_nil]
  | cons action rest ih =>
    rw [MarkerStore.run] at ran
    split at ran
    · rename_i performed
      have earlier : ∀ other ∈ done, other.Fits :=
        fun other member => fits other (List.mem_append_left _ member)
      have first := kept.perform earlier performed
      have grouped : done ++ [action] ++ rest = done ++ action :: rest := by simp
      rw [← grouped] at fits ⊢
      exact ih first fits ran
    · cases ran

/-- A store keeps its markers from one opening of its file to the next. The markers of a resource are
those that were created since it last lost all; right after a flush the file holds them all, and it is
read back to them. -/
theorem reopened_after_flush (opens : openAt files path = .ok opened)
    (fits : ∀ action ∈ actions, action.Fits)
    (ran : run files opened actions = .ok (later, store)) :
    (∀ resource, store.markers resource =
        createdSince resource (.create opened.all :: actions)) ∧
      (∀ written flushed, store.flush later = (written, .ok flushed) →
        ∃ reopened, openAt written path = .ok reopened ∧
          (∀ resource, reopened.markers resource = store.markers resource) ∧
          reopened.all = store.all) ∧
      ∀ markers : List Marker, (∀ m ∈ markers, m.Fits) →
        Marker.readAll? (Marker.writeAll markers) = some markers := by
  have whole : ∀ action ∈ [.create opened.all] ++ actions, action.Fits := by
    intro action member
    rcases List.mem_append.mp member with first | among
    · rw [List.mem_singleton.mp first]
      exact fits_of_openAt opens
    · exact fits action among
  have kept := (Kept.of_openAt opens).run whole ran
  refine ⟨kept.markers, fun written flushed flushes => ?_, fun markers => Marker.readAll?_writeAll⟩
  obtain ⟨same, again⟩ := kept.flush whole flushes
  refine ⟨flushed, again, fun resource => ?_, ?_⟩
  · rw [same]
    rfl
  · rw [same]
    rfl

def keptFiles : FileSystem where
  entries := .ofList [("/m", .file ("[\x7b\"problem_id\":\"7\",\"severity\":\"error\"," ++
    "\"resource\":\"A\",\"message\":\"m\"\x7d]").toUTF8)]

def keptActions : List Action :=
  let added : Marker :=
    { problemId := "7", severity := .warning, resource := "B", start := some 2, message := "\"\n" }
  [.create [added], .flush, .delete "A", .create [added, { added with resource := "A" }]]

/-- A store with one marker is written twice. -/
theorem reopened_after_flush_kept :
    ∃ opened later store, openAt keptFiles "m" = .ok opened ∧
      (∀ action ∈ keptActions, action.Fits) ∧
      run keptFiles opened keptActions = .ok (later, store) ∧
      (∀ resource, store.markers resource =
        createdSince resource (.create opened.all :: keptActions)) ∧
      (∀ written flushed, store.flush later = (written, .ok flushed) →
        ∃ reopened, openAt written "m" = .ok reopened ∧
          (∀ resource, reopened.markers resource = store.markers resource) ∧
          reopened.all = store.all) ∧
      ∀ markers : List Marker, (∀ m ∈ markers, m.Fits) →
        Marker.readAll? (Marker.writeAll markers) = some markers := by
  have fits : ∀ action ∈ keptActions, action.Fits := by decide
  have succeeds : (match openAt keptFiles "m" with
      | .ok opened => (run keptFiles opened keptActions).toBool
      | .error _ => false) = true := by
    decide +kernel
  cases opens : openAt keptFiles "m" with
  | error fault =>
    rw [opens] at succeeds
    cases succeeds
  | ok opened =>
    rw [opens] at succeeds
    cases ran : run keptFiles opened keptActions with
    | error fault =>
      dsimp only at succeeds
      rw [ran] at succeeds
      cases succeeds
    | ok result =>
      exact ⟨opened, result.1, result.2, rfl, fits, ran, reopened_after_flush opens fits ran⟩

end MarkerStore

end SpringLint
