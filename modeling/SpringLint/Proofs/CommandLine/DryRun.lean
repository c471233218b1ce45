import SpringLint.CommandLine.Run
import SpringLint.Proofs.Check.Findings
import SpringLint.Proofs.Fix.Atomicity
import SpringLint.Proofs.Fix.Printing

/-! Dry runs of fixes. Each time the whole store is searched again for a marker to try; the run ends
because it tries the first marker of each key, one after another, and leaves everything else alone. -/

namespace SpringLint.Command

abbrev Trial := Marker × Fixer

def Trial.key (trial : Trial) : String :=
  trial.1.key

/-- The fix that is tried for a marker: the first one, if the marker is among those asked for. -/
def fixOf? (fixers : Fixers) (only : Option Problem) (m : Marker) : Option Fixer := do
  guard (only.isNone || m.problem? == only)
  let fixers ← (fixers.forMarker m).toOption
  fixers.head?

theorem mem_of_fixOf? {fixers : Fixers} {only : Option Problem} {m : Marker} {fixer : Fixer}
    (found : fixOf? fixers only m = some fixer) : fixer ∈ fixers := by
  have ⟨_, found⟩ := Check.guard_bind_eq_some_iff.mp found
  have ⟨own, listed, first⟩ := Option.bind_eq_some_iff.mp found
  unfold Fixers.forMarker at listed
  split at listed
  · cases listed
    exact (List.mem_filter.mp (List.mem_of_head? first)).1
  · cases listed

/-- The markers of a session that can be tried, in order. -/
def trials (session : Session) (only : Option Problem) : List Trial :=
  session.store.all.filterMap fun m => (fixOf? session.fixers only m).map fun fixer => (m, fixer)

/-- The first trial of each key that has not been seen. -/
def firsts (seen : List String) : List Trial → List Trial
  | [] => []
  | trial :: rest =>
    if seen.contains trial.key then firsts seen rest
    else trial :: firsts (trial.key :: seen) rest

section Firsts

variable {seen : List String} {trials rest : List Trial} {trial : Trial}

theorem firsts_sublist (seen : List String) (trials : List Trial) :
    (firsts seen trials).Sublist trials := by
  induction trials generalizing seen with
  | nil => exact .slnil
  | cons trial rest ih =>
    unfold firsts
    split
    · exact (ih seen).cons trial
    · exact (ih _).cons_cons trial

theorem mem_keys_firsts {key : String} :
    key ∈ (firsts seen trials).map Trial.key ↔ key ∈ trials.map Trial.key ∧ key ∉ seen := by
  induction trials generalizing seen with
  | nil => simp [firsts]
  | cons trial rest ih =>
    unfold firsts
    split
    · rename_i old
      have old : trial.key ∈ seen := List.contains_iff_mem.mp old
      rw [ih, List.map_cons, List.mem_cons]
      constructor
      · exact fun found => ⟨.inr found.1, found.2⟩
      · rintro ⟨rfl | found, new⟩
        · exact absurd old new
        · exact ⟨found, new⟩
    · rename_i new
      have new : trial.key ∉ seen := fun old => new (List.contains_iff_mem.mpr old)
      rw [List.map_cons, List.mem_cons, ih, List.map_cons, List.mem_cons, List.mem_cons]
      constructor
      · rintro (rfl | found)
        · exact ⟨.inl rfl, new⟩
        · exact ⟨.inr found.1, fun old => found.2 (.inr old)⟩
      · rintro ⟨rfl | found, unseen⟩
        · exact .inl rfl
        · by_cases same : key = trial.key
          · exact .inl same
          · exact .inr ⟨found, fun old => old.elim same unseen⟩

theorem nodup_firsts (seen : List String) (trials : List Trial) :
    ((firsts seen trials).map Trial.key).Nodup := by
  induction trials generalizing seen with
  | nil => exact List.nodup_nil
  | cons trial rest ih =>
    unfold firsts
    split
    · exact ih seen
    · refine List.nodup_cons.mpr ⟨fun again => ?_, ih _⟩
      exact (mem_keys_firsts.mp again).2 List.mem_cons_self

theorem firsts_eq_nil (seen_all : ∀ key ∈ trials.map Trial.key, key ∈ seen) :
    firsts seen trials = [] := by
  apply List.map_eq_nil_iff.mp
  apply List.eq_nil_iff_forall_not_mem.mpr
  intro key member
  have ⟨listed, new⟩ := mem_keys_firsts.mp member
  exact new (seen_all key listed)

theorem firsts_cons_seen (split : firsts seen trials = trial :: rest) :
    firsts (trial.key :: seen) trials = rest := by
  induction trials with
  | nil => cases split
  | cons first others ih =>
    unfold firsts at split ⊢
    by_cases old : first.key ∈ seen
    · have again : first.key ∈ trial.key :: seen := List.mem_cons_of_mem _ old
      rw [if_pos (List.contains_iff_mem.mpr old)] at split
      rw [if_pos (List.contains_iff_mem.mpr again)]
      exact ih split
    · rw [if_neg fun held => old (List.contains_iff_mem.mp held)] at split
      obtain ⟨rfl, rfl⟩ := List.cons.inj split
      rw [if_pos (List.contains_iff_mem.mpr List.mem_cons_self)]

end Firsts

/-- One trial for each key of the markers that can be tried. -/
structure Covers (session : Session) (only : Option Problem) (chosen : List Trial) : Prop where
  distinct : (chosen.map Trial.key).Nodup
  fixable : ∀ trial ∈ chosen, trial.1 ∈ session.store.all ∧
    fixOf? session.fixers only trial.1 = some trial.2
  complete : ∀ m ∈ session.store.all, ∀ fixer, fixOf? session.fixers only m = some fixer →
    m.key ∈ chosen.map Trial.key

theorem covers_firsts (session : Session) (only : Option Problem) :
    Covers session only (firsts [] (trials session only)) where
  distinct := nodup_firsts ..
  fixable := by
    intro trial member
    have ⟨m, among, made⟩ := List.mem_filterMap.mp ((firsts_sublist ..).subset member)
    have ⟨fixer, found, same⟩ := Option.map_eq_some_iff.mp made
    cases same
    exact ⟨among, found⟩
  complete := by
    intro m among fixer found
    have listed : (m, fixer) ∈ trials session only :=
      List.mem_filterMap.mpr ⟨m, among, by rw [found]; rfl⟩
    exact mem_keys_firsts.mpr ⟨List.mem_map.mpr ⟨_, listed, rfl⟩, List.not_mem_nil⟩

namespace FixRun

variable {setting : Setting} {only : Option Problem} {run : FixRun} {m : Marker} {fixer : Fixer}

theorem look_eq (run : FixRun) (only : Option Problem) (m : Marker) :
    (do
      guard (!run.attempted.contains m.key)
      guard (only.isNone || m.problem? == only)
      let fixers ← (run.session.fixers.forMarker m).toOption
      return (m, ← fixers.head?) : Option Trial) =
    if run.attempted.contains m.key then none
    else (fixOf? run.session.fixers only m).map fun fixer => (m, fixer) := by
  unfold fixOf?
  cases run.attempted.contains m.key with
  | true => rfl
  | false =>
    cases (only.isNone || m.problem? == only) with
    | false => rfl
    | true =>
      cases (run.session.fixers.forMarker m).toOption with
      | none => rfl
      | some fixers => cases fixers <;> rfl

theorem next?_eq (run : FixRun) (only : Option Problem) :
    run.next? only = (firsts run.attempted (trials run.session only)).head? := by
  unfold next? trials
  induction run.session.store.all with
  | nil => rfl
  | cons m rest ih =>
    rw [List.findSome?_cons, look_eq, ih, List.filterMap_cons]
    cases fixOf? run.session.fixers only m with
    | none =>
      rw [Option.map_none, ite_self]
    | some fixer =>
      rw [Option.map_some]
      dsimp only
      rw [firsts]
      unfold Trial.key
      cases run.attempted.contains m.key <;> rfl

def trying (run : FixRun) (m : Marker) : FixRun :=
  { run with attempted := m.key :: run.attempted }

def showing (run : FixRun) (r : Repair) : FixRun :=
  { run with
    console := run.console.say r.diff
    shown := r.fixed :: run.shown
    count := run.count + 1 }

/-- What a dry run makes of a marker, by the outcome of the preview. -/
inductive DryStep (setting : Setting) (run : FixRun) (m : Marker) (fixer : Fixer) :
    FixRun × Bool → Prop
  | crashed (crash : run.session.previewFix setting.grammar run.files fixer m = .error .crash) :
      DryStep setting run m fixer (run.trying m, false)
  | failed (error : Error)
      (fails : run.session.previewFix setting.grammar run.files fixer m = .error (.error error)) :
      DryStep setting run m fixer ((run.trying m).warnAbout m error, true)
  | declined (declines : run.session.previewFix setting.grammar run.files fixer m = .ok none) :
      DryStep setting run m fixer (run.trying m, true)
  | repeated (r : Repair)
      (made : run.session.previewFix setting.grammar run.files fixer m = .ok (some r))
      (old : r.fixed ∈ run.shown) : DryStep setting run m fixer (run.trying m, true)
  | shown (r : Repair)
      (made : run.session.previewFix setting.grammar run.files fixer m = .ok (some r))
      (new : r.fixed ∉ run.shown) : DryStep setting run m fixer ((run.trying m).showing r, true)

theorem dryStep_attempt (setting : Setting) (run : FixRun) (m : Marker) (fixer : Fixer) :
    DryStep setting run m fixer (run.attempt setting true m fixer) := by
  unfold attempt show?
  rw [if_pos rfl]
  dsimp only
  cases outcome : run.session.previewFix setting.grammar run.files fixer m with
  | error halt =>
    cases halt with
    | error error => exact .failed error outcome
    | crash => exact .crashed outcome
  | ok made =>
    cases made with
    | none => exact .declined outcome
    | some r =>
      dsimp only
      by_cases old : r.fixed ∈ run.shown
      · rw [if_pos (List.contains_iff_mem.mpr old)]
        exact .repeated r outcome old
      · rw [if_neg fun held => old (List.contains_iff_mem.mp held)]
        exact .shown r outcome old

namespace DryStep

variable {outcome : FixRun × Bool} (step : DryStep setting run m fixer outcome)

include step

theorem leaves : outcome.1.session = run.session ∧ outcome.1.files = run.files ∧
    outcome.1.attempted = m.key :: run.attempted := by
  cases step <;> exact ⟨rfl, rfl, rfl⟩

theorem goes_iff : outcome.2 = true ↔
    run.session.previewFix setting.grammar run.files fixer m ≠ .error .crash := by
  cases step <;> simp_all

end DryStep

/-- Tries markers in turn, without a search; the second part says whether nothing crashed. -/
def tryAll (setting : Setting) (run : FixRun) : List Trial → FixRun × Bool
  | [] => (run, true)
  | trial :: rest =>
    let outcome := run.attempt setting true trial.1 trial.2
    if outcome.2 then tryAll setting outcome.1 rest else outcome

/-- The search comes to the first trial of each key in turn. -/
theorem loop_eq_tryAll {fuel : Nat}
    (enough : (firsts run.attempted (trials run.session only)).length ≤ fuel) :
    loop setting true only fuel run =
      tryAll setting run (firsts run.attempted (trials run.session only)) := by
  induction fuel generalizing run with
  | zero =>
    rw [List.eq_nil_of_length_eq_zero (Nat.le_zero.mp enough)]
    rfl
  | succ fuel ih =>
    unfold loop
    rw [next?_eq]
    cases split : firsts run.attempted (trials run.session only) with
    | nil => rfl
    | cons trial rest =>
      rw [split] at enough
      have step := dryStep_attempt setting run trial.1 trial.2
      have ⟨session, _, attempted⟩ := step.leaves
      have left : firsts (run.attempt setting true trial.1 trial.2).1.attempted
          (trials (run.attempt setting true trial.1 trial.2).1.session only) = rest := by
        rw [session, attempted]
        exact firsts_cons_seen split
      have later := ih (left.symm ▸ Nat.le_of_succ_le_succ enough)
      rw [left] at later
      unfold tryAll
      dsimp only [List.head?_cons]
      rw [← later]
      rcases run.attempt setting true trial.1 trial.2 with ⟨after, goes⟩
      cases goes <;> rfl

theorem tryAll_preserves (P : List Trial → FixRun → Prop)
    (step : ∀ {done run trial outcome}, P done run → DryStep setting run trial.1 trial.2 outcome →
      P (done ++ [trial]) outcome.1)
    (start : P [] run) (chosen : List Trial) :
    ∃ tried, tried <+: chosen ∧ ((tryAll setting run chosen).2 = true → tried = chosen) ∧
      P tried (tryAll setting run chosen).1 := by
  induction chosen generalizing run P with
  | nil => exact ⟨[], List.nil_prefix, fun _ => rfl, start⟩
  | cons trial rest ih =>
    have next : P [trial] _ := step start (dryStep_attempt setting run trial.1 trial.2)
    unfold tryAll
    dsimp only
    split
    · -- what is preserved of the others counts them behind the first
      have ⟨tried, front, whole, holds⟩ := ih (fun done => P (trial :: done)) step next
      exact ⟨trial :: tried, List.cons_prefix_cons.mpr ⟨rfl, front⟩,
        fun finished => congrArg _ (whole finished), holds⟩
    · rename_i crashed
      exact ⟨[trial], ⟨rest, rfl⟩, fun finished => absurd finished crashed, next⟩

theorem tryAll_finished_iff (setting : Setting) (run : FixRun) (chosen : List Trial) :
    (tryAll setting run chosen).2 = true ↔ ∀ trial ∈ chosen,
      run.session.previewFix setting.grammar run.files trial.2 trial.1 ≠ .error .crash := by
  induction chosen generalizing run with
  | nil => exact iff_of_true rfl (fun _ member => nomatch member)
  | cons trial rest ih =>
    have step := dryStep_attempt setting run trial.1 trial.2
    have ⟨session, files, _⟩ := step.leaves
    have later := ih (run.attempt setting true trial.1 trial.2).1
    rw [session, files] at later
    unfold tryAll
    dsimp only
    rw [List.forall_mem_cons, ← step.goes_iff]
    split
    · rename_i goes
      rw [later, goes]
      exact (and_iff_right rfl).symm
    · rename_i crashed
      exact iff_of_false crashed fun held => crashed held.1

theorem tryAll_leaves (setting : Setting) (run : FixRun) (chosen : List Trial) :
    (tryAll setting run chosen).1.session = run.session ∧
      (tryAll setting run chosen).1.files = run.files := by
  have ⟨_, _, _, leaves⟩ := tryAll_preserves
    (fun _ after => after.session = run.session ∧ after.files = run.files)
    (fun before (step : DryStep setting ..) =>
      ⟨step.leaves.1.trans before.1, step.leaves.2.1.trans before.2⟩)
    ⟨rfl, rfl⟩ chosen
  exact leaves

theorem attempted_tryAll {chosen : List Trial} (finished : (tryAll setting run chosen).2 = true) :
    (tryAll setting run chosen).1.attempted = (chosen.map Trial.key).reverse ++ run.attempted := by
  have ⟨tried, _, whole, attempted⟩ := tryAll_preserves
    (fun done after => after.attempted = (done.map Trial.key).reverse ++ run.attempted)
    (fun before (step : DryStep setting ..) => by simp [step.leaves.2.2, before, Trial.key]) rfl chosen
  rwa [whole finished] at attempted

theorem length_firsts_le_bound (session : Session) (files : FileSystem) (only : Option Problem) :
    (firsts [] (trials session only)).length ≤ bound true { session := session, files := files } :=
  (firsts_sublist ..).length_le.trans (List.length_filterMap_le ..)

theorem files_loop_dry (setting : Setting) (only : Option Problem) (session : Session)
    (files : FileSystem) :
    let start : FixRun := { session := session, files := files }
    (loop setting true only (start.bound true) start).1.files = files := by
  intro start
  rw [loop_eq_tryAll (length_firsts_le_bound session files only)]
  exact (tryAll_leaves ..).2

end FixRun

/-- A dry run ends. It tries one marker for each key of the markers that can be tried and no other,
whatever the previews come to, and leaves the session and the files as they are. Only a crash stops it
before its end, and the standard fixes do not crash. -/
theorem dry_run_tries_each_key (setting : Setting) (only : Option Problem) (session : Session)
    (files : FileSystem) :
    let start : FixRun := { session := session, files := files }
    ∃ chosen, Covers session only chosen ∧
      (∀ fuel, start.bound true ≤ fuel →
        FixRun.loop setting true only fuel start = FixRun.tryAll setting start chosen) ∧
      let last := FixRun.tryAll setting start chosen
      (last.1.session = session ∧ last.1.files = files) ∧
        (last.2 = true → last.1.attempted = (chosen.map Trial.key).reverse ∧
          last.1.next? only = none) ∧
        (last.2 = true ↔ ∀ trial ∈ chosen,
          session.previewFix setting.grammar files trial.2 trial.1 ≠ .error .crash) ∧
        (session.fixers = Fixers.standard → setting.grammar.Regular → last.2 = true) := by
  intro start
  let chosen := firsts [] (trials session only)
  have covers := covers_firsts session only
  have leaves := FixRun.tryAll_leaves setting start chosen
  have finished_iff := FixRun.tryAll_finished_iff setting start chosen
  refine ⟨chosen, covers, fun fuel enough => ?_, leaves, fun finished => ?_, finished_iff, ?_⟩
  · exact FixRun.loop_eq_tryAll ((FixRun.length_firsts_le_bound session files only).trans enough)
  · have attempted : (FixRun.tryAll setting start chosen).1.attempted =
        (chosen.map Trial.key).reverse := by
      rw [FixRun.attempted_tryAll finished]
      exact List.append_nil _
    refine ⟨attempted, ?_⟩
    have nothing : firsts (chosen.map Trial.key).reverse (trials session only) = [] :=
      firsts_eq_nil fun key listed =>
        List.mem_reverse.mpr (mem_keys_firsts.mpr ⟨listed, List.not_mem_nil⟩)
    rw [FixRun.next?_eq, leaves.1, attempted, nothing]
    rfl
  · intro standard regular
    refine finished_iff.mpr fun trial member => ?_
    have among := mem_of_fixOf? (covers.fixable trial member).2
    rw [standard] at among
    exact Fixer.preview_standard_ne_crash regular among session.project files trial.1

def bareSetting : Setting where
  grammar := fun text => if text = "v -> v" then some Fixer.bareParse else none
  userFolder := "/"

/-- Two markers of one key, one of a file that is missing, and one of an unknown problem. -/
def bareSession : Session where
  project := { layout := { root := "/r" } }
  store := ({} : MarkerStore).create [Fixer.bareMarker, Fixer.bareMarker,
    { Fixer.bareMarker with resource := "B.java" }, { Fixer.bareMarker with problemId := "?" }]

theorem regular_bareSetting : bareSetting.grammar.Regular := by
  have only {text : String} {parse : Parse} (read : bareSetting.grammar text = some parse) :
      text = "v -> v" ∧ Fixer.bareParse = parse := by
    have ⟨same, result⟩ := Option.ite_none_right_eq_some.mp read
    exact ⟨same, Option.some.inj result⟩
  constructor
  all_goals
    intro text parse read
    obtain ⟨rfl, rfl⟩ := only read
  · decide +kernel
  · decide +kernel
  · decide +kernel
  · exact ⟨by decide +kernel, by decide +kernel⟩

def bareStart : FixRun where
  session := bareSession
  files := Fixer.bareFiles

def bareWarning : String :=
  "Warning: B.java: failed to read /r/B.java: No such file or directory (os error 2)\n"

/-- Two keys are tried; one of the previews shows a change and the other fails. -/
theorem dry_run_tries_each_key_bare :
    bareSetting.grammar.Regular ∧ ∃ chosen, Covers bareSession none chosen ∧
      let last := FixRun.tryAll bareSetting bareStart chosen
      last.2 = true ∧ chosen.length = 2 ∧ last.1.count = 1 ∧ last.1.console.err = bareWarning := by
  have ⟨chosen, covers, ends, _, tried, _, standard⟩ :=
    dry_run_tries_each_key bareSetting none bareSession Fixer.bareFiles
  have finished := standard rfl regular_bareSetting
  have attempted := congrArg List.length (tried finished).1
  have looped : FixRun.loop bareSetting true none 4 bareStart =
      FixRun.tryAll bareSetting bareStart chosen := ends 4 (by decide +kernel)
  have run : (FixRun.loop bareSetting true none 4 bareStart).1.attempted.length = 2 ∧
      (FixRun.loop bareSetting true none 4 bareStart).1.count = 1 ∧
      (FixRun.loop bareSetting true none 4 bareStart).1.console.err = bareWarning := by
    decide +kernel
  rw [looped] at run
  have ⟨two, shown, warned⟩ := run
  refine ⟨regular_bareSetting, chosen, covers, finished, ?_, shown, warned⟩
  rw [List.length_reverse, List.length_map] at attempted
  exact attempted.symm.trans two

/-- The files that a dry run leaves behind are those of the analysis before it. -/
theorem files_fixProject_dry {setting : Setting} {files : FileSystem} {args : ProjectArgs}
    {root : String} {session : Session} (only : Option Problem)
    (opened : openProject setting files args = .ok (root, session)) :
    (fixProject setting files args true only).files =
      (session.analyzeAll setting.grammar files).files := by
  unfold fixProject
  rw [opened]
  dsimp only
  split
  · rfl
  · have leaves := FixRun.files_loop_dry setting only (session.analyzeAll setting.grammar files).session
      (session.analyzeAll setting.grammar files).files
    dsimp only at leaves
    split
    · rename_i same
      rw [same] at leaves
      exact leaves
    · rename_i same
      rw [same] at leaves
      exact leaves

end SpringLint.Command
