import SpringLint.Proofs.FileSystem
import SpringLint.Proofs.Fix.Preview
import SpringLint.Proofs.Syntax.Numbering

/-! Fixing a file, whatever goes wrong on the way. The fixed text is written beside the file and then
moved onto it, so the file has its old text or the whole new one. -/

namespace SpringLint

namespace Mishaps

variable {mishaps : Mishaps} {files later : FileSystem} {path source target text : String}
  {content : ByteArray} {fault : FileFault}

theorem read_of_tryRead (read : mishaps.tryRead files path = .ok text) :
    files.read path = .ok text := by
  unfold tryRead at read
  split at read
  · cases read
  · exact read

theorem agreesBut_tryWrite (mishaps : Mishaps) (files : FileSystem) (path : String)
    (content : ByteArray) :
    (mishaps.tryWrite files path content).1 = files ∨
      files.AgreesBut (mishaps.tryWrite files path content).1 [files.place path] ∧
        files.entries.get? (files.place path) ≠ some .folder := by
  unfold tryWrite
  split
  · exact .inl rfl
  · split
    · exact .inl rfl
    · rename_i written
      exact .inr (FileSystem.agreesBut_of_write written)
  · split
    · exact .inl rfl
    · rename_i written
      exact .inr (FileSystem.agreesBut_of_write written)

theorem write_of_tryWrite (written : mishaps.tryWrite files path content = (later, .ok ())) :
    files.write path content = .ok later := by
  unfold tryWrite at written
  split at written
  · cases written
  · split at written <;> cases written
  · split at written
    · cases written
    · rename_i done
      cases written
      exact done

theorem rename_of_tryRename (moved : mishaps.tryRename files source target = .ok later) :
    files.rename source target = .ok later := by
  unfold tryRename at moved
  split at moved
  · cases moved
  · exact moved

theorem agreesBut_tryUnlink (mishaps : Mishaps) (files : FileSystem) (path : String) :
    files.AgreesBut (mishaps.tryUnlink files path) [files.place path] := by
  unfold tryUnlink
  split
  · exact .refl ..
  · exact FileSystem.agreesBut_unlink files path

end Mishaps

namespace Fixer

variable {fixer : Fixer} {grammar : Grammar} {project : Project} {files : FileSystem} {m : Marker}
  {mishaps : Mishaps} {r : Repair} {content : ByteArray}

theorem commitUnder_error {error : Error}
    (failed : (commitUnder mishaps files r).2 = .error error) :
    (commitUnder mishaps files r).1 = files ∨
      files.AgreesBut (commitUnder mishaps files r).1 [files.place (stagingPath r.path)] ∧
        files.entries.get? (files.place (stagingPath r.path)) ≠ some .folder := by
  have tried := mishaps.agreesBut_tryWrite files (stagingPath r.path) r.fixed.toUTF8
  unfold commitUnder at failed ⊢
  dsimp only at failed ⊢
  split
  · rename_i written
    rwa [written] at tried
  · rename_i staged written
    rw [written] at failed tried
    obtain ⟨first, free⟩ := FileSystem.agreesBut_of_write (Mishaps.write_of_tryWrite written)
    split
    · have gone := mishaps.agreesBut_tryUnlink staged (stagingPath r.path)
      rw [first.place_eq] at gone
      exact .inr ⟨first.trans gone, free⟩
    · rename_i moved
      simp [moved] at failed

theorem commitUnder_ok (done : (commitUnder mishaps files r).2 = .ok ()) :
    files.AgreesBut (commitUnder mishaps files r).1
        [files.place (stagingPath r.path), files.place r.path] ∧
      (commitUnder mishaps files r).1.read r.path = .ok r.fixed := by
  unfold commitUnder at done ⊢
  dsimp only at done ⊢
  split
  · rename_i failed
    rw [failed] at done
    cases done
  · rename_i staged written
    rw [written] at done
    have first := Mishaps.write_of_tryWrite written
    have touched := (FileSystem.agreesBut_of_write first).1
    split
    · rename_i failed
      simp [failed] at done
    · rename_i last moved
      have renamed := Mishaps.rename_of_tryRename moved
      have last_touched := FileSystem.agreesBut_of_rename renamed
      rw [touched.place_eq, touched.place_eq] at last_touched
      refine ⟨(touched.mono (by simp)).trans last_touched, ?_⟩
      obtain ⟨content, stands, put⟩ := FileSystem.exists_of_rename renamed
      rw [FileSystem.find_write first] at stands
      cases stands
      exact FileSystem.read_write put

theorem repairText_eq_some {resource before : String} {start stop : Nat}
    (made : fixer.repairText grammar project files resource before start stop = .ok (some r)) :
    r.resource = resource ∧ r.path = project.layout.pathOf resource ∧ r.before = before ∧
      r.fixed ≠ r.before := by
  unfold repairText at made
  by_cases outside : before.utf8ByteSize < stop ∨ stop < start
  · simp [outside, throw, throwThe, MonadExceptOf.throw, bind, Except.bind] at made
  · simp only [outside, decide_eq_true_eq, Bool.or_eq_true, if_false] at made
    cases copied : project.detached grammar resource before with
    | error error => simp [copied, throw, throwThe, MonadExceptOf.throw] at made
    | ok unit =>
      simp only [copied] at made
      cases fixed : fixer.fixedText? ⟨unit, project, files⟩ (project.layout.pathOf resource) start
          stop with
      | error halt => simp [fixed, bind, Except.bind] at made
      | ok text? =>
        cases text? with
        | none => simp [fixed, bind, Except.bind, pure, Except.pure] at made
        | some text =>
          by_cases same : text = before
          · simp [fixed, same, bind, Except.bind, pure, Except.pure] at made
          · simp [fixed, same, bind, Except.bind, pure, Except.pure] at made
            subst made
            exact ⟨rfl, rfl, rfl, same⟩

theorem previewUnder_eq_some
    (made : fixer.previewUnder mishaps grammar project files m = .ok (some r)) :
    r.resource = m.resource ∧ r.path = project.layout.pathOf m.resource ∧
      files.read r.path = .ok r.before ∧ r.fixed ≠ r.before := by
  unfold previewUnder at made
  cases known : m.problem? with
  | none => simp [known, throw, throwThe, MonadExceptOf.throw] at made
  | some problem =>
    by_cases owns : fixer.problem = problem
    · simp only [known, owns, ne_eq, not_true_eq_false, if_false] at made
      split at made
      · cases read : mishaps.tryRead files (project.layout.pathOf m.resource) with
        | error fault => simp [read, throw, throwThe, MonadExceptOf.throw] at made
        | ok before =>
          simp only [read] at made
          obtain ⟨resource, path, same, changed⟩ := repairText_eq_some made
          refine ⟨resource, path, ?_, changed⟩
          rw [path, same]
          exact Mishaps.read_of_tryRead read
      · cases made
    · simp [known, owns, throw, throwThe, MonadExceptOf.throw, bind, Except.bind] at made

theorem applyUnder_rejected (fixer : Fixer) (grammar : Grammar) (project : Project)
    (files : FileSystem) (m : Marker) (mishaps : Mishaps) :
    (m.problem? = none → fixer.applyUnder mishaps grammar project files m =
      (files, .error (.error (.unknownProblem m.problemId)))) ∧
    ∀ problem, m.problem? = some problem → fixer.problem ≠ problem →
      fixer.applyUnder mishaps grammar project files m =
        (files, .error (.error (.fixerMismatch fixer.name problem))) := by
  constructor
  · intro unknown
    simp [applyUnder, previewUnder, unknown, throw, throwThe, MonadExceptOf.throw]
  · intro problem known other
    simp [applyUnder, previewUnder, known, other, throw, throwThe, MonadExceptOf.throw, bind,
      Except.bind]

/-- A fix ends before anything is written, or with a commit of what a preview shows. -/
theorem applyUnder_cases (fixer : Fixer) (grammar : Grammar) (project : Project)
    (files : FileSystem) (m : Marker) (mishaps : Mishaps) :
    let outcome := fixer.applyUnder mishaps grammar project files m
    (outcome.1 = files ∧ ∀ r, outcome.2 ≠ .ok (some r)) ∨
      ∃ r, fixer.previewUnder mishaps grammar project files m = .ok (some r) ∧
        outcome.1 = (commitUnder mishaps files r).1 ∧
        ((∃ error, (commitUnder mishaps files r).2 = .error error ∧
            outcome.2 = .error (.error error)) ∨
          (commitUnder mishaps files r).2 = .ok () ∧ outcome.2 = .ok (some r)) := by
  intro outcome
  simp only [outcome, applyUnder]
  cases fixer.previewUnder mishaps grammar project files m with
  | error halt => exact .inl ⟨rfl, nofun⟩
  | ok r? =>
    cases r? with
    | none => exact .inl ⟨rfl, nofun⟩
    | some r =>
      refine .inr ⟨r, rfl, ?_⟩
      dsimp only
      rcases commitUnder mishaps files r with ⟨later, error | ⟨⟩⟩
      · exact ⟨rfl, .inl ⟨error, rfl, rfl⟩⟩
      · exact ⟨rfl, .inr ⟨rfl, rfl⟩⟩

theorem find_of_commitUnder_error {error : Error} {before : String}
    (read : files.read r.path = .ok before)
    (failed : (commitUnder mishaps files r).2 = .error error) :
    (commitUnder mishaps files r).1.find r.path = files.find r.path := by
  obtain ⟨content, stands⟩ := FileSystem.exists_find_of_read read
  have apart : files.place (stagingPath r.path) ≠ files.place r.path :=
    FileSystem.place_withExtension_ne (by decide) (by decide) stands
  rcases commitUnder_error failed with same | ⟨touched, free⟩
  · rw [same]
  · rw [stands]
    exact touched.find stands (by simpa using apart.symm) (by simpa using free)

/-- Whatever goes wrong while a fix is carried out, the marked file is replaced as a whole or not at
all. With a result the file had the text before the fix and has the fixed text, which is another one;
without a result it is as it was. The file beside it is the only other one that is touched. A marker
of an unknown problem or of the problem of another fix is rejected whatever the files are. -/
theorem apply_atomic (fixer : Fixer) (grammar : Grammar) (project : Project) (files : FileSystem)
    (m : Marker) (mishaps : Mishaps) :
    let path := project.layout.pathOf m.resource
    let outcome := fixer.applyUnder mishaps grammar project files m
    files.AgreesBut outcome.1 [files.place (stagingPath path), files.place path] ∧
    (∀ r, outcome.2 = .ok (some r) → r.resource = m.resource ∧ r.path = path ∧
      files.read path = .ok r.before ∧ outcome.1.read path = .ok r.fixed ∧ r.fixed ≠ r.before) ∧
    ((∀ r, outcome.2 ≠ .ok (some r)) → outcome.1.find path = files.find path) ∧
    (m.problem? = none → outcome = (files, .error (.error (.unknownProblem m.problemId)))) ∧
    ∀ problem, m.problem? = some problem → fixer.problem ≠ problem →
      outcome = (files, .error (.error (.fixerMismatch fixer.name problem))) := by
  intro path outcome
  have rejected := applyUnder_rejected fixer grammar project files m mishaps
  rcases applyUnder_cases fixer grammar project files m mishaps with ⟨same, none⟩ | ⟨r, made, left, ended⟩
  · change outcome.1 = files at same
    change ∀ r, outcome.2 ≠ .ok (some r) at none
    rw [same]
    exact ⟨.refl .., fun r some => absurd some (none r), fun _ => rfl, rejected⟩
  · change outcome.1 = _ at left
    obtain ⟨resource, place, read, changed⟩ := previewUnder_eq_some made
    have own : path = r.path := place.symm
    rw [left, own]
    rcases ended with ⟨error, failed, result⟩ | ⟨done, result⟩
    · change outcome.2 = _ at result
      rw [result]
      refine ⟨?_, nofun, fun _ => find_of_commitUnder_error read failed, rejected⟩
      rcases commitUnder_error failed with same | ⟨touched, -⟩
      · rw [same]
        exact .refl ..
      · exact touched.mono (by simp)
    · change outcome.2 = _ at result
      rw [result]
      obtain ⟨touched, written⟩ := commitUnder_ok done
      refine ⟨touched, ?_, fun none => absurd rfl (none r), rejected⟩
      intro s same
      cases same
      exact ⟨resource, rfl, read, written, changed⟩

def bareParse : Parse where
  tree := .node "program" true ⟨0, 6⟩ none [
    .node "lambda_expression" true ⟨0, 6⟩ none [
      .leaf (some "parameters") "identifier" 0 1,
      .token "->" 2,
      .leaf (some "body") "identifier" 5 6]]
  hasErrors := false

def bareFiles : FileSystem where
  entries := { entries := [("/r", .folder), ("/r/A.java", .file "v -> v".toUTF8)] }

def bareMarker : Marker :=
  { Marker.ofResource "A.java" .missingParenthesesAroundLambdaParameter .warning [] with
    start := some 0
    stop := some 1 }

def bareOutcome (mishaps : Mishaps) : FileSystem × Except Halt (Option Repair) :=
  LambdaParentheses.fixer.applyUnder mishaps (fun _ => some bareParse) { layout := { root := "/r" } }
    bareFiles bareMarker

def unmoved : Mishaps where
  rename := some (.other "Permission denied (os error 13)")

theorem bareOutcome_run :
    (bareOutcome {}).2.toOption.map (Option.map (·.fixed)) = some (some "(v) -> v") ∧
      (bareOutcome unmoved).2.toOption.isNone = true := by
  decide +kernel

/-- The fix goes through, and leaves the file as it is when it cannot be moved. -/
theorem apply_atomic_bare :
    (∃ r, (bareOutcome {}).2 = .ok (some r) ∧ r.fixed = "(v) -> v" ∧
      (bareOutcome {}).1.read (Layout.pathOf { root := "/r" } "A.java") = .ok r.fixed) ∧
    (bareOutcome unmoved).1.find (Layout.pathOf { root := "/r" } "A.java") =
      bareFiles.find (Layout.pathOf { root := "/r" } "A.java") := by
  obtain ⟨run, failed⟩ := bareOutcome_run
  have atomic := apply_atomic LambdaParentheses.fixer (fun _ => some bareParse)
    { layout := { root := "/r" } } bareFiles bareMarker
  obtain ⟨-, success, -⟩ := atomic {}
  obtain ⟨-, -, kept, -⟩ := atomic unmoved
  constructor
  · change (Except.toOption (bareOutcome {}).2).map _ = _ at run
    cases ended : (bareOutcome {}).2 with
    | error halt =>
      rw [ended] at run
      cases run
    | ok r? =>
      rw [ended] at run
      obtain ⟨r, rfl, fixed⟩ := Option.map_eq_some_iff.mp (Option.some.inj run)
      obtain ⟨-, -, -, written, -⟩ := success r ended
      exact ⟨r, rfl, fixed, written⟩
  · refine kept fun r ended => ?_
    change (bareOutcome unmoved).2 = _ at ended
    rw [ended] at failed
    cases failed

end Fixer

end SpringLint
