import SpringLint.Fix.Resolution
import SpringLint.Proofs.Project.Load

/-! What previews of fixes come to, and when they find a marker stale. -/

namespace SpringLint

namespace Project

variable {project : Project} {grammar : Grammar} {resource text : String}

theorem detached_eq_ok {unit : SourceUnit}
    (made : project.detached grammar resource text = .ok unit) :
    ∃ source, Source.parse? grammar text = some source ∧ unit.tree = source.tree := by
  unfold detached at made
  cases parsed : project.parseUnit grammar resource text with
  | error error =>
    rw [parsed] at made
    cases made
  | ok plain =>
    rw [parsed] at made
    cases made
    obtain ⟨source, read, rfl⟩ := parseUnit_eq_ok parsed
    exact ⟨source, read, rfl⟩

theorem detached_eq_error {error : Error}
    (failed : project.detached grammar resource text = .error error) :
    error = .parse (project.layout.pathOf resource) := by
  unfold detached parseUnit at failed
  split at failed <;> cases failed
  rfl

end Project

namespace Fixer

variable {fixer : Fixer} {grammar : Grammar} {project : Project} {files : FileSystem} {m : Marker}
  {path : String}

theorem write_of_commit_error {mishaps : Mishaps} {r : Repair} {error : Error}
    (failed : (commitUnder mishaps files r).2 = .error error) :
    ∃ path fault, error = .write path fault := by
  unfold commitUnder at failed
  dsimp only at failed
  split at failed
  · cases failed
    exact ⟨_, _, rfl⟩
  · split at failed
    · cases failed
      exact ⟨_, _, rfl⟩
    · cases failed

theorem preview_of_apply_stale
    (stale : (fixer.apply grammar project files m).2 = .error (.error (.staleMarker path))) :
    fixer.preview grammar project files m = .error (.error (.staleMarker path)) := by
  unfold apply applyUnder at stale
  unfold preview
  split at stale
  · rename_i halt failed
    rw [failed]
    exact stale
  · cases stale
  · split at stale
    · rename_i failed
      obtain ⟨place, fault, rfl⟩ := write_of_commit_error (congrArg Prod.snd failed)
      cases stale
    · cases stale

theorem editedText_ne_stale (t : Tree) (edits : List Edit) :
    editedText t edits ≠ .error (.error (.staleMarker path)) := by
  unfold editedText
  split
  · exact nofun
  · split <;> exact nofun

theorem eq_error_of_map {ε α β : Type} {f : α → β} {result : Except ε α} {e : ε}
    (failed : result.map f = .error e) : result = .error e := by
  cases result with
  | error _ =>
    cases failed
    rfl
  | ok _ => cases failed

theorem fixedText?_ne_stale {q : Query} {written : String} {start stop node : Nat}
    (covered : q.tree.coveringNode start stop = some node) :
    fixer.fixedText? q written start stop ≠ .error (.error (.staleMarker path)) := by
  rw [fixedText?, covered]
  dsimp only
  split
  · exact nofun
  · exact fun stale => editedText_ne_stale _ _ (eq_error_of_map stale)

section Preview

variable {text : String} {start stop : Nat} (first : m.start = some start) (last : m.stop = some stop)
  (unchanged : files.read (project.layout.pathOf m.resource) = .ok text) (ordered : start ≤ stop)
  (inside : stop ≤ text.utf8ByteSize)
include first last unchanged ordered inside

theorem preview_eq {unit : SourceUnit} (known : m.problem? = some fixer.problem)
    (made : project.detached grammar m.resource text = .ok unit) :
    fixer.preview grammar project files m =
      (fixer.fixedText? ⟨unit, project, files⟩ (project.layout.pathOf m.resource) start stop).map
        fun fixed? => fixed?.bind fun fixed =>
          if fixed == text then none
          else some ⟨m.resource, project.layout.pathOf m.resource, text, fixed⟩ := by
  have fits : ¬(text.utf8ByteSize < stop ∨ stop < start) := by omega
  cases fixed : fixer.fixedText? ⟨unit, project, files⟩ (project.layout.pathOf m.resource) start
      stop with
  | error halt =>
    simp [preview, previewUnder, known, first, last, unchanged, Mishaps.tryRead, repairText, fits, made, fixed, bind, Except.bind, Except.map]
  | ok fixed? =>
    cases fixed? with
    | none =>
      simp [preview, previewUnder, known, first, last, unchanged, Mishaps.tryRead, repairText, fits, made, fixed, bind, Except.bind, Except.map,
        pure, Except.pure]
    | some result =>
      by_cases same : result = text <;>
        simp [preview, previewUnder, known, first, last, unchanged, Mishaps.tryRead, repairText, fits, made, fixed, same, bind, Except.bind,
          Except.map, pure, Except.pure]

/-- The fix finds the place if the tree of the text covers it. -/
theorem preview_ne_stale (covered : ∀ source, Source.parse? grammar text = some source →
      ∃ node, source.tree.coveringNode start stop = some node) :
    fixer.preview grammar project files m ≠ .error (.error (.staleMarker path)) := by
  intro stale
  cases known : m.problem? with
  | none => simp [preview, previewUnder, known, throw, throwThe, MonadExceptOf.throw] at stale
  | some problem =>
    by_cases owns : fixer.problem = problem
    · rw [← owns] at known
      cases made : project.detached grammar m.resource text with
      | error error =>
        have fits : ¬(text.utf8ByteSize < stop ∨ stop < start) := by omega
        have parse := Project.detached_eq_error made
        simp [preview, previewUnder, known, first, last, unchanged, Mishaps.tryRead, repairText, fits, made, parse, throw, throwThe,
          MonadExceptOf.throw] at stale
      | ok unit =>
        obtain ⟨source, parsed, same⟩ := Project.detached_eq_ok made
        obtain ⟨node, found⟩ := covered source parsed
        rw [← same] at found
        rw [preview_eq first last unchanged ordered inside known made] at stale
        exact fixedText?_ne_stale (q := ⟨unit, project, files⟩) found (eq_error_of_map stale)
    · simp [preview, previewUnder, known, owns, bind, Except.bind, throw, throwThe, MonadExceptOf.throw] at stale

end Preview

end Fixer

end SpringLint
