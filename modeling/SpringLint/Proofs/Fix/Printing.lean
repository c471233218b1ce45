import SpringLint.Proofs.Fix.InjectedText
import SpringLint.Proofs.Fix.Preview
import SpringLint.Proofs.Syntax.Additions

/-! No preview of a standard fix crashes, as long as the parser keeps what it promises: the trees that
the fixes come to can be printed. -/

namespace SpringLint

/-- What the parser promises of the trees of all texts. -/
structure Grammar.Regular (grammar : Grammar) : Prop where
  nested {text parse} : grammar text = some parse → parse.tree.Nested
  leaves {text parse} : grammar text = some parse → parse.tree.LeafComments
  characters {text parse} : grammar text = some parse → parse.tree.OnCharacters text
  trim {text parse} : grammar text = some parse → (Source.ofParse text parse).tree.Trim

theorem Tree.exists_print_of_splices {t u : Tree} {edits : List Edit} (attached : t.Attached)
    (untouched : t.Untouched) (spaced : t.Spaced) (characters : t.OnCharacters)
    (adding : ∀ edit ∈ edits, edit.isSplice = true) (applied : t.apply edits = (u, .ok ())) :
    ∃ text, u.print = some text := by
  have whole : t.applyAll [edits] = u := congrArg Prod.fst applied
  have taken : (t.accepted [edits]).flatten = edits := by
    simp [accepted, applied]
  have arranged := arranged_applyAll attached untouched (taken.symm ▸ adding)
  obtain ⟨hung, marked, rowed, -⟩ := applyAll_preserves attached untouched.marked [edits]
  have printed := arranged.print_eq attached untouched spaced characters hung marked (rowed spaced)
  rw [whole] at printed
  exact ⟨_, printed⟩

theorem ConstructorInjection.exists_print {q : Query} {marked : Nat} {edits : List Edit}
    (attached : q.tree.Attached) (untouched : q.tree.Untouched) (spaced : q.tree.Spaced)
    (characters : q.tree.OnCharacters) (trim : q.tree.Trim)
    (planned : plan? q marked = some edits) :
    ∃ u text, q.tree.apply edits = (u, .ok ()) ∧ u.print = some text := by
  obtain ⟨s, scope, rfl⟩ := plan?_eq_some planned
  have sound := scope?_eq_some scope
  have targets (edit : Edit) (member : edit ∈ s.edits q) := (edits_about sound attached member).1
  have plain (edit : Edit) (member : edit ∈ s.edits q) := (edits_about sound attached member).2
  have ⟨u, accepted, run⟩ := Tree.exists_apply attached untouched targets plain
    (pairwise_edits sound attached spaced trim)
  have ⟨cuts, found, _⟩ := exists_cuts sound attached untouched spaced characters trim run
  have printed := run.print_eq attached untouched spaced characters
  rw [found] at printed
  exact ⟨u, _, accepted, printed⟩

theorem LambdaParentheses.exists_eq_of_planned {q : Query} {marked : Nat} {edits : List Edit}
    (planned : plan? q marked = some edits) : ∃ lambda, edits = [.parenthesize lambda] := by
  have only {lambda : Nat}
      (made : (do
        let _ ← Check.bareParameter? q.tree lambda
        return [.parenthesize lambda]) = some edits) : ∃ lambda, edits = [.parenthesize lambda] := by
    have ⟨_, _, same⟩ := Option.bind_eq_some_iff.mp made
    exact ⟨lambda, (Option.some.inj same).symm⟩
  unfold plan? at planned
  by_cases here : q.tree.kind marked = .lambdaExpression
  · rw [if_pos here] at planned
    exact only planned
  · rw [if_neg here] at planned
    have ⟨_, _, made⟩ := Option.bind_eq_some_iff.mp planned
    exact only made

namespace Fixer

variable {fixer : Fixer} {grammar : Grammar} {project : Project} {files : FileSystem} {m : Marker}

theorem editedText_ne_crash {t : Tree} {edits : List Edit}
    (prints : ∀ u, t.apply edits = (u, .ok ()) → ∃ text, u.print = some text) :
    editedText t edits ≠ .error .crash := by
  intro crashed
  unfold editedText at crashed
  split at crashed
  · cases crashed
  · rename_i u applied
    obtain ⟨text, printed⟩ := prints u applied
    rw [printed] at crashed
    cases crashed

/-- Every plan of a standard fix for a parsed source comes to a text or is refused. -/
theorem editedText_standard_ne_crash (regular : grammar.Regular) (standard : fixer ∈ Fixers.standard)
    {text : String} {parse : Parse} (read : grammar text = some parse) {q : Query}
    (same : q.tree = (Source.ofParse text parse).tree) {marked : Nat} {edits : List Edit}
    (planned : fixer.plan? q marked = some edits) :
    editedText q.tree edits ≠ .error .crash := by
  have nested := regular.nested read
  have leaves := regular.leaves read
  have attached := Source.attached_ofParse text parse
  have untouched := Source.untouched_ofParse text parse
  have spaced := Source.spaced_ofParse text parse nested leaves
  have ends := Source.onCharacters_ofParse text parse nested leaves (regular.characters read)
  have trim := regular.trim read
  rw [← same] at attached untouched spaced ends trim
  apply editedText_ne_crash
  intro u applied
  rcases List.mem_pair.mp standard with rfl | rfl
  · have ⟨v, printed, accepted, result⟩ :=
      ConstructorInjection.exists_print attached untouched spaced ends trim planned
    rw [applied] at accepted
    cases accepted
    exact ⟨printed, result⟩
  · obtain ⟨lambda, rfl⟩ := LambdaParentheses.exists_eq_of_planned planned
    have adding : ∀ edit ∈ [Edit.parenthesize lambda], edit.isSplice = true := by
      simp [Edit.isSplice]
    exact Tree.exists_print_of_splices attached untouched spaced ends adding applied

theorem fixedText?_ne_crash {q : Query} {path : String} {start stop : Nat}
    (prints : ∀ marked edits, fixer.plan? q marked = some edits →
      editedText q.tree edits ≠ .error .crash) :
    fixer.fixedText? q path start stop ≠ .error .crash := by
  intro crashed
  unfold fixedText? at crashed
  split at crashed
  · cases crashed
  · split at crashed
    · cases crashed
    · rename_i edits planned
      exact prints _ edits planned (eq_error_of_map crashed)

theorem repairText_ne_crash {resource before : String} {start stop : Nat}
    (prints : ∀ unit, project.detached grammar resource before = .ok unit →
      ∀ marked edits, fixer.plan? ⟨unit, project, files⟩ marked = some edits →
        editedText unit.tree edits ≠ .error .crash) :
    fixer.repairText grammar project files resource before start stop ≠ .error .crash := by
  intro crashed
  unfold repairText at crashed
  by_cases outside : before.utf8ByteSize < stop ∨ stop < start
  · simp [outside, throw, throwThe, MonadExceptOf.throw, bind, Except.bind] at crashed
  · simp only [outside, decide_eq_true_eq, Bool.or_eq_true, if_false] at crashed
    cases copied : project.detached grammar resource before with
    | error error => simp [copied, throw, throwThe, MonadExceptOf.throw] at crashed
    | ok unit =>
      simp only [copied] at crashed
      cases fixed : fixer.fixedText? ⟨unit, project, files⟩ (project.layout.pathOf resource) start
          stop with
      | error halt =>
        simp only [fixed, bind, Except.bind, Except.error.injEq] at crashed
        rw [crashed] at fixed
        exact fixedText?_ne_crash (prints unit copied) fixed
      | ok text? =>
        cases text? with
        | none => simp [fixed, bind, Except.bind, pure, Except.pure] at crashed
        | some text =>
          by_cases same : text = before <;>
            simp [fixed, same, bind, Except.bind, pure, Except.pure] at crashed

theorem preview_ne_crash (prints : ∀ text unit, project.detached grammar m.resource text = .ok unit →
      ∀ marked edits, fixer.plan? ⟨unit, project, files⟩ marked = some edits →
        editedText unit.tree edits ≠ .error .crash) :
    fixer.preview grammar project files m ≠ .error .crash := by
  intro crashed
  unfold preview previewUnder at crashed
  cases known : m.problem? with
  | none => simp [known, throw, throwThe, MonadExceptOf.throw] at crashed
  | some problem =>
    by_cases owns : fixer.problem = problem
    · simp only [known, owns, ne_eq, not_true_eq_false, if_false] at crashed
      split at crashed
      · split at crashed
        · cases crashed
        · exact repairText_ne_crash (prints _) crashed
      · cases crashed
    · simp [known, owns, bind, Except.bind, throw, throwThe, MonadExceptOf.throw] at crashed

theorem preview_standard_ne_crash (regular : grammar.Regular) (standard : fixer ∈ Fixers.standard)
    (project : Project) (files : FileSystem) (m : Marker) :
    fixer.preview grammar project files m ≠ .error .crash := by
  apply preview_ne_crash
  intro text unit made marked edits planned
  have ⟨source, parsed, same⟩ := Project.detached_eq_ok made
  have ⟨parse, read, result⟩ := Option.map_eq_some_iff.mp parsed
  rw [← result] at same
  exact editedText_standard_ne_crash (q := ⟨unit, project, files⟩) regular standard read same planned

end Fixer

end SpringLint
