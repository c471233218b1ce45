import SpringLint.Proofs.Check.Findings
import SpringLint.Proofs.Fix.Preview
import SpringLint.Proofs.Marker.Record
import SpringLint.Proofs.Project.Linking
import SpringLint.Proofs.Syntax.Removal
import SpringLint.Proofs.Text.LineIndex
import SpringLint.Session

/-! What markers of checks say, and that fixes find the node of a marker again. -/

namespace SpringLint

theorem Problem.ofId?_toString (problem : Problem) :
    Problem.ofId? (toString problem.id) = some problem := by
  cases problem <;> decide +kernel

namespace Tree

variable {t : Tree}

theorem Live.lt {id : Nat} (live : t.Live id) (attached : t.Attached) : id < t.size :=
  lt_of_mem_descendants attached.nonempty live

theorem exists_coveringNode (attached : t.Attached) (spaced : t.Spaced) {id : Nat}
    (inside : id < t.size) :
    ∃ node, t.coveringNode (t.span id).start (t.span id).stop = some node := by
  have top : root ∈ id :: t.ancestors id := by
    by_cases same : id = root
    · rw [same]
      exact List.mem_cons_self
    · exact List.mem_cons_of_mem _ (root_mem_ancestors attached inside same)
  have within := spaced.within_ancestor attached inside top
  refine ⟨t.coverFrom _ root, if_pos ?_⟩
  simpa [Span.contains] using within

end Tree

/-- What a marker says of a source: a problem, in its words and with its usual severity, and the place
of a node. -/
structure Marker.Describes (m : Marker) (unit : SourceUnit) (problem : Problem) (node : Nat) :
    Prop where
  named : m.problem? = some problem
  usual : m.severity = Report.usualSeverity problem
  resource : m.resource = unit.resource
  message : m.message = problem.message m.args
  start : m.start = some (unit.tree.span node).start
  stop : m.stop = some (unit.tree.span node).stop
  line : m.line = some (1 + Text.newlinesBefore unit.tree.source (unit.tree.span node).start)

theorem Finding.Belongs.describes {finding : Finding} {check : Check} {unit : SourceUnit}
    (belongs : finding.Belongs check unit.tree) :
    (Marker.ofFinding unit.resource unit.tree finding).Describes unit finding.problem
      finding.node where
  named := Problem.ofId?_toString _
  usual := belongs.usual
  resource := rfl
  message := rfl
  start := rfl
  stop := rfl
  line := congrArg some (Text.lineOf_lineStarts _ _)

namespace Check

variable {q : Query} {grammar : Grammar} {resource : String} {check : Check} {findings : List Finding}

/-- Each marker of a check describes a live node and a problem of the check, as reports do. The tree
has a node that covers the marked place, so as long as the text of the source stays as it is no fix
finds the marker stale, whatever becomes of the project. -/
theorem markers_well_formed (reached : Project.Reached grammar q.project)
    (known : q.project.unit? resource = some q.unit)
    (shaped : ∀ parse, grammar q.tree.source = some parse →
      parse.tree.Nested ∧ parse.tree.LeafComments ∧ parse.tree.OnCharacters q.tree.source)
    (ran : check.run? q = some findings) :
    ∀ m ∈ findings.map (Marker.ofFinding q.unit.resource q.tree),
      ∃ problem ∈ check.problems, ∃ node, q.tree.Live node ∧ m.Describes q.unit problem node ∧
        (∃ covering, q.tree.coveringNode (q.tree.span node).start (q.tree.span node).stop =
          some covering) ∧
        ∀ (fixer : Fixer) (project : Project) (files : FileSystem),
          files.read (project.layout.pathOf m.resource) = .ok q.tree.source →
          ∀ path, fixer.preview grammar project files m ≠ .error (.error (.staleMarker path)) ∧
            (fixer.apply grammar project files m).2 ≠ .error (.error (.staleMarker path)) := by
  intro m member
  obtain ⟨finding, found, rfl⟩ := List.mem_map.mp member
  have belongs := belongs_of_run ran finding found
  obtain ⟨parse, parsed, read⟩ := reached.parsed.exists_parse (Table.mem_of_get? known)
  have tree : q.tree = (Source.ofParse q.tree.source parse).tree := read
  obtain ⟨nested, leaves, characters⟩ := shaped parse parsed
  have attached : q.tree.Attached := tree ▸ Source.attached_ofParse _ parse
  have spaced : q.tree.Spaced := tree ▸ Source.spaced_ofParse _ parse nested leaves
  have ends : q.tree.OnCharacters := tree ▸ Source.onCharacters_ofParse _ parse nested leaves characters
  have covered := Tree.exists_coveringNode attached spaced (belongs.live.lt attached)
  refine ⟨_, belongs.declared, _, belongs.live, belongs.describes, covered, ?_⟩
  intro fixer project files unchanged path
  have fresh : fixer.preview grammar project files
      (Marker.ofFinding q.unit.resource q.tree finding) ≠ .error (.error (.staleMarker path)) := by
    refine Fixer.preview_ne_stale rfl rfl unchanged (spaced _).le (ends _).2.le ?_
    intro source again
    obtain ⟨other, reread, rfl⟩ := Option.map_eq_some_iff.mp again
    obtain rfl := Option.some.inj (parsed.symm.trans reread)
    exact tree ▸ covered
  exact ⟨fresh, fun stale => fresh (Fixer.preview_of_apply_stale stale)⟩

def lambdaText : String :=
  "class A \x7b\n R r = x -> x;\n\x7d\n"

def lambdaParse : Parse where
  tree := .node "program" true ⟨0, 27⟩ none [
    .node "class_declaration" true ⟨0, 26⟩ none [
      .token "class" 0,
      .leaf (some "name") "identifier" 6 7,
      .node "class_body" true ⟨8, 26⟩ (some "body") [
        .token "\x7b" 8,
        .node "field_declaration" true ⟨11, 24⟩ none [
          .leaf (some "type") "type_identifier" 11 12,
          .node "variable_declarator" true ⟨13, 23⟩ (some "declarator") [
            .leaf (some "name") "identifier" 13 14,
            .token "=" 15,
            .node "lambda_expression" true ⟨17, 23⟩ (some "value") [
              .leaf (some "parameters") "identifier" 17 18,
              .token "->" 19,
              .leaf (some "body") "identifier" 22 23]],
          .token ";" 23],
        .token "\x7d" 25]]]
  hasErrors := false

def lambdaUnit : SourceUnit :=
  .ofSource "A.java" (Source.ofParse lambdaText lambdaParse)

def lambdaProject : Project :=
  ({ layout := { root := "/project" } } : Project).insertUnit lambdaUnit

def lambdaQuery : Query where
  unit := lambdaUnit.link (lambdaUnit.declare lambdaProject.nameIndexOf) lambdaProject.relink.index
  project := lambdaProject.relink
  files := {}

theorem lambda_known : lambdaProject.relink.unit? "A.java" = some lambdaQuery.unit := by
  rw [Project.unit?_relink]
  exact congrArg (Option.map _) (Project.unit?_insertUnit ..)

theorem lambda_found :
    Finding.warning .missingParenthesesAroundLambdaParameter 12 [] ∈ lambdaParameters lambdaQuery := by
  have attached : lambdaQuery.tree.Attached := Source.attached_ofParse lambdaText lambdaParse
  have untouched : lambdaQuery.tree.Untouched := Source.untouched_ofParse lambdaText lambdaParse
  have live : lambdaQuery.tree.Live 11 :=
    Tree.mem_descendants_root attached untouched (by decide +kernel)
  exact Tree.mem_gatherAll.mpr ⟨11, live, by decide +kernel⟩

theorem markers_well_formed_lambda :
    Project.Reached (fun _ => some lambdaParse) lambdaQuery.project ∧
      lambdaQuery.project.unit? "A.java" = some lambdaQuery.unit ∧
      (lambdaParse.tree.Nested ∧ lambdaParse.tree.LeafComments ∧
        lambdaParse.tree.OnCharacters lambdaText) ∧
      run? .lambdaParameterParentheses lambdaQuery = some (lambdaParameters lambdaQuery) ∧
      lambdaParameters lambdaQuery ≠ [] ∧
      ∀ m ∈ (lambdaParameters lambdaQuery).map (Marker.ofFinding "A.java" lambdaQuery.tree),
        ∃ node, m.Describes lambdaQuery.unit .missingParenthesesAroundLambdaParameter node ∧
          ∃ covering, lambdaQuery.tree.coveringNode (lambdaQuery.tree.span node).start
            (lambdaQuery.tree.span node).stop = some covering := by
  have reached : Project.Reached (fun _ => some lambdaParse) lambdaProject :=
    .insertSource (.new { root := "/project" }) rfl
  have shape : lambdaParse.tree.Nested ∧ lambdaParse.tree.LeafComments ∧
      lambdaParse.tree.OnCharacters lambdaText := by decide +kernel
  have shaped : ∀ parse, some lambdaParse = some parse →
      parse.tree.Nested ∧ parse.tree.LeafComments ∧ parse.tree.OnCharacters lambdaText :=
    fun parse same => Option.some.inj same ▸ shape
  have ran : run? .lambdaParameterParentheses lambdaQuery = some (lambdaParameters lambdaQuery) := rfl
  refine ⟨reached.relink, lambda_known, shape, ran, List.ne_nil_of_mem lambda_found, fun m member => ?_⟩
  obtain ⟨problem, declared, node, -, describes, covered, -⟩ :=
    markers_well_formed reached.relink lambda_known shaped ran m member
  obtain rfl := List.mem_singleton.mp declared
  exact ⟨node, describes, covered⟩

end Check

end SpringLint
