import SpringLint.Proofs.Check.Findings
import SpringLint.Proofs.Fix.InjectedText

/-! What injecting through the constructor changes in a file, and what it leaves as it stands. -/

namespace SpringLint

def Query.autowiredUses (q : Query) (declaration : Nat) : List Nat :=
  (q.annotations declaration).filter fun use => q.typeOf? use == some Check.autowired

/-- What the grammar promises of the inside of fields: there are a type and a declarator with a name,
the modifiers come before the type, and what follows an annotation or a list of modifiers is not empty
and does not start with a blank. -/
structure Tree.FieldShape (t : Tree) : Prop where
  declares : ∀ d, d < t.size → t.kind d = .fieldDeclaration →
    (t.childByField d "type").isSome = true ∧
      ((t.childByField d "declarator").bind fun declarator =>
        t.childByField declarator "name").isSome = true
  ahead : ∀ d, d < t.size → t.kind d = .fieldDeclaration → ∀ type ∈ t.childByField d "type",
    ∀ c ∈ (t.node d).children.dropWhile (· != type), t.kind c ≠ .modifiers
  starts : ∀ p, p < t.size → ∀ pair ∈ (t.node p).children.zip (t.node p).children.tail,
    (t.kind pair.1).isAnnotationUse = true ∨ t.kind pair.1 = .modifiers → t.Starts pair.2

namespace Tree.FieldShape

variable {t : Tree} {d type : Nat}

theorem split (shape : t.FieldShape) (inside : d < t.size) (kind : t.kind d = .fieldDeclaration)
    (found : t.childByField d "type" = some type) : ∃ before after,
      (t.node d).children = before ++ type :: after ∧
        ∀ c ∈ type :: after, t.kind c ≠ .modifiers := by
  have later := shape.ahead d inside kind type found
  obtain ⟨before, after, split, first⟩ :=
    List.eq_append_cons_of_mem (mem_node_of_childByField found)
  rw [split, dropWhile_ne first] at later
  exact ⟨before, after, split, later⟩

theorem trim (shape : t.FieldShape) : t.Trim where
  ends := by
    intro d inside kind c last
    obtain ⟨type, found⟩ := Option.isSome_iff_exists.mp (shape.declares d inside kind).1
    obtain ⟨before, after, split, later⟩ := shape.split inside kind found
    rw [split, List.getLast?_append_cons] at last
    exact later c (List.mem_of_getLast? last)
  starts := shape.starts

end Tree.FieldShape

namespace ConstructorInjection

section Ahead

variable {t : Tree} {f : InjectedField} {type : Nat} (field : Field t f) (shape : t.FieldShape)
  (found : t.childByField f.declaration "type" = some type)

include field shape found

theorem Field.type_behind : ∃ before after,
    (t.node f.declaration).children = before ++ f.list t :: after ∧ type ∈ after ∧
      ∀ d ∈ after.head?, t.Starts d := by
  obtain ⟨first, second, inside⟩ := field.ordered
  have within : f.declaration < t.size := by omega
  obtain ⟨front, back, split, later⟩ := shape.split within field.kind found
  have early : f.list t ∈ front := by
    have listed := field.listed
    rw [split] at listed
    exact (List.mem_append.mp listed).resolve_right fun late => later _ late field.kind_list
  obtain ⟨before, middle, rfl⟩ := List.append_of_mem early
  rw [List.append_assoc, List.cons_append] at split
  refine ⟨before, middle ++ type :: back, split, List.mem_append_right _ List.mem_cons_self, ?_⟩
  intro d head
  obtain ⟨rest, whole⟩ := List.head?_eq_some_iff.mp head
  rw [whole] at split
  exact shape.starts _ within _ (mem_zip_tail split) (.inr field.kind_list)

variable (attached : t.Attached) (untouched : t.Untouched) (spaced : t.Spaced)
  (characters : t.OnCharacters)

include attached untouched spaced characters

theorem Field.seams_ahead : ∀ cut ∈ f.seams t,
    (t.span f.declaration).start ≤ cut.start ∧ cut.stop ≤ (t.span type).start := by
  obtain ⟨before, after, split, behind, starts⟩ := field.type_behind shape found
  have skipped := Tree.inRow_skipped spaced characters split starts
  have upper : (f.listCut t).stop ≤ (t.span type).start :=
    (skipped.contains (List.mem_map_of_mem behind)).1
  have limit := field.list_within spaced shape.trim
  have past : (t.span (f.list t)).stop ≤ (f.listCut t).stop :=
    Text.le_skipBlankBytes (characters (f.list t)).2 (Nat.le_of_lt limit.2.2)
  intro cut member
  obtain ⟨_, -, within, -⟩ := field.seams_within spaced shape.trim attached untouched characters
  refine ⟨(within cut member).1, ?_⟩
  unfold InjectedField.seams at member
  split at member
  · rcases List.mem_cons.mp member with rfl | removal
    · show (t.span f.declaration).start ≤ _
      omega
    · rw [Trace.mem_settled removal]
      exact upper
  · have inside := (field.fitting_listCuts spaced shape.trim attached untouched characters).within
    have := inside cut member
    omega

end Ahead

/-- The frame of a plan: the cuts that it comes to stand one after another; they are those of the
fields, each between the start of its field and the type, the constructor behind the last field, and
at most one import. -/
structure Scope.Frame (q : Query) (s : Scope) (cuts : List Cut) : Prop where
  row : InRow 0 q.tree.source.utf8ByteSize (cuts.map Cut.toSpan)
  parts : cuts.Perm ((s.fields q).flatMap (·.seams q.tree) ++ s.constructorCut q :: s.importCuts q)
  fields : ∀ f ∈ s.fields q, ∃ type, q.tree.childByField f.declaration "type" = some type ∧
    ∀ cut ∈ f.seams q.tree,
      (q.tree.span f.declaration).start ≤ cut.start ∧ cut.stop ≤ (q.tree.span type).start
  single : (s.importCuts q).length ≤ 1
  imports : ∀ cut ∈ s.importCuts q, cut.start = cut.stop ∧ cut.text ∈ importTexts

variable {q : Query} {s : Scope} {u : Tree}

section Frame

variable (sound : s.Sound q) (attached : q.tree.Attached) (untouched : q.tree.Untouched)
  (spaced : q.tree.Spaced) (characters : q.tree.OnCharacters) (shape : q.tree.FieldShape)
  (run : q.tree.Run (s.edits q) u)

include sound attached untouched spaced characters shape run

theorem exists_frame : ∃ cuts, s.Frame q cuts ∧ u.print = some (Glyph.text
    (Text.spliced q.tree.source 0 q.tree.source.utf8ByteSize cuts)) := by
  obtain ⟨cuts, found, parts⟩ :=
    exists_cuts sound attached untouched spaced characters shape.trim run
  have source := run.follows.source
  have ends := run.follows.characters characters
  have row := ((Tree.render_eq (run.spaced spaced) ends Tree.root).1 cuts found).widen
    (Nat.zero_le _) (ends Tree.root).2.le
  rw [source] at row
  refine ⟨cuts, ⟨row, parts, ?_, ?_, ?_⟩, ?_⟩
  · intro f among
    have field := (field_of_mem_fields among).2.2
    have inside := declaration_lt_size (field_of_mem_fields among).1
    obtain ⟨type, typed⟩ := Option.isSome_iff_exists.mp (shape.declares _ inside field.kind).1
    exact ⟨type, typed, field.seams_ahead shape typed attached untouched spaced characters⟩
  · rcases importCuts_cases q s with none | ⟨cut, one⟩
    · rw [none]
      exact Nat.zero_le _
    · rw [one]
      exact Nat.le_refl _
  · intro cut member
    obtain ⟨-, -, -, -, place, content, texts, -, -, rfl⟩ := import_adds attached member
    exact ⟨rfl, texts⟩
  · rw [run.print_eq attached untouched spaced characters, found, source]
    rfl

end Frame

section Marks

variable (attached : q.tree.Attached) (run : q.tree.Run (s.edits q) u)

include attached run

theorem mark_not_live {f : InjectedField} (among : f ∈ s.fields q) : ¬u.Live f.mark := by
  have field := (field_of_mem_fields among).2.2
  obtain ⟨first, second, inside⟩ := field.ordered
  have within : f.list q.tree < q.tree.size := by omega
  have gone : (u.node (f.struck q.tree)).removed = true := by
    have struck := (mem_strikes attached).mpr ⟨f, among, rfl⟩
    have low : f.struck q.tree < q.tree.size := by
      unfold InjectedField.struck
      split
      · exact within
      · exact inside
    rw [run.follows.node _ low, List.contains_eq_mem, decide_eq_true struck, Bool.or_true]
  have higher : (u.node f.mark).parent = some (f.list q.tree) := by
    rw [run.follows.parent inside]
    exact attached.parent_of_mem field.mark
  have highest : (u.node (f.list q.tree)).parent = some f.declaration := by
    rw [run.follows.parent within]
    exact field.parent_list attached
  intro live
  unfold InjectedField.struck at gone
  split at gone
  · rw [(live.parent run.attached higher).stays run.attached highest] at gone
    cases gone
  · rw [live.stays run.attached higher] at gone
    cases gone

theorem autowired_not_live (shape : q.tree.FieldShape) {d use : Nat}
    (member : d ∈ s.declarations q) (once : q.autowiredUses d = [use]) : ¬u.Live use := by
  have found : q.findUse? d Check.autowired = some use := by
    unfold Query.findUse?
    rw [← List.head?_filter]
    exact congrArg List.head? once
  obtain ⟨typed, declared⟩ := shape.declares d (declaration_lt_size member) (kind_declaration member)
  obtain ⟨type, typed⟩ := Option.isSome_iff_exists.mp typed
  obtain ⟨name, declared⟩ := Option.isSome_iff_exists.mp declared
  obtain ⟨declarator, declares, named⟩ := Option.bind_eq_some_iff.mp declared
  obtain ⟨f, injected, mark⟩ : ∃ f, injectedField? q d = some f ∧ f.mark = use := by
    unfold injectedField?
    simp only [found, declares, named, typed, Option.bind_eq_bind, Option.bind_some]
    exact ⟨_, rfl, rfl⟩
  rw [← mark]
  exact mark_not_live attached run (List.mem_filterMap.mpr ⟨d, member, injected⟩)

end Marks

/-- A plan is accepted and stays in its frame, and no field of the class keeps the one annotation that
asked for injection. -/
theorem stays_in_frame {text : String} {parse : Parse} (nested : parse.tree.Nested)
    (leaves : parse.tree.LeafComments) (characters : parse.tree.OnCharacters text)
    (read : q.tree = (Source.ofParse text parse).tree) (shape : q.tree.FieldShape) {marked : Nat}
    {edits : List Edit} (planned : plan? q marked = some edits) :
    ∃ s u cuts, scope? q marked = some s ∧ q.tree.apply edits = (u, .ok ()) ∧ s.Frame q cuts ∧
      u.print = some (Glyph.text (Text.spliced text 0 text.utf8ByteSize cuts)) ∧
        ∀ d ∈ s.declarations q, ∀ use, q.autowiredUses d = [use] → ¬u.Live use := by
  have attached := Source.attached_ofParse text parse
  have untouched := Source.untouched_ofParse text parse
  have spaced := Source.spaced_ofParse text parse nested leaves
  have ends := Source.onCharacters_ofParse text parse nested leaves characters
  have source := Source.source_ofParse text parse
  rw [← read] at attached untouched spaced ends source
  obtain ⟨s, scope, rfl⟩ := plan?_eq_some planned
  have sound := scope?_eq_some scope
  have targets (edit : Edit) (member : edit ∈ s.edits q) := (edits_about sound attached member).1
  have plain (edit : Edit) (member : edit ∈ s.edits q) := (edits_about sound attached member).2
  obtain ⟨u, accepted, run⟩ := Tree.exists_apply attached untouched targets plain
    (pairwise_edits sound attached spaced shape.trim)
  obtain ⟨cuts, frame, printed⟩ := exists_frame sound attached untouched spaced ends shape run
  rw [source] at printed
  refine ⟨s, u, cuts, scope, accepted, frame, printed, ?_⟩
  intro d member use once
  exact autowired_not_live attached run shape member once

def optionalText : String :=
  "import org.springframework.beans.factory.annotation.Autowired;\n" ++
    "class A \x7b\n  @Autowired(required = false) B b;\n  private int n;\n\x7d\n"

def optionalParse : Parse where
  tree := .node "program" true ⟨0, 128⟩ none [
    .node "import_declaration" true ⟨0, 62⟩ none
      [.token "import" 0, qualified 7 none 61 [51, 40, 32, 26, 10], .token ";" 61],
    .node "class_declaration" true ⟨63, 127⟩ none [
      .token "class" 63,
      .leaf (some "name") "identifier" 69 70,
      .node "class_body" true ⟨71, 127⟩ (some "body") [
        .token "\x7b" 71,
        .node "field_declaration" true ⟨75, 108⟩ none [
          .node "modifiers" true ⟨75, 103⟩ none [
            .node "annotation" true ⟨75, 103⟩ none [
              .token "@" 75,
              .leaf (some "name") "identifier" 76 85,
              .node "annotation_argument_list" true ⟨85, 103⟩ (some "arguments") [
                .token "(" 85,
                .node "element_value_pair" true ⟨86, 102⟩ none [
                  .leaf (some "key") "identifier" 86 94, .token "=" 95, .leaf (some "value") "false" 97 102],
                .token ")" 102]]],
          .leaf (some "type") "type_identifier" 104 105,
          .node "variable_declarator" true ⟨106, 107⟩ (some "declarator")
            [.leaf (some "name") "identifier" 106 107],
          .token ";" 107],
        .node "field_declaration" true ⟨111, 125⟩ none [
          .node "modifiers" true ⟨111, 118⟩ none [.token "private" 111],
          .node "integral_type" true ⟨119, 122⟩ (some "type") [.token "int" 119],
          .node "variable_declarator" true ⟨123, 124⟩ (some "declarator")
            [.leaf (some "name") "identifier" 123 124],
          .token ";" 124],
        .token "\x7d" 126]]]
  hasErrors := false

def optionalQuery : Query :=
  let unit := SourceUnit.ofSource "A.java" (Source.ofParse optionalText optionalParse)
  { unit := unit.link (unit.declare {}) {}, project := { layout := { root := "/" } }, files := {} }

def optionalPlan : List Edit :=
  [.remove 26, .prepend 25 (.keyword "final"), .insertAfter 41
    (.text ("\n\n  public A(ObjectProvider<B> bProvider) \x7b\n" ++
      "      this.b = bProvider.getIfAvailable();\n  \x7d")),
    .insertAfter 1 (.text "\nimport org.springframework.beans.factory.ObjectProvider;")]

/-- The annotation gives way to the keyword, the constructor follows the other field, and the import
the one that is there. -/
theorem stays_in_frame_optional :
    (optionalParse.tree.Nested ∧ optionalParse.tree.LeafComments ∧
      optionalParse.tree.OnCharacters optionalText ∧ optionalQuery.tree.FieldShape ∧
        plan? optionalQuery 20 = some optionalPlan) ∧
      (optionalQuery.tree.apply optionalPlan).1.print = some
        ("import org.springframework.beans.factory.annotation.Autowired;\n" ++
          "import org.springframework.beans.factory.ObjectProvider;\n" ++
            "class A \x7b\n  final B b;\n  private int n;\n\n" ++
              "  public A(ObjectProvider<B> bProvider) \x7b\n" ++
                "      this.b = bProvider.getIfAvailable();\n  \x7d\n\x7d\n") ∧
        ∃ s u cuts, scope? optionalQuery 20 = some s ∧
          optionalQuery.tree.apply optionalPlan = (u, .ok ()) ∧ s.Frame optionalQuery cuts ∧
            u.print = some (Glyph.text
              (Text.spliced optionalText 0 optionalText.utf8ByteSize cuts)) ∧
              ∀ d ∈ s.declarations optionalQuery, ∀ use,
                optionalQuery.autowiredUses d = [use] → ¬u.Live use := by
  have nested : optionalParse.tree.Nested := by decide
  have leaves : optionalParse.tree.LeafComments := by decide
  have characters : optionalParse.tree.OnCharacters optionalText := by decide +kernel
  have shape : optionalQuery.tree.FieldShape :=
    ⟨by decide +kernel, by decide +kernel, by decide +kernel⟩
  have planned : plan? optionalQuery 20 = some optionalPlan := by decide +kernel
  refine ⟨⟨nested, leaves, characters, shape, planned⟩, by decide +kernel, ?_⟩
  exact stays_in_frame nested leaves characters rfl shape planned

end ConstructorInjection

end SpringLint
