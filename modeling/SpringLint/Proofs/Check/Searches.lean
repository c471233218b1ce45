import SpringLint.Check.IndexOf
import SpringLint.Proofs.Check.Findings
import SpringLint.Proofs.Syntax.Batch
import SpringLint.Proofs.Syntax.StringLiteral

/-! Which searches of a text for a literal are reported: those whose literal is decoded to a single
character, which is not the same as a single unit. -/

namespace SpringLint.Check

open StringLiteral (Denotes Masked Sign Spelled Wide)

variable {q : Query} {call name literal : Nat}

def search? (q : Query) (id : Nat) : Option Finding := do
  let callee ← q.calleeOf? id
  let method ← searchMethods.find? (callee.is Catalogue.string)
  match q.tree.arguments id with
  | [argument] =>
    guard (isSingleCharacter q.tree argument)
    let name ← q.tree.childByField id "name"
    return .warning .singleCharacterStringLiteralIndexOf name [method, method]
  | _ => none

def reportedSearches (q : Query) : List Nat :=
  (characterSearches q).map (·.node)

/-- A call of `String.indexOf` or `String.lastIndexOf` with a literal for its only argument. -/
structure Searches (q : Query) (call name literal : Nat) : Prop where
  live : q.tree.Live call
  kind : q.tree.kind call = .methodInvocation
  bound : ∃ callee, q.calleeOf? call = some callee ∧
    ∃ method ∈ searchMethods, callee.is Catalogue.string method = true
  named : q.tree.childByField call "name" = some name
  only : q.tree.arguments call = [literal]
  text : q.tree.kind literal = .stringLiteral

theorem childByField_of_search? {id : Nat} {finding : Finding} (found : search? q id = some finding) :
    q.tree.childByField id "name" = some finding.node := by
  have ⟨callee, _, found⟩ := Option.bind_eq_some_iff.mp found
  have ⟨method, _, found⟩ := Option.bind_eq_some_iff.mp found
  split at found
  · have ⟨_, found⟩ := guard_bind_eq_some_iff.mp found
    have ⟨name, named, same⟩ := Option.bind_eq_some_iff.mp found
    cases same
    exact named
  · cases found

theorem reportedSearches_eq (q : Query) : reportedSearches q =
    ((q.tree.descendants Tree.root).filter fun id => q.tree.kind id = .methodInvocation).filterMap
      fun id => (search? q id).map (·.node) := by
  have gathered : characterSearches q = q.tree.gatherAll fun id =>
      if q.tree.kind id = .methodInvocation then (search? q id).toList else [] := rfl
  rw [reportedSearches, gathered, Tree.gatherAll_eq, flatMap_ite_toList, List.map_filterMap]

theorem call_unique (attached : q.tree.Attached) {a b : Nat}
    (first : (search? q a).map (·.node) = some name)
    (second : (search? q b).map (·.node) = some name) : a = b := by
  have ⟨_, left, here⟩ := Option.map_eq_some_iff.mp first
  have ⟨_, right, there⟩ := Option.map_eq_some_iff.mp second
  have above := attached.parent_of_mem
    (Tree.mem_node_of_childByField (here ▸ childByField_of_search? left))
  have also := attached.parent_of_mem
    (Tree.mem_node_of_childByField (there ▸ childByField_of_search? right))
  exact Option.some.inj (above.symm.trans also)

theorem nodup_reportedSearches (attached : q.tree.Attached) : (reportedSearches q).Nodup := by
  rw [reportedSearches_eq]
  have distinct := (Tree.nodup_descendants attached Tree.root).filter fun id =>
    q.tree.kind id = .methodInvocation
  apply List.pairwise_filterMap.mpr
  apply distinct.imp_of_mem
  intro a b _ _ different x taken y also same
  exact different (call_unique attached taken (same ▸ also))

namespace Searches

variable (searches : Searches q call name literal)

include searches

theorem search?_eq : (search? q call).map (·.node) =
    if isSingleCharacter q.tree literal then some name else none := by
  have ⟨callee, bound, method, listed, is⟩ := searches.bound
  have ⟨first, found⟩ : ∃ first, searchMethods.find? (callee.is Catalogue.string) = some first :=
    Option.isSome_iff_exists.mp (List.find?_isSome.mpr ⟨method, listed, is⟩)
  unfold search?
  rw [bound, Option.bind_eq_bind, Option.bind_some, found, Option.bind_eq_bind, Option.bind_some,
    searches.only]
  dsimp only
  rw [searches.named]
  cases isSingleCharacter q.tree literal <;> rfl

theorem mem_reportedSearches_iff (attached : q.tree.Attached) :
    name ∈ reportedSearches q ↔ isSingleCharacter q.tree literal = true := by
  have named : (q.tree.node name).parent = some call :=
    attached.parent_of_mem (Tree.mem_node_of_childByField searches.named)
  rw [reportedSearches_eq, List.mem_filterMap]
  constructor
  · intro ⟨other, _, reported⟩
    have ⟨finding, found, same⟩ := Option.map_eq_some_iff.mp reported
    have above := attached.parent_of_mem
      (Tree.mem_node_of_childByField (same ▸ childByField_of_search? found))
    rw [named] at above
    rw [← Option.some.inj above, searches.search?_eq] at reported
    exact (Option.ite_none_right_eq_some.mp reported).1
  · intro single
    refine ⟨call, List.mem_filter.mpr ⟨searches.live, decide_eq_true searches.kind⟩, ?_⟩
    rw [searches.search?_eq, if_pos single]

theorem isSingleCharacter_iff {body : List Char}
    (written : StringLiteral.value? (q.tree.text literal) = StringLiteral.decode 0 body) :
    isSingleCharacter q.tree literal = true ↔ ∃ c, StringLiteral.decode 0 body = some [c] := by
  have kind : decide (q.tree.kind literal = .stringLiteral) = true := decide_eq_true searches.text
  rw [isSingleCharacter, kind, Bool.true_and, written]
  cases StringLiteral.decode 0 body with
  | none => simp
  | some value => simp [List.length_eq_one_iff]

end Searches

/-- A search for a well-formed literal is reported at most once. That it is reported and that its
literal stands for a single unit come to the same, except for a literal of one character that takes
two units, and for one unit whose writing is masked. -/
theorem reports_single_unit_iff {text : String} {parse : Parse}
    (read : q.tree = (Source.ofParse text parse).tree) (searches : Searches q call name literal)
    {body : List Char} {signs : List Sign} {units : List Nat}
    (written : q.tree.text literal = "\"" ++ String.ofList body ++ "\"")
    (spelled : Spelled body signs) (denotes : Denotes signs units) :
    (reportedSearches q).Nodup ∧
      ((name ∈ reportedSearches q ↔ units.length = 1) ↔
        ¬ (Wide body ∨ units.length = 1 ∧ Masked signs)) := by
  have attached : q.tree.Attached := read ▸ Source.attached_ofParse text parse
  have value := StringLiteral.value?_eq spelled denotes
  rw [← written] at value
  have reported := (searches.mem_reportedSearches_iff attached).trans
    ((searches.isSingleCharacter_iff value).trans
      (StringLiteral.decode_single_iff spelled denotes))
  have long := StringLiteral.length_of_wide spelled denotes
  refine ⟨nodup_reportedSearches attached, ?_⟩
  rw [reported]
  tauto

def wideText : String :=
  "class A \x7b void m(String s) \x7b s.indexOf(\"😀\"); \x7d \x7d\n"

def wideParse : Parse where
  tree := .node "program" true ⟨0, 52⟩ none [
    .node "class_declaration" true ⟨0, 51⟩ none [
      .token "class" 0,
      .leaf (some "name") "identifier" 6 7,
      .node "class_body" true ⟨8, 51⟩ (some "body") [
        .token "\x7b" 8,
        .node "method_declaration" true ⟨10, 49⟩ none [
          .leaf (some "type") "void_type" 10 14,
          .leaf (some "name") "identifier" 15 16,
          .node "formal_parameters" true ⟨16, 26⟩ (some "parameters") [
            .token "(" 16,
            .node "formal_parameter" true ⟨17, 25⟩ none [
              .leaf (some "type") "type_identifier" 17 23,
              .leaf (some "name") "identifier" 24 25],
            .token ")" 25],
          .node "block" true ⟨27, 49⟩ (some "body") [
            .token "\x7b" 27,
            .node "expression_statement" true ⟨29, 47⟩ none [
              .node "method_invocation" true ⟨29, 46⟩ none [
                .leaf (some "object") "identifier" 29 30,
                .token "." 30,
                .leaf (some "name") "identifier" 31 38,
                .node "argument_list" true ⟨38, 46⟩ (some "arguments") [
                  .token "(" 38,
                  .node "string_literal" true ⟨39, 45⟩ none [
                    .token "\"" 39,
                    .leaf none "string_fragment" 40 44,
                    .token "\"" 44],
                  .token ")" 45]],
              .token ";" 46],
            .token "\x7d" 48]],
        .token "\x7d" 50]]]
  hasErrors := false

def wideQuery : Query :=
  let unit := SourceUnit.ofSource "A.java" (Source.ofParse wideText wideParse)
  let index := ({} : Index).insertAll (Catalogue.types.filter fun d => d.name = Catalogue.string)
  { unit := unit.link (unit.declare index) index
    project := { layout := { root := "/" } }
    files := {} }

/-- The search is reported, though its literal stands for two units. -/
theorem reports_single_unit_iff_wide :
    (Searches wideQuery 18 21 24 ∧
      wideQuery.tree.text 24 = "\"" ++ String.ofList ['😀'] ++ "\"" ∧
      Spelled ['😀'] [{ unit := 0xD83D }, { unit := 0xDE00 }] ∧
      Denotes [{ unit := 0xD83D }, { unit := 0xDE00 }] [0xD83D, 0xDE00]) ∧
      Wide ['😀'] ∧ 21 ∈ reportedSearches wideQuery := by
  have ⟨live, kind, callee, named, only, literal, written⟩ :
      18 ∈ wideQuery.tree.descendants Tree.root ∧
      wideQuery.tree.kind 18 = .methodInvocation ∧
      (((wideQuery.calleeOf? 18).map fun callee => callee.is Catalogue.string "indexOf") =
        some true) ∧
      wideQuery.tree.childByField 18 "name" = some 21 ∧
      wideQuery.tree.arguments 18 = [24] ∧
      wideQuery.tree.kind 24 = .stringLiteral ∧
      wideQuery.tree.text 24 = "\"" ++ String.ofList ['😀'] ++ "\"" := by
    decide +kernel
  have ⟨target, bound, is⟩ := Option.map_eq_some_iff.mp callee
  have searches : Searches wideQuery 18 21 24 :=
    ⟨live, kind, ⟨target, bound, "indexOf", by decide, is⟩, named, only, literal⟩
  have spelled : Spelled ['😀'] [{ unit := 0xD83D }, { unit := 0xDE00 }] :=
    .char '😀' (by decide) .nil
  have denotes : Denotes [{ unit := 0xD83D }, { unit := 0xDE00 }] [0xD83D, 0xDE00] :=
    .plain { unit := 0xD83D } (by decide) (.plain { unit := 0xDE00 } (by decide) .nil)
  have wide : Wide ['😀'] := ⟨'😀', rfl, by decide⟩
  have ⟨_, agree⟩ := reports_single_unit_iff rfl searches written spelled denotes
  refine ⟨⟨searches, written, spelled, denotes⟩, wide, ?_⟩
  by_contra silent
  exact agree.mp (iff_of_false silent (by decide)) (.inl wide)

end SpringLint.Check
