import SpringLint.Proofs.Check.Markers
import SpringLint.Proofs.Check.Repetition
import SpringLint.Proofs.Text.Affixes
import SpringLint.Proofs.Text.Basic

/-! Keys of markers. A key has the start of the marked place but not its end, so it tells all markers of
a source apart but those of one problem at a call and at its receiver. -/

namespace SpringLint

theorem Text.number_bar_inj {n m : Nat} {first second : String}
    (same : toString n ++ "|" ++ first = toString m ++ "|" ++ second) : n = m ∧ first = second := by
  have bare (n : Nat) : '|' ∉ Nat.toDigits 10 n := by
    intro member
    have digit := Nat.isDigit_of_mem_toDigits (by decide) (by decide) member
    exact absurd digit (by decide)
  have listed := congrArg (fun s => cutList? '|' s.toList) same
  have split (n : Nat) (rest : String) : (toString n ++ "|" ++ rest).toList =
      Nat.toDigits 10 n ++ '|' :: rest.toList := by
    rw [Nat.toString_eq_ofList_toDigits, String.toList_append, String.toList_append,
      String.toList_ofList, List.append_assoc]
    rfl
  rw [split, split, cutList?_append (bare n), cutList?_append (bare m)] at listed
  have ⟨digits, rest⟩ := Prod.mk.inj (Option.some.inj listed)
  have numbers := congrArg (digits? 10 0) digits
  rw [digits?_toDigits, digits?_toDigits] at numbers
  exact ⟨Option.some.inj numbers, String.toList_inj.mp rest⟩

/-- In one source a key says the problem, where the marked place starts, and the message. -/
theorem Marker.key_ofFinding_inj {resource : String} {t : Tree} {f g : Finding}
    (same : (ofFinding resource t f).key = (ofFinding resource t g).key) :
    f.problem = g.problem ∧ (t.span f.node).start = (t.span g.node).start ∧
      f.problem.message f.args = g.problem.message g.args := by
  have parts (f : Finding) : (ofFinding resource t f).key = toString f.problem.id ++ "|" ++
      (resource ++ ("|" ++ (toString (t.span f.node).start ++ "|" ++ f.problem.message f.args))) := by
    simp only [key, ofFinding, ofResource, Option.getD_some, String.append_assoc]
  rw [parts, parts] at same
  have ⟨numbers, rest⟩ := Text.number_bar_inj same
  have ⟨starts, messages⟩ := Text.number_bar_inj
    (String.append_right_inj _ |>.mp (String.append_right_inj _ |>.mp rest))
  have problems := congrArg (fun n => Problem.ofId? (toString n)) numbers
  rw [Problem.ofId?_toString, Problem.ofId?_toString] at problems
  exact ⟨Option.some.inj problems, starts, messages⟩

namespace Check

/-- A problem of calls that is reported at a call and at a call in it which starts where the outer one
does. -/
structure Clash (t : Tree) (f g : Finding) : Prop where
  problem : f.problem = g.problem
  calls : f.problem.isOfCalls = true
  nested : f.node ∈ t.ancestors g.node ∨ g.node ∈ t.ancestors f.node
  start : (t.span f.node).start = (t.span g.node).start

theorem find?_problems {check : Check} {problem : Problem} (declared : problem ∈ check.problems) :
    all.find? (fun c => c.problems.contains problem) = some check := by
  cases check with
  | beanMethodProxying | beanMethodOnNonConfiguration =>
    rcases List.mem_cons.mp declared with same | other
    · rw [same]
      rfl
    · rw [List.mem_singleton.mp other]
      rfl
  | _ =>
    rw [List.mem_singleton.mp declared]
    rfl

variable {q : Query} {check : Check} {findings : List Finding}

/-- What several checks find never repeats a problem at a node, as long as no check is run twice. -/
theorem once_of_runAll (legible : q.tree.Legible) {checks : List Check} (distinct : checks.Nodup)
    (ran : runAll? checks q = some findings) :
    findings.Pairwise fun f g => f.problem = g.problem → f.node ≠ g.node := by
  have ⟨results, each, joined⟩ := Option.map_eq_some_iff.mp ran
  rw [← joined]
  clear joined ran
  induction checks generalizing results with
  | nil =>
    cases each
    exact List.Pairwise.nil
  | cons check rest ih =>
    have ⟨fresh, distinct⟩ := List.nodup_cons.mp distinct
    rw [List.mapM_cons] at each
    have ⟨first, here, each⟩ := Option.bind_eq_some_iff.mp each
    have ⟨others, later, each⟩ := Option.bind_eq_some_iff.mp each
    cases each
    rw [List.flatten_cons, List.pairwise_append]
    refine ⟨(anchored_of_run legible here).once, ih distinct others later, ?_⟩
    intro f found g further same
    have ⟨result, among, inside⟩ := List.mem_flatten.mp further
    have ⟨other, listed, run⟩ := Marker.exists_of_mem_mapM later among
    have left := find?_problems (belongs_of_run here f found).declared
    have right := find?_problems (belongs_of_run run g inside).declared
    rw [same, right] at left
    exact absurd (Option.some.inj left ▸ listed) fresh

theorem legible_ofParse (text : String) {parse : Parse} (nested : parse.tree.Nested)
    (comments : parse.tree.LeafComments) (words : parse.tree.LeafWords) (formed : parse.tree.Formed)
    (proper : ∀ id, (Source.ofParse text parse).tree.Live id →
      ((Source.ofParse text parse).tree.span id).start <
        ((Source.ofParse text parse).tree.span id).stop) :
    (Source.ofParse text parse).tree.Legible where
  attached := Source.attached_ofParse text parse
  untouched := Source.untouched_ofParse text parse
  spaced := Source.spaced_ofParse text parse nested comments
  words := Source.leafWords_ofParse text words
  formed := Source.formed_ofParse text formed
  links _ _ := Source.links_apart_ofParse text formed
  proper := proper

/-- Of all that the checks find in a source, two findings get one key exactly if they clash. -/
theorem keys_coincide_iff {text : String} {parse : Parse}
    (read : q.tree = (Source.ofParse text parse).tree) (nested : parse.tree.Nested)
    (comments : parse.tree.LeafComments) (words : parse.tree.LeafWords) (formed : parse.tree.Formed)
    (proper : ∀ id, q.tree.Live id → (q.tree.span id).start < (q.tree.span id).stop)
    {checks : List Check} (distinct : checks.Nodup) (ran : runAll? checks q = some findings)
    (resource : String) :
    findings.Pairwise fun f g =>
      (Marker.ofFinding resource q.tree f).key = (Marker.ofFinding resource q.tree g).key ↔
        Clash q.tree f g := by
  have legible : q.tree.Legible :=
    read ▸ legible_ofParse text nested comments words formed (read ▸ proper)
  have ⟨results, each, joined⟩ := Option.map_eq_some_iff.mp ran
  have origin : ∀ f ∈ findings, ∃ check : Check, ∃ own, check.run? q = some own ∧ f ∈ own := by
    intro f member
    have ⟨own, among, inside⟩ := List.mem_flatten.mp (joined ▸ member)
    have ⟨check, _, run⟩ := Marker.exists_of_mem_mapM each among
    exact ⟨check, own, run, inside⟩
  apply (once_of_runAll legible distinct ran).imp_of_mem
  intro f g found also once
  have ⟨_, _, run, inside⟩ := origin f found
  have ⟨_, _, rerun, among⟩ := origin g also
  constructor
  · intro same
    have ⟨problem, start, _⟩ := Marker.key_ofFinding_inj same
    have ⟨_, left⟩ := (anchored_of_run legible run).anchor f inside
    have ⟨_, right⟩ := (anchored_of_run legible rerun).anchor g among
    have first := (belongs_of_run run f inside).live
    have second := (belongs_of_run rerun g among).live
    have holdsF : q.tree.Holds f.node (q.tree.span f.node).start :=
      ⟨Nat.le_refl _, legible.proper _ first⟩
    have holdsG : q.tree.Holds g.node (q.tree.span f.node).start :=
      ⟨Nat.le_of_eq start.symm, start ▸ legible.proper _ second⟩
    have different := once problem
    have nested : f.node ∈ q.tree.ancestors g.node ∨ g.node ∈ q.tree.ancestors f.node := by
      rcases legible.spaced.comparable legible.attached (first.lt legible.attached)
        (second.lt legible.attached) holdsF holdsG with low | high
      · exact .inl ((List.mem_cons.mp low).resolve_left different)
      · exact .inr ((List.mem_cons.mp high).resolve_left (Ne.symm different))
    refine ⟨problem, ?_, nested, start⟩
    by_contra other
    rw [Bool.not_eq_true] at other
    rcases nested with outer | inner
    · have := left.start_lt legible (problem ▸ right) other second outer
      omega
    · have := right.start_lt legible (problem ▸ left) (problem ▸ other) first inner
      omega
  · intro clash
    have left := args_of_run run inside clash.calls
    have right := args_of_run rerun among (clash.problem ▸ clash.calls)
    simp only [Marker.key, Marker.ofFinding, Marker.ofResource, clash.problem, clash.start, left, right]

def receiverText : String :=
  "import org.springframework.context.annotation.Bean;\n" ++
    "class A \x7b @Bean A one() \x7b return one().one(); \x7d \x7d\n"

def receiverParse : Parse where
  tree := .node "program" true ⟨0, 102⟩ none [
    .node "import_declaration" true ⟨0, 51⟩ none [
      .token "import" 0,
      .node "scoped_identifier" true ⟨7, 50⟩ none [
        .node "scoped_identifier" true ⟨7, 45⟩ (some "scope") [
          .node "scoped_identifier" true ⟨7, 34⟩ (some "scope") [
            .node "scoped_identifier" true ⟨7, 26⟩ (some "scope") [
              .leaf (some "scope") "identifier" 7 10,
              .token "." 10,
              .leaf (some "name") "identifier" 11 26],
            .token "." 26,
            .leaf (some "name") "identifier" 27 34],
          .token "." 34,
          .leaf (some "name") "identifier" 35 45],
        .token "." 45,
        .leaf (some "name") "identifier" 46 50],
      .token ";" 50],
    .node "class_declaration" true ⟨52, 101⟩ none [
      .token "class" 52,
      .leaf (some "name") "identifier" 58 59,
      .node "class_body" true ⟨60, 101⟩ (some "body") [
        .token "\x7b" 60,
        .node "method_declaration" true ⟨62, 99⟩ none [
          .node "modifiers" true ⟨62, 67⟩ none [
            .node "marker_annotation" true ⟨62, 67⟩ none [
              .token "@" 62,
              .leaf (some "name") "identifier" 63 67]],
          .leaf (some "type") "type_identifier" 68 69,
          .leaf (some "name") "identifier" 70 73,
          .node "formal_parameters" true ⟨73, 75⟩ (some "parameters")
            [.token "(" 73, .token ")" 74],
          .node "block" true ⟨76, 99⟩ (some "body") [
            .token "\x7b" 76,
            .node "return_statement" true ⟨78, 97⟩ none [
              .token "return" 78,
              .node "method_invocation" true ⟨85, 96⟩ none [
                .node "method_invocation" true ⟨85, 90⟩ (some "object") [
                  .leaf (some "name") "identifier" 85 88,
                  .node "argument_list" true ⟨88, 90⟩ (some "arguments")
                    [.token "(" 88, .token ")" 89]],
                .token "." 90,
                .leaf (some "name") "identifier" 91 94,
                .node "argument_list" true ⟨94, 96⟩ (some "arguments")
                  [.token "(" 94, .token ")" 95]],
              .token ";" 96],
            .token "\x7d" 98]],
        .token "\x7d" 100]]]
  hasErrors := false

def receiverQuery : Query :=
  let unit := SourceUnit.ofSource "src/main/java/A.java" (Source.ofParse receiverText receiverParse)
  let known := ({} : Index).insertAll (Catalogue.types.filter fun d => d.name = bean)
  let names := known.declare "A" .classType
  let types := unit.declare names
  let index := names.insertAll types
  { unit := unit.link types index
    project := { layout := { root := "/" }, index := index }
    files := {} }

/-- The outer call and its receiver are reported under one key, with markers of different lengths. -/
theorem keys_coincide_iff_receiver :
    (receiverParse.tree.Nested ∧ receiverParse.tree.LeafComments ∧ receiverParse.tree.LeafWords ∧
      receiverParse.tree.Formed ∧ all.Nodup ∧
      ∀ id, receiverQuery.tree.Live id →
        (receiverQuery.tree.span id).start < (receiverQuery.tree.span id).stop) ∧
      ∃ outer inner others, runAll? all receiverQuery = some (outer :: inner :: others) ∧
        Clash receiverQuery.tree outer inner ∧
        (Marker.ofFinding "src/main/java/A.java" receiverQuery.tree outer).key =
          (Marker.ofFinding "src/main/java/A.java" receiverQuery.tree inner).key ∧
        (Marker.ofFinding "src/main/java/A.java" receiverQuery.tree outer).stop ≠
          (Marker.ofFinding "src/main/java/A.java" receiverQuery.tree inner).stop := by
  have ⟨nested, comments, words, formed⟩ : receiverParse.tree.Nested ∧
      receiverParse.tree.LeafComments ∧ receiverParse.tree.LeafWords ∧ receiverParse.tree.Formed := by
    decide +kernel
  have distinct : all.Nodup := by decide
  have ⟨proper, ran⟩ : (∀ id ∈ receiverQuery.tree.descendants Tree.root,
        (receiverQuery.tree.span id).start < (receiverQuery.tree.span id).stop) ∧
      runAll? all receiverQuery = some [.error .invocationOfUnproxiedBeanMethod 36,
        .error .invocationOfUnproxiedBeanMethod 37,
        .warning .beanMethodOnNonConfigurationClass 24 []] := by
    decide +kernel
  have ⟨around, start, stop⟩ : 36 ∈ receiverQuery.tree.ancestors 37 ∧
      (receiverQuery.tree.span 36).start = (receiverQuery.tree.span 37).start ∧
      some (receiverQuery.tree.span 36).stop ≠ some (receiverQuery.tree.span 37).stop := by
    decide +kernel
  have pairs := keys_coincide_iff rfl nested comments words formed proper distinct ran "src/main/java/A.java"
  have clash : Clash receiverQuery.tree (.error .invocationOfUnproxiedBeanMethod 36)
      (.error .invocationOfUnproxiedBeanMethod 37) := ⟨rfl, rfl, .inl around, start⟩
  have same := ((List.pairwise_cons.mp pairs).1 _ List.mem_cons_self).mpr clash
  exact ⟨⟨nested, comments, words, formed, distinct, proper⟩, _, _, _, ran, clash, same, stop⟩

end Check

end SpringLint
