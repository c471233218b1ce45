import SpringLint.Proofs.Fix.ConstructorInjection

/-! The text that injecting through the constructor gives, and where it brings words together. -/

namespace SpringLint.ConstructorInjection

variable {q : Query} {s : Scope} {u : Tree}

section Gone

variable (sound : s.Sound q) (attached : q.tree.Attached)

include attached

theorem eq_struck {f : InjectedField} (among : f ∈ s.fields q) {r : Nat}
    (gone : r ∈ (s.edits q).flatMap Edit.strikes)
    (child : r ∈ (q.tree.node (f.site q.tree)).children) : r = f.struck q.tree := by
  obtain ⟨g, other, rfl⟩ := (mem_strikes attached).mp gone
  have ours := (field_of_mem_fields among).2.2
  have theirs := (field_of_mem_fields other).2.2
  have above := attached.parent_of_mem child
  rw [theirs.parent_struck attached] at above
  have path := theirs.above_site attached
  rw [Option.some.inj above] at path
  rw [eq_of_above attached among other (ours.above_site attached) path]

theorem loses_struck {f : InjectedField} (among : f ∈ s.fields q) {before after : List Nat}
    (split : (q.tree.node (f.site q.tree)).children = before ++ f.struck q.tree :: after) :
    q.tree.Loses ((s.edits q).flatMap Edit.strikes) (f.site q.tree) (f.struck q.tree) before after := by
  have once := attached.nodup_children (f.site q.tree)
  rw [split] at once
  obtain ⟨-, rest, apart⟩ := List.nodup_append.mp once
  refine ⟨split, (mem_strikes attached).mpr ⟨f, among, rfl⟩, ?_, ?_⟩
  · intro b early gone
    have same := eq_struck attached among gone (by rw [split]; exact List.mem_append_left _ early)
    exact apart b early _ List.mem_cons_self same
  · intro d late gone
    have here : d ∈ before ++ f.struck q.tree :: after :=
      List.mem_append_right _ (List.mem_cons_of_mem _ late)
    have same := eq_struck attached among gone (by rw [split]; exact here)
    rw [same] at late
    exact (List.nodup_cons.mp rest).1 late

theorem spared_site {f : InjectedField} (among : f ∈ s.fields q) :
    q.tree.Spared ((s.edits q).flatMap Edit.strikes) (f.site q.tree) := by
  have ours := (field_of_mem_fields among).2.2
  intro r path gone
  obtain ⟨g, other, rfl⟩ := (mem_strikes attached).mp gone
  have theirs := (field_of_mem_fields other).2.2
  have higher := Tree.ancestors_trans path (theirs.above_struck attached)
  obtain rfl := eq_of_above attached among other (ours.above_site attached)
    (List.mem_cons_of_mem _ higher)
  have below := Tree.parent_lt (ours.parent_struck attached)
  have := Tree.le_of_mem_ancestors path
  omega

include sound in
theorem spared_parent {p : Nat} (above : (q.tree.node s.last).parent = some p) :
    q.tree.Spared ((s.edits q).flatMap Edit.strikes) p := by
  intro r path gone
  obtain ⟨f, among, rfl⟩ := (mem_strikes attached).mp gone
  rw [← Tree.ancestors_of_parent above] at path
  exact struck_not_above_last sound attached among (List.mem_cons_of_mem _ path)

theorem stay_of_outside {p c : Nat}
    (outside : ∀ f ∈ s.fields q, f.declaration ∉ p :: q.tree.ancestors p)
    (child : c ∈ (q.tree.node p).children) : c ∉ (s.edits q).flatMap Edit.strikes := by
  intro gone
  obtain ⟨f, among, rfl⟩ := (mem_strikes attached).mp gone
  have higher := (field_of_mem_fields among).2.2.above_struck attached
  rw [Tree.ancestors_of_parent (attached.parent_of_mem child)] at higher
  exact outside f among higher

include sound in
theorem host_cases {edit : Edit} (member : edit ∈ s.edits q) {x : Nat}
    (host : q.tree.host? edit = some x) :
    (∃ f ∈ s.fields q, edit ∈ f.edits q.tree ∧ x = f.site q.tree) ∨
      (q.tree.node s.last).parent = some x ∨ (edit ∈ s.imports q ∧ x = Tree.root) := by
  rcases mem_edits.mp member with ⟨f, among, here⟩ | rfl | late
  · obtain ⟨-, -, -, -, hosts⟩ := (field_of_mem_fields among).2.2.edits_about attached here
    exact .inl ⟨f, among, here, hosts x host⟩
  · obtain ⟨-, p, same, above, -⟩ := constructor_about sound attached
    rw [same] at host
    rw [← Option.some.inj host]
    exact .inr (.inl above)
  · rw [(import_about attached late).2.2.1] at host
    exact .inr (.inr ⟨late, (Option.some.inj host).symm⟩)

include sound in
theorem outside_parent {p : Nat} (above : (q.tree.node s.last).parent = some p) {f : InjectedField}
    (among : f ∈ s.fields q) : f.declaration ∉ p :: q.tree.ancestors p := by
  rw [← Tree.ancestors_of_parent above]
  exact not_above_declaration attached (field_of_mem_fields among).1 sound.last_mem

include sound in
theorem mem_edits_of_host_site {f : InjectedField} (among : f ∈ s.fields q) {edit : Edit}
    (member : edit ∈ s.edits q) (host : q.tree.host? edit = some (f.site q.tree)) :
    edit ∈ f.edits q.tree := by
  have above := (field_of_mem_fields among).2.2.above_site attached
  rcases host_cases sound attached member host with ⟨g, other, here, same⟩ | higher | ⟨-, top⟩
  · have theirs := (field_of_mem_fields other).2.2.above_site attached
    rw [← same] at theirs
    rw [eq_of_above attached among other above theirs]
    exact here
  · exact absurd above (outside_parent sound attached higher among)
  · rw [top] at above
    exact absurd above (root_not_below attached among)

end Gone

theorem getLast?_text (s : Scope) : (s.text q).toList.getLast? = some '\x7d' := by
  unfold Scope.text constructorText
  rw [String.toList_append]
  exact List.getLast?_concat

theorem text_ne_empty (s : Scope) : s.text q ≠ "" := by
  intro empty
  have last := @getLast?_text q s
  rw [empty] at last
  cases last

theorem import_adds (attached : q.tree.Attached) {cut : Cut} (member : cut ∈ s.importCuts q) :
    ∃ edit ∈ s.imports q, ∃ before after place, ∃ content ∈ importTexts,
      q.tree.Adds edit Tree.root before after place (.text content) ∧
        ((∃ anchor ∈ (q.tree.node Tree.root).children, place = (q.tree.span anchor).stop) ∨
          place = (q.tree.span Tree.root).start) ∧
          cut = { start := place, stop := place, text := content } := by
  obtain ⟨edit, among, written⟩ := List.mem_filterMap.mp member
  refine ⟨edit, among, ?_⟩
  rw [mem_imports among] at written ⊢
  obtain ⟨content, filled, ⟨anchor, child, same⟩ | same⟩ := importEdit_cases q.tree
  · obtain ⟨before, after, split⟩ := List.append_of_mem child
    have adds := Tree.Adds.insertAfter anchor Tree.root before after (.text content)
      (attached.parent_of_mem child) split
    rw [same] at written ⊢
    exact ⟨_, _, _, content, filled, adds, .inl ⟨anchor, child, rfl⟩, (Option.some.inj written).symm⟩
  · rw [same] at written ⊢
    exact ⟨_, _, _, content, filled, .prepend Tree.root _, .inr rfl, (Option.some.inj written).symm⟩

section Seams

variable (sound : s.Sound q) (attached : q.tree.Attached) (untouched : q.tree.Untouched)
  (spaced : q.tree.Spaced) (characters : q.tree.OnCharacters) (trim : q.tree.Trim)
  (run : q.tree.Run (s.edits q) u)

include sound attached untouched spaced characters trim run

/-- What a field makes of the node that it changes. -/
theorem seams_site {f : InjectedField} (among : f ∈ s.fields q) :
    u.seams? (f.site q.tree) = some (f.seams q.tree) := by
  have field := (field_of_mem_fields among).2.2
  obtain ⟨first, second, inside⟩ := field.ordered
  have targets (edit : Edit) (member : edit ∈ s.edits q) := (edits_about sound attached member).1
  have plain (edit : Edit) (member : edit ∈ s.edits q) := (edits_about sound attached member).2
  have apart := pairwise_edits sound attached spaced trim
  have ours {edit : Edit} (member : edit ∈ f.edits q.tree) : edit ∈ s.edits q :=
    mem_edits.mpr (.inl ⟨f, among, member⟩)
  have lost := @loses_struck q s attached f among
  unfold InjectedField.seams
  unfold InjectedField.edits at ours
  unfold InjectedField.site InjectedField.struck at lost
  unfold InjectedField.site
  cases alone : f.isAlone q.tree with
  | true =>
    -- the list of modifiers goes, and what follows it stays
    simp only [alone, if_true] at ours lost ⊢
    obtain ⟨before, next, after, split, starts⟩ := field.followed trim
    have free := Tree.inRow_skipped spaced characters split (fun d head => by
      obtain rfl := Option.some.inj head
      exact starts)
    exact run.seams_removed_prepend untouched attached targets plain apart spaced
      (ours (List.mem_cons_of_mem _ List.mem_cons_self)) (lost split) free (List.cons_ne_nil _ _)
  | false =>
    -- the annotation goes, and some other modifier stays
    simp only [alone, Bool.false_eq_true, if_false] at ours lost ⊢
    obtain ⟨before, after, split, starts, same⟩ := field.split trim attached untouched
    have free := Tree.inRow_skipped spaced characters split starts
    have others : before ≠ [] ∨ after ≠ [] := by
      apply Classical.byContradiction
      intro neither
      simp only [not_or, not_not] at neither
      unfold InjectedField.isAlone at alone
      rw [Tree.children_of_untouched untouched, split, neither.1, neither.2] at alone
      simp at alone
    rw [same]
    cases final : q.tree.hasModifier f.declaration "final" with
    | false =>
      simp only [final, Bool.false_eq_true, if_false] at ours ⊢
      exact run.seams_removed_append untouched attached targets plain apart spaced
        (ours (List.mem_cons_of_mem _ List.mem_cons_self)) (lost split) free others
    | true =>
      simp only [if_true]
      refine run.seams_removed untouched spaced (Nat.lt_trans second inside) ?_ (lost split) free
        others
      -- a field that is final already adds nothing
      intro edit member host
      have site : f.site q.tree = f.list q.tree := by
        rw [InjectedField.site, alone, if_neg Bool.false_ne_true]
      have here := mem_edits_of_host_site sound attached among member (by rw [site]; exact host)
      rw [InjectedField.edits, alone, if_neg Bool.false_ne_true, final, if_pos rfl] at here
      rw [List.mem_singleton.mp here] at host
      cases host

omit characters in
theorem seams_outside {edit : Edit} (member : edit ∈ s.edits q) {p place : Nat}
    {before after : List Nat} {content : String} (filled : content ≠ "")
    (adds : q.tree.Adds edit p before after place (.text content))
    (outside : ∀ f ∈ s.fields q, f.declaration ∉ p :: q.tree.ancestors p) :
    u.seams? p = some [{ start := place, stop := place, text := content }] := by
  have targets (edit : Edit) (member : edit ∈ s.edits q) := (edits_about sound attached member).1
  have plain (edit : Edit) (member : edit ∈ s.edits q) := (edits_about sound attached member).2
  have apart := pairwise_edits sound attached spaced trim
  have made := run.seams_text untouched attached targets plain apart spaced member adds fun c child =>
    stay_of_outside attached outside child
  rw [made]
  exact congrArg some (Cut.settled_of_text filled)

omit characters in
theorem seams_parent {p : Nat} (above : (q.tree.node s.last).parent = some p) :
    u.seams? p = some [s.constructorCut q] := by
  have child := attached.mem_of_parent (declaration_lt_size sound.last_mem) above
  obtain ⟨before, after, split⟩ := List.append_of_mem child
  have adds := Tree.Adds.insertAfter s.last p before after (.text (s.text q)) above split
  have member : .insertAfter s.last (.text (s.text q)) ∈ s.edits q := mem_edits.mpr (.inr (.inl rfl))
  exact seams_outside sound attached untouched spaced trim run member (text_ne_empty s) adds
    fun f => outside_parent sound attached above

omit characters in
theorem seams_root {cut : Cut} (member : cut ∈ s.importCuts q) : u.seams? Tree.root = some [cut] := by
  obtain ⟨edit, among, before, after, place, content, texts, adds, -, rfl⟩ :=
    import_adds attached member
  exact seams_outside sound attached untouched spaced trim run
    (mem_edits.mpr (.inr (.inr among))) (ne_empty_of_mem_importTexts texts) adds fun f =>
      root_not_below attached

omit characters trim in
theorem seams_elsewhere {d : Nat} (inside : d < q.tree.size)
    (site : ∀ f ∈ s.fields q, f.site q.tree ≠ d) (parent : (q.tree.node s.last).parent ≠ some d)
    (top : d = Tree.root → s.imports q = []) : u.seams? d = some [] := by
  apply run.seams_still untouched spaced inside
  · intro edit member host
    rcases host_cases sound attached member host with ⟨f, among, -, same⟩ | above | ⟨late, same⟩
    · exact site f among same.symm
    · exact parent above
    · rw [top same] at late
      cases late
  · intro c child gone
    obtain ⟨f, among, rfl⟩ := (mem_strikes attached).mp gone
    have above := attached.parent_of_mem child
    rw [(field_of_mem_fields among).2.2.parent_struck attached] at above
    exact site f among (Option.some.inj above)

end Seams

theorem exists_importCut (some : s.imports q ≠ []) : ∃ cut, cut ∈ s.importCuts q := by
  obtain ⟨edit, member⟩ := List.exists_mem_of_ne_nil _ some
  have equal := mem_imports member
  obtain ⟨content, -, ⟨anchor, -, same⟩ | same⟩ := importEdit_cases q.tree
  · exact ⟨_, List.mem_filterMap.mpr ⟨edit, member, by rw [equal, same]; rfl⟩⟩
  · exact ⟨_, List.mem_filterMap.mpr ⟨edit, member, by rw [equal, same]; rfl⟩⟩

theorem mem_arrange {α : Type} {fields imports : List α} {constructor x : α} :
    x ∈ s.arrange q fields constructor imports ↔ x ∈ fields ∨ x = constructor ∨ x ∈ imports := by
  unfold Scope.arrange
  split
  · simp only [List.mem_append, List.mem_singleton]
    grind
  · simp only [List.mem_append, List.mem_singleton, or_assoc]

theorem perm_arrange {α : Type} (fields imports : List α) (constructor : α) :
    (fields ++ constructor :: imports).Perm (s.arrange q fields constructor imports) := by
  unfold Scope.arrange
  split
  · rw [List.append_cons]
    exact List.perm_append_comm
  · rw [List.append_cons]

theorem importCuts_cases (q : Query) (s : Scope) :
    s.importCuts q = [] ∨ ∃ cut, s.importCuts q = [cut] := by
  unfold Scope.importCuts Scope.imports
  split
  · rw [List.filterMap_cons]
    cases textCut q.tree (importEdit q.tree) with
    | none => exact .inl rfl
    | some cut => exact .inr ⟨cut, rfl⟩
  · exact .inl rfl

theorem pairwise_importCuts (q : Query) (s : Scope) {r : Cut → Cut → Prop} :
    (s.importCuts q).Pairwise r := by
  rcases importCuts_cases q s with none | ⟨cut, one⟩
  · rw [none]
    exact .nil
  · rw [one]
    exact List.pairwise_singleton _ _

theorem pairwise_arrange_of_row {r : Cut → Cut → Prop} {fields : List Cut}
    (row : (fields ++ [s.constructorCut q]).Pairwise r)
    (ahead : ∀ c ∈ s.importCuts q, c.start < (q.tree.span s.last).start →
      ∀ d ∈ fields ++ [s.constructorCut q], r c d)
    (behind : ∀ c ∈ s.importCuts q, (q.tree.span s.last).start ≤ c.start →
      ∀ d ∈ fields ++ [s.constructorCut q], r d c) :
    (s.arrange q fields (s.constructorCut q) (s.importCuts q)).Pairwise r := by
  unfold Scope.arrange
  split
  · rename_i before
    refine List.pairwise_append.mpr ⟨pairwise_importCuts q s, row, ?_⟩
    intro c member
    exact ahead c member (of_decide_eq_true (List.all_eq_true.mp before c member))
  · rename_i after
    refine List.pairwise_append.mpr ⟨row, pairwise_importCuts q s, ?_⟩
    intro d other c member
    refine behind c member ?_ d other
    rcases importCuts_cases q s with none | ⟨cut, one⟩
    · rw [none] at member
      cases member
    · rw [one, List.all_cons, List.all_nil, Bool.and_true, decide_eq_true_eq] at after
      rw [one] at member
      rw [List.mem_singleton.mp member]
      omega

section Order

variable (sound : s.Sound q) (attached : q.tree.Attached) (spaced : q.tree.Spaced)
  (regular : q.tree.Regular) {body : Nat} (found : q.tree.childByField s.type "body" = some body)

include sound regular found in
theorem body_encloses {d : Nat} (member : d ∈ s.declarations q) :
    (q.tree.span body).start < (q.tree.span d).start ∧
      (q.tree.span d).stop < (q.tree.span body).stop :=
  regular.encloses s.type sound.inside sound.kind body found d (List.mem_filter.mp member).1

include sound spaced in
theorem stop_le_last {d : Nat} (member : d ∈ s.declarations q) :
    (q.tree.span d).stop ≤ (q.tree.span s.last).start ∨ d = s.last := by
  have ordered : (s.declarations q).Pairwise fun a b =>
      (q.tree.span a).stop ≤ (q.tree.span b).start := (Tree.pairwise_members spaced s.type).filter _
  obtain ⟨front, split⟩ := List.getLast?_eq_some_iff.mp sound.last
  rw [split] at ordered member
  rcases List.mem_append.mp member with early | only
  · exact .inl ((List.pairwise_append.mp ordered).2.2 d early s.last (List.mem_singleton_self _))
  · exact .inr (List.mem_singleton.mp only)

include attached spaced

theorem declaration_proper {d : Nat} (member : d ∈ s.declarations q) :
    (q.tree.span d).start ≤ (q.tree.span d).stop := by
  obtain ⟨p, above, -, -⟩ := parent_declaration attached member
  have child := attached.mem_of_parent (declaration_lt_size member) above
  exact ((spaced p).contains (List.mem_map_of_mem child)).2.1

theorem import_beside (inside : body < q.tree.size) (deep : body ≠ Tree.root) {cut : Cut}
    (member : cut ∈ s.importCuts q) :
    cut.stop = cut.start ∧
      (cut.start ≤ (q.tree.span body).start ∨ (q.tree.span body).stop ≤ cut.start) := by
  obtain ⟨-, -, -, -, place, content, -, -, stands, rfl⟩ := import_adds attached member
  refine ⟨rfl, ?_⟩
  have top := Tree.root_mem_ancestors attached inside deep
  obtain ⟨r, child, path⟩ := Tree.exists_child_above attached inside top
  have outer := spaced.within_ancestor attached inside path
  have around := (spaced Tree.root).contains (List.mem_map_of_mem child)
  show place ≤ _ ∨ _ ≤ place
  rcases stands with ⟨anchor, sibling, rfl⟩ | rfl
  · have proper := (spaced Tree.root).contains (List.mem_map_of_mem sibling)
    rcases eq_or_of_pairwise (Tree.pairwise_children spaced Tree.root) sibling child with
      same | before | behind
    · rw [same]
      exact .inr outer.2
    · exact .inl (Nat.le_trans before outer.1)
    · right
      omega
  · left
    omega

include sound regular in
theorem cut_inside (found : q.tree.childByField s.type "body" = some body) {f : InjectedField}
    (among : f ∈ s.fields q) {cut : Cut} (starts : (q.tree.span f.declaration).start ≤ cut.start)
    (stops : cut.stop < (q.tree.span f.declaration).stop) :
    (q.tree.span body).start < cut.start ∧ cut.stop < (q.tree.span s.last).stop := by
  have declared := (field_of_mem_fields among).1
  have enclosed := body_encloses sound regular found declared
  have proper := declaration_proper attached spaced sound.last_mem
  rcases stop_le_last sound spaced declared with early | same
  · omega
  · rw [same] at starts stops enclosed
    omega

include sound regular in
theorem pairwise_arrange {r : Cut → Cut → Prop} {made : InjectedField → List Cut}
    (own : ∀ f ∈ s.fields q, (made f).Pairwise r)
    (within : ∀ f ∈ s.fields q, ∀ cut ∈ made f, (q.tree.span f.declaration).start ≤ cut.start ∧
      cut.start ≤ cut.stop ∧ cut.stop < (q.tree.span f.declaration).stop)
    (apart : ∀ c d : Cut, c.start ≤ c.stop → d.start ≤ d.stop → c.stop < d.start → r c d) :
    (s.arrange q ((s.fields q).flatMap made) (s.constructorCut q) (s.importCuts q)).Pairwise r := by
  obtain ⟨body, found, -⟩ := member_declaration attached sound.last_mem
  have placed := Tree.lt_of_mem_node_children (Tree.mem_node_of_childByField found)
  have deep : body ≠ Tree.root := Nat.ne_of_gt (Nat.lt_of_le_of_lt (Nat.zero_le _) placed.1)
  have last := body_encloses sound regular found sound.last_mem
  have proper := declaration_proper attached spaced sound.last_mem
  have start : (s.constructorCut q).start = (q.tree.span s.last).stop := rfl
  have stop : (s.constructorCut q).stop = (q.tree.span s.last).stop := rfl
  have inside {cut : Cut} (member : cut ∈ (s.fields q).flatMap made) :
      (q.tree.span body).start < cut.start ∧ cut.start ≤ cut.stop ∧
        cut.stop < (q.tree.span s.last).stop := by
    obtain ⟨f, among, here⟩ := List.mem_flatMap.mp member
    have ⟨starts, ordered, stops⟩ := within f among cut here
    have bounds := cut_inside sound attached spaced regular found among starts stops
    exact ⟨bounds.1, ordered, bounds.2⟩
  have fields : ((s.fields q).flatMap made).Pairwise r := by
    refine List.pairwise_flatMap.mpr ⟨own, ?_⟩
    apply (pairwise_fields spaced regular.trim).imp_of_mem
    intro f g first second before c inF d inG
    have left := within f first c inF
    have right := within g second d inG
    exact apart c d left.2.1 right.2.1 (by omega)
  apply pairwise_arrange_of_row
  · refine List.pairwise_append.mpr ⟨fields, List.pairwise_singleton _ _, ?_⟩
    intro c member d only
    rw [List.mem_singleton.mp only]
    have bounds := inside member
    exact apart c _ bounds.2.1 (by omega) (by omega)
  · intro c member less d other
    have beside := import_beside attached spaced placed.2 deep member
    rcases List.mem_append.mp other with early | only
    · have bounds := inside early
      exact apart c d (by omega) bounds.2.1 (by omega)
    · rw [List.mem_singleton.mp only]
      exact apart c _ (by omega) (by omega) (by omega)
  · intro c member more d other
    have beside := import_beside attached spaced placed.2 deep member
    rcases List.mem_append.mp other with early | only
    · have bounds := inside early
      exact apart d c bounds.2.1 (by omega) (by omega)
    · rw [List.mem_singleton.mp only]
      exact apart _ c (by omega) (by omega) (by omega)

end Order

section Cuts

variable (sound : s.Sound q) (attached : q.tree.Attached) (untouched : q.tree.Untouched)
  (spaced : q.tree.Spaced) (characters : q.tree.OnCharacters) (trim : q.tree.Trim)

theorem constructorCut_not_mem (attached : q.tree.Attached) : s.constructorCut q ∉ s.importCuts q := by
  intro member
  obtain ⟨-, -, -, -, place, content, texts, -, -, same⟩ := import_adds attached member
  have equal : s.text q = content := congrArg Cut.text same
  have other := getLast?_of_mem_importTexts content texts
  rw [← equal, getLast?_text] at other
  exact other rfl

include sound attached untouched spaced characters trim

/-- No two of the cuts that a plan comes to are the same. -/
theorem nodup_seams :
    ((s.fields q).flatMap (·.seams q.tree) ++ s.constructorCut q :: s.importCuts q).Nodup := by
  have each {f : InjectedField} (among : f ∈ s.fields q) :=
    (field_of_mem_fields among).2.2.seams_within spaced trim attached untouched characters
  have proper := declaration_proper attached spaced sound.last_mem
  have fields : ((s.fields q).flatMap (·.seams q.tree)).Nodup := by
    refine List.pairwise_flatMap.mpr ⟨fun f among => ?_, ?_⟩
    · obtain ⟨stop, -, -, ordered⟩ := each among
      exact Cut.nodup_of_before ordered
    · apply (pairwise_fields spaced trim).imp_of_mem
      rintro f g first second before c inF d inG rfl
      obtain ⟨stop, below, within, -⟩ := each first
      obtain ⟨_, -, inside, -⟩ := each second
      have := within c inF
      have := inside c inG
      omega
  have single : (s.importCuts q).Nodup := pairwise_importCuts q s
  refine List.nodup_append.mpr ⟨fields, List.nodup_cons.mpr ⟨constructorCut_not_mem attached, single⟩, ?_⟩
  rintro c member d other rfl
  obtain ⟨f, among, here⟩ := List.mem_flatMap.mp member
  rcases List.mem_cons.mp other with rfl | late
  · -- the cuts of a field end before the last field does
    obtain ⟨stop, below, within, -⟩ := each among
    have bounds := within _ here
    have place : (s.constructorCut q).stop = (q.tree.span s.last).stop := rfl
    rcases stop_le_last sound spaced (field_of_mem_fields among).1 with early | same
    · omega
    · rw [same] at below
      omega
  · -- and what they write is shorter than an import
    obtain ⟨-, -, -, -, place, content, texts, -, -, rfl⟩ := import_adds attached late
    have short := length_of_mem_seams here
    have long := length_of_mem_importTexts content texts
    simp only at short
    omega

/-- What printing the edited tree cuts: what the fields do, the constructor, and the import. -/
theorem exists_cuts (run : q.tree.Run (s.edits q) u) : ∃ cuts, u.cuts? Tree.root = some cuts ∧
    cuts.Perm ((s.fields q).flatMap (·.seams q.tree) ++ s.constructorCut q :: s.importCuts q) := by
  obtain ⟨p, above, inside, -⟩ := parent_declaration attached sound.last_mem
  let table := (s.fields q).map (fun f => (f.site q.tree, f.seams q.tree)) ++
    (p, [s.constructorCut q]) :: (s.importCuts q).map fun cut => (Tree.root, [cut])
  have flat : table.flatMap Prod.snd =
      (s.fields q).flatMap (·.seams q.tree) ++ s.constructorCut q :: s.importCuts q := by
    rw [List.flatMap_append, List.flatMap_cons, List.flatMap_map, List.flatMap_map,
      List.flatMap_singleton', List.singleton_append]
  rw [← flat]
  apply Tree.exists_cuts_of_table run.attached run.marked (run.spaced spaced) (run.unwrapped untouched)
  -- the table tells the cuts of the nodes that are in it
  · intro entry member
    rcases List.mem_append.mp member with early | later
    · obtain ⟨f, among, rfl⟩ := List.mem_map.mp early
      have below := (field_of_mem_fields among).2.2.site_lt_size
      refine ⟨?_, seams_site sound attached untouched spaced characters trim run among⟩
      exact run.shows_of_spared attached untouched below (spared_site attached among)
    · rcases List.mem_cons.mp later with rfl | late
      · refine ⟨?_, seams_parent sound attached untouched spaced trim run above⟩
        exact run.shows_of_spared attached untouched inside (spared_parent sound attached above)
      · obtain ⟨cut, among, rfl⟩ := List.mem_map.mp late
        exact ⟨.here Tree.root, seams_root sound attached untouched spaced trim run among⟩
  -- and every other node makes none
  · intro d shown
    have below := run.lt_of_shows shown attached.nonempty
    by_cases site : ∃ f ∈ s.fields q, f.site q.tree = d
    · obtain ⟨f, among, rfl⟩ := site
      exact .inl ⟨_, List.mem_append_left _ (List.mem_map.mpr ⟨f, among, rfl⟩)⟩
    · by_cases parent : (q.tree.node s.last).parent = some d
      · rw [above] at parent
        obtain rfl := Option.some.inj parent
        exact .inl ⟨_, List.mem_append_right _ List.mem_cons_self⟩
      · by_cases top : d = Tree.root ∧ s.imports q ≠ []
        · obtain ⟨rfl, some⟩ := top
          obtain ⟨cut, written⟩ := exists_importCut some
          exact .inl ⟨_, List.mem_append_right _
            (List.mem_cons_of_mem _ (List.mem_map.mpr ⟨cut, written, rfl⟩))⟩
        · right
          apply seams_elsewhere sound attached untouched spaced run below
          · intro f among same
            exact site ⟨f, among, same⟩
          · exact parent
          · intro same
            exact Classical.not_not.mp fun some => top ⟨same, some⟩
  · rw [flat]
    exact nodup_seams sound attached untouched spaced characters trim

end Cuts

theorem spliced_fields (t : Tree) (text : String) (start stop : Nat) (fields : List InjectedField)
    (before after : List Cut) :
    Text.spliced text start stop (before ++ fields.flatMap (·.seams t) ++ after) =
      Text.spliced text start stop (before ++ fields.flatMap (·.cuts t) ++ after) := by
  induction fields generalizing before with
  | nil => rfl
  | cons f rest ih =>
    have first := spliced_seams (t := t) (f := f) text start stop before
      (rest.flatMap (·.seams t) ++ after)
    have later := ih (before ++ f.cuts t)
    simp only [List.flatMap_cons, List.append_assoc] at first later ⊢
    rw [first, later]

section Print

variable (sound : s.Sound q) (attached : q.tree.Attached) (untouched : q.tree.Untouched)
  (spaced : q.tree.Spaced) (characters : q.tree.OnCharacters) (regular : q.tree.Regular)
  (run : q.tree.Run (s.edits q) u)

include sound attached untouched spaced characters regular

theorem fitting_cuts : Fitting q.tree.source 0 q.tree.source.utf8ByteSize (s.cuts q) := by
  have each {f : InjectedField} (among : f ∈ s.fields q) :=
    (field_of_mem_fields among).2.2.fitting_cuts spaced regular.trim attached untouched characters
  have place {cut : Cut} (member : cut ∈ s.importCuts q) :
      Text.Boundary q.tree.source cut.start ∧ cut.stop = cut.start ∧ cut.text ≠ "" := by
    obtain ⟨-, -, -, -, place, content, texts, -, stands, rfl⟩ := import_adds attached member
    refine ⟨?_, rfl, ne_empty_of_mem_importTexts texts⟩
    rcases stands with ⟨anchor, -, rfl⟩ | rfl
    · exact (characters anchor).2
    · exact (characters Tree.root).1
  have ends : ∀ cut ∈ s.cuts q, Text.Boundary q.tree.source cut.start ∧
      Text.Boundary q.tree.source cut.stop ∧ cut.start ≤ cut.stop ∧
        (cut.text = "" → cut.start < cut.stop) := by
    intro cut member
    rcases mem_arrange.mp member with early | rfl | late
    · obtain ⟨f, among, here⟩ := List.mem_flatMap.mp early
      obtain ⟨stop, -, fitting⟩ := each among
      have ends := fitting.ends cut here
      exact ⟨ends.1, ends.2, (fitting.within cut here).2.1, fitting.real cut here⟩
    · have boundary := (characters s.last).2
      exact ⟨boundary, boundary, Nat.le_refl _, fun empty => absurd empty (text_ne_empty s)⟩
    · obtain ⟨boundary, same, filled⟩ := place late
      rw [same]
      exact ⟨boundary, boundary, Nat.le_refl _, fun empty => absurd empty filled⟩
  refine ⟨?_, ?_, ?_, ?_⟩
  · intro cut member
    obtain ⟨first, second, -⟩ := ends cut member
    exact ⟨first, second⟩
  · intro cut member
    obtain ⟨-, second, proper, -⟩ := ends cut member
    exact ⟨Nat.zero_le _, proper, second.le⟩
  · intro cut member
    exact (ends cut member).2.2.2
  · apply pairwise_arrange sound attached spaced regular
    · intro f among
      obtain ⟨stop, -, fitting⟩ := each among
      exact fitting.apart
    · intro f among cut here
      obtain ⟨stop, below, fitting⟩ := each among
      have := fitting.within cut here
      omega
    · intro c d _ _ before
      exact before

include run

theorem cuts?_eq : u.cuts? Tree.root = some (s.arrange q ((s.fields q).flatMap (·.seams q.tree))
    (s.constructorCut q) (s.importCuts q)) := by
  obtain ⟨cuts, found, same⟩ :=
    exists_cuts sound attached untouched spaced characters regular.trim run
  have each {f : InjectedField} (among : f ∈ s.fields q) :=
    (field_of_mem_fields among).2.2.seams_within spaced regular.trim attached untouched characters
  rw [found, Tree.cuts_eq_of_perm (run.spaced spaced) (run.follows.characters characters) found
    (same.trans (perm_arrange _ _ _))]
  apply pairwise_arrange sound attached spaced regular
  · intro f among
    obtain ⟨stop, -, -, ordered⟩ := each among
    exact ordered
  · intro f among cut here
    obtain ⟨stop, below, within, -⟩ := each among
    have := within cut here
    omega
  · intro c d left right before
    exact ⟨by omega, by omega⟩

theorem print_eq : u.print = some (Glyph.text
    (Text.spliced q.tree.source 0 q.tree.source.utf8ByteSize (s.cuts q))) := by
  have made := cuts?_eq sound attached untouched spaced characters regular run
  rw [run.print_eq attached untouched spaced characters, made, run.follows.source]
  have same := spliced_fields q.tree q.tree.source 0 q.tree.source.utf8ByteSize (s.fields q)
  simp only [Option.map_some, Option.some.injEq]
  apply congrArg Glyph.text
  unfold Scope.cuts Scope.arrange
  split
  · rw [← List.append_assoc, ← List.append_assoc]
    exact same _ _
  · rw [List.append_assoc, List.append_assoc]
    exact same [] _

end Print

theorem clear_constructorCut {word : Char → Bool} (newline : word '\n' = false)
    (brace : word '\x7d' = false) (text : String) : (s.constructorCut q).Clear word text := by
  have first : (s.text q).toList.head? = some '\n' := by
    simp [Scope.text, constructorText, String.toList_append]
  unfold Cut.Clear Scope.constructorCut
  simp only [first, getLast?_text, newline, brace, Bool.false_eq_true, and_false, false_and, not_false_eq_true,
    and_self]

/-- A plan is accepted, and its text brings characters of a class together exactly when the source has
them on both sides of a cut that a field makes, or on both sides of the import. -/
theorem glues_nothing_iff {text : String} {parse : Parse} (nested : parse.tree.Nested)
    (leaves : parse.tree.LeafComments) (characters : parse.tree.OnCharacters text)
    (read : q.tree = (Source.ofParse text parse).tree) (regular : q.tree.Regular) {marked : Nat}
    {edits : List Edit} (planned : plan? q marked = some edits) (word : Char → Bool)
    (newline : word '\n' = false) (brace : word '\x7d' = false) :
    ∃ s u glyphs, scope? q marked = some s ∧ q.tree.apply edits = (u, .ok ()) ∧
      glyphs = Text.spliced text 0 text.utf8ByteSize (s.cuts q) ∧ u.print = some (Glyph.text glyphs) ∧
        (Glyph.Unglued word glyphs ↔
          (∀ f ∈ s.fields q, ∀ cut ∈ f.cuts q.tree, cut.Clear word text) ∧
            ∀ cut ∈ s.importCuts q, cut.Clear word text) := by
  have attached := Source.attached_ofParse text parse
  have untouched := Source.untouched_ofParse text parse
  have spaced := Source.spaced_ofParse text parse nested leaves
  have ends := Source.onCharacters_ofParse text parse nested leaves characters
  have source := Source.source_ofParse text parse
  rw [← read] at attached untouched spaced ends source
  obtain ⟨s, scope, rfl⟩ := plan?_eq_some planned
  have sound := scope?_eq_some scope
  have targets (edit : Edit) (member : edit ∈ s.edits q) := (edits_about sound attached member).1
  have plain (edit : Edit) (member : edit ∈ s.edits q) := (edits_about sound attached member).2
  obtain ⟨u, accepted, run⟩ := Tree.exists_apply attached untouched targets plain
    (pairwise_edits sound attached spaced regular.trim)
  have printed := print_eq sound attached untouched spaced ends regular run
  have fitting := fitting_cuts sound attached untouched spaced ends regular
  rw [source] at printed fitting
  refine ⟨s, u, _, scope, accepted, rfl, printed, ?_⟩
  have first : Text.Boundary text 0 := ⟨[], _, rfl, rfl⟩
  rw [Text.unglued_spliced_iff word first fitting.ends fitting.real (fun _ _ => Nat.zero_le _) (.inl rfl)
    fitting.apart]
  constructor
  · intro clear
    refine ⟨?_, ?_⟩
    · intro f among cut here
      exact clear cut (mem_arrange.mpr (.inl (List.mem_flatMap.mpr ⟨f, among, here⟩)))
    · intro cut late
      exact clear cut (mem_arrange.mpr (.inr (.inr late)))
  · rintro ⟨fields, imports⟩ cut member
    rcases mem_arrange.mp member with early | rfl | late
    · obtain ⟨f, among, here⟩ := List.mem_flatMap.mp early
      exact fields f among cut here
    · exact clear_constructorCut newline brace text
    · exact imports cut late

def isNameChar (c : Char) : Bool :=
  c.isAlphanum || c == '_' || c == '$'

def tightText : String :=
  "import org.springframework.beans.factory.annotation.Autowired;\n" ++
    "class A \x7b private@Autowired B b; \x7d\n"

/-- A qualified name that starts at an offset and has a part behind each of the others. -/
def qualified (start : Nat) (field : Option String) (stop : Nat) : List Nat → ParseTree
  | [] => .leaf field "identifier" start stop
  | dot :: rest => .node "scoped_identifier" true ⟨start, stop⟩ field
    [qualified start (some "scope") dot rest, .token "." dot,
      .leaf (some "name") "identifier" (dot + 1) stop]

def tightParse : Parse where
  tree := .node "program" true ⟨0, 98⟩ none [
    .node "import_declaration" true ⟨0, 62⟩ none
      [.token "import" 0, qualified 7 none 61 [51, 40, 32, 26, 10], .token ";" 61],
    .node "class_declaration" true ⟨63, 97⟩ none [
      .token "class" 63,
      .leaf (some "name") "identifier" 69 70,
      .node "class_body" true ⟨71, 97⟩ (some "body") [
        .token "\x7b" 71,
        .node "field_declaration" true ⟨73, 95⟩ none [
          .node "modifiers" true ⟨73, 90⟩ none [
            .token "private" 73,
            .node "marker_annotation" true ⟨80, 90⟩ none
              [.token "@" 80, .leaf (some "name") "identifier" 81 90]],
          .leaf (some "type") "type_identifier" 91 92,
          .node "variable_declarator" true ⟨93, 94⟩ (some "declarator")
            [.leaf (some "name") "identifier" 93 94],
          .token ";" 94],
        .token "\x7d" 96]]]
  hasErrors := false

def tightQuery : Query :=
  let unit := SourceUnit.ofSource "A.java" (Source.ofParse tightText tightParse)
  { unit := unit.link (unit.declare {}) {}, project := { layout := { root := "/" } }, files := {} }

def tightPlan : List Edit :=
  [.remove 28, .append 26 (.keyword "final"), .insertAfter 25
    (.text "\n\n    public A(B b) \x7b\n        this.b = b;\n    \x7d")]

/-- The keyword comes up against the modifier ahead of the annotation. -/
theorem glues_nothing_iff_tight :
    (tightParse.tree.Nested ∧ tightParse.tree.LeafComments ∧ tightParse.tree.OnCharacters tightText ∧
      tightQuery.tree.Regular ∧ plan? tightQuery 20 = some tightPlan) ∧
      (tightQuery.tree.apply tightPlan).1.print = some
        ("import org.springframework.beans.factory.annotation.Autowired;\n" ++
          "class A \x7b privatefinal B b;\n\n    public A(B b) \x7b\n        this.b = b;\n    \x7d \x7d\n") ∧
      ∃ s u glyphs, scope? tightQuery 20 = some s ∧ tightQuery.tree.apply tightPlan = (u, .ok ()) ∧
        glyphs = Text.spliced tightText 0 tightText.utf8ByteSize (s.cuts tightQuery) ∧
          u.print = some (Glyph.text glyphs) ∧
            (Glyph.Unglued isNameChar glyphs ↔
              (∀ f ∈ s.fields tightQuery, ∀ cut ∈ f.cuts tightQuery.tree,
                cut.Clear isNameChar tightText) ∧
                ∀ cut ∈ s.importCuts tightQuery, cut.Clear isNameChar tightText) := by
  have nested : tightParse.tree.Nested := by decide
  have leaves : tightParse.tree.LeafComments := by decide
  have characters : tightParse.tree.OnCharacters tightText := by decide +kernel
  have regular : tightQuery.tree.Regular :=
    ⟨by decide +kernel, by decide +kernel, by decide +kernel⟩
  have planned : plan? tightQuery 20 = some tightPlan := by decide +kernel
  refine ⟨⟨nested, leaves, characters, regular, planned⟩, by decide +kernel, ?_⟩
  exact glues_nothing_iff nested leaves characters rfl regular planned isNameChar (by decide)
    (by decide)

end SpringLint.ConstructorInjection
