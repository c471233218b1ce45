import SpringLint.Proofs.CommandLine.DryRun

/-! Which changes a dry run shows. Each fixed text is shown once, for the first marker that offers it,
whatever the file it belongs to. -/

namespace SpringLint.Command

/-- What the preview for a trial comes to. -/
def Trial.preview (setting : Setting) (session : Session) (files : FileSystem) (trial : Trial) :
    Except Halt (Option Repair) :=
  session.previewFix setting.grammar files trial.2 trial.1

/-- The preview for a marker of the store, one of those asked for, comes to a change. -/
def Offers (setting : Setting) (only : Option Problem) (session : Session) (files : FileSystem)
    (m : Marker) (r : Repair) : Prop :=
  m ∈ session.store.all ∧ ∃ fixer, fixOf? session.fixers only m = some fixer ∧
    Trial.preview setting session files (m, fixer) = .ok (some r)

variable {setting : Setting} {only : Option Problem} {session : Session} {files : FileSystem}

theorem change_of_preview {trial : Trial} {r : Repair}
    (made : trial.preview setting session files = .ok (some r)) :
    r.resource = trial.1.resource ∧ r.path = session.project.layout.pathOf trial.1.resource ∧
      files.read r.path = .ok r.before ∧ r.fixed ≠ r.before := by
  unfold Trial.preview Session.previewFix Fixer.preview at made
  exact Fixer.previewUnder_eq_some made

theorem eq_of_offers {m n : Marker} {r s : Repair} (first : Offers setting only session files m r)
    (second : Offers setting only session files n s) (resource : r.resource = s.resource)
    (fixed : r.fixed = s.fixed) : r = s := by
  have ⟨_, _, _, made⟩ := first
  have ⟨_, _, _, also⟩ := second
  have ⟨left, place, read, _⟩ := change_of_preview made
  have ⟨right, other, again, _⟩ := change_of_preview also
  have path : r.path = s.path := by
    rw [place, other, ← left, ← right, resource]
  rw [path, again] at read
  have before : r.before = s.before := (Except.ok.inj read).symm
  rw [Repair.mk.injEq]
  exact ⟨resource, path, before, fixed⟩

/-- What a dry run has shown after trials: each text once, and every text that one of the trials comes
to. -/
structure Shows (setting : Setting) (session : Session) (files : FileSystem) (done : List Trial)
    (run : FixRun) (shown : List Repair) : Prop where
  onSession : run.session = session
  onFiles : run.files = files
  out : run.console.out = String.join (shown.map Repair.diff)
  count : run.count = shown.length
  texts : ∀ text, text ∈ run.shown ↔ text ∈ shown.map Repair.fixed
  distinct : (shown.map Repair.fixed).Nodup
  offered : ∀ r ∈ shown, ∃ trial ∈ done, trial.preview setting session files = .ok (some r)
  told : ∀ trial ∈ done, ∀ r, trial.preview setting session files = .ok (some r) →
    r.fixed ∈ shown.map Repair.fixed

namespace Shows

variable {done : List Trial} {run : FixRun} {shown : List Repair} {trial : Trial}
  {outcome : FixRun × Bool}

theorem start (setting : Setting) (session : Session) (files : FileSystem) :
    Shows setting session files [] { session := session, files := files } [] where
  onSession := rfl
  onFiles := rfl
  out := rfl
  count := rfl
  texts _ := iff_of_false List.not_mem_nil List.not_mem_nil
  distinct := List.nodup_nil
  offered _ member := nomatch member
  told _ member := nomatch member

variable (shows : Shows setting session files done run shown)

include shows

theorem keep (old : ∀ r, trial.preview setting session files = .ok (some r) →
      r.fixed ∈ shown.map Repair.fixed) :
    Shows setting session files (done ++ [trial]) (run.trying trial.1) shown where
  onSession := shows.onSession
  onFiles := shows.onFiles
  out := shows.out
  count := shows.count
  texts := shows.texts
  distinct := shows.distinct
  offered := by
    intro r member
    have ⟨earlier, among, made⟩ := shows.offered r member
    exact ⟨earlier, List.mem_append_left _ among, made⟩
  told := by
    intro other member r made
    rcases List.mem_append.mp member with earlier | last
    · exact shows.told other earlier r made
    · rw [List.mem_singleton.mp last] at made
      exact old r made

theorem warn (m : Marker) (error : Error) :
    Shows setting session files done (run.warnAbout m error) shown :=
  ⟨shows.onSession, shows.onFiles, shows.out, shows.count, shows.texts, shows.distinct, shows.offered,
    shows.told⟩

theorem add {r : Repair} (made : trial.preview setting session files = .ok (some r))
    (new : r.fixed ∉ shown.map Repair.fixed) :
    Shows setting session files (done ++ [trial]) ((run.trying trial.1).showing r)
      (shown ++ [r]) where
  onSession := shows.onSession
  onFiles := shows.onFiles
  out := by
    rw [List.map_append, String.join_append, ← shows.out, List.map_singleton]
    show run.console.out ++ r.diff = _
    rw [String.join_cons, String.join_nil, String.append_empty]
  count := by
    rw [List.length_append, ← shows.count]
    rfl
  texts := by
    intro text
    show text ∈ r.fixed :: run.shown ↔ _
    rw [List.mem_cons, shows.texts, List.map_append, List.mem_append, List.map_singleton,
      List.mem_singleton, or_comm]
  distinct := by
    rw [List.map_append, List.map_singleton]
    exact List.nodup_append.mpr ⟨shows.distinct, List.nodup_singleton _, fun a old b last same =>
      new (List.mem_singleton.mp last ▸ same ▸ old)⟩
  offered := by
    intro s member
    rcases List.mem_append.mp member with earlier | last
    · have ⟨before, among, offered⟩ := shows.offered s earlier
      exact ⟨before, List.mem_append_left _ among, offered⟩
    · rw [List.mem_singleton.mp last]
      exact ⟨trial, List.mem_append_right _ List.mem_cons_self, made⟩
  told := by
    intro other member s offered
    rw [List.map_append]
    rcases List.mem_append.mp member with earlier | last
    · exact List.mem_append_left _ (shows.told other earlier s offered)
    · rw [List.mem_singleton.mp last, made] at offered
      cases offered
      exact List.mem_append_right _ List.mem_cons_self

/-- What a trial does to the changes that are shown. -/
theorem step (tried : FixRun.DryStep setting run trial.1 trial.2 outcome) :
    ∃ shown, Shows setting session files (done ++ [trial]) outcome.1 shown := by
  have preview : run.session.previewFix setting.grammar run.files trial.2 trial.1 =
      trial.preview setting session files := by
    rw [shows.onSession, shows.onFiles]
    rfl
  cases tried with
  | crashed crash =>
    rw [preview] at crash
    exact ⟨shown, shows.keep fun r made => by rw [crash] at made; cases made⟩
  | failed error fails =>
    rw [preview] at fails
    exact ⟨shown, (shows.keep fun r made => by rw [fails] at made; cases made).warn trial.1 error⟩
  | declined declines =>
    rw [preview] at declines
    exact ⟨shown, shows.keep fun r made => by rw [declines] at made; cases made⟩
  | repeated r made old =>
    rw [preview] at made
    have known : ∀ s, trial.preview setting session files = .ok (some s) →
        s.fixed ∈ shown.map Repair.fixed := by
      intro s again
      rw [made] at again
      cases again
      exact (shows.texts _).mp old
    exact ⟨shown, shows.keep known⟩
  | shown r made new =>
    rw [preview] at made
    exact ⟨shown ++ [r], shows.add made fun old => new ((shows.texts _).mpr old)⟩

end Shows

theorem offers_of_mem_firsts {trial : Trial} (member : trial ∈ firsts [] (trials session only))
    {r : Repair} (made : trial.preview setting session files = .ok (some r)) :
    Offers setting only session files trial.1 r :=
  have ⟨listed, fixable⟩ := (covers_firsts session only).fixable trial member
  ⟨listed, trial.2, fixable, made⟩

/-- The changes that a dry run shows are changes that markers offer, with each text once. A run that
ends shows every text that the first marker of a key offers. It shows all changes that are offered
exactly if the first markers of the keys offer them all, and no two changes of different files lead to
one text. -/
theorem shows_every_change_iff (setting : Setting) (only : Option Problem) (session : Session)
    (files : FileSystem) :
    let start : FixRun := { session := session, files := files }
    let last := FixRun.loop setting true only (start.bound true) start
    let chosen := firsts [] (trials session only)
    ∃ shown : List Repair,
      (last.1.console.out = String.join (shown.map Repair.diff) ∧ last.1.count = shown.length ∧
        (shown.map Repair.fixed).Nodup ∧
          ∀ r ∈ shown, ∃ m, Offers setting only session files m r) ∧
      (last.2 = true →
        (∀ trial ∈ chosen, ∀ r, trial.preview setting session files = .ok (some r) →
          r.fixed ∈ shown.map Repair.fixed) ∧
        ((∀ m r, Offers setting only session files m r → r ∈ shown) ↔
          (∀ m r, Offers setting only session files m r →
            ∃ trial ∈ chosen, trial.preview setting session files = .ok (some r)) ∧
          ∀ m n r s, Offers setting only session files m r → Offers setting only session files n s →
            r.fixed = s.fixed → r.resource = s.resource)) := by
  intro start last chosen
  have same : last = FixRun.tryAll setting start chosen :=
    FixRun.loop_eq_tryAll (FixRun.length_firsts_le_bound session files only)
  have ⟨tried, front, whole, shown, shows⟩ := FixRun.tryAll_preserves
    (fun done run => ∃ shown, Shows setting session files done run shown)
    (fun before step => before.elim fun _ shows => shows.step step)
    ⟨[], .start setting session files⟩ chosen
  rw [← same] at whole shows
  have offered : ∀ r ∈ shown, ∃ m, Offers setting only session files m r := by
    intro r member
    have ⟨trial, among, made⟩ := shows.offered r member
    exact ⟨trial.1, offers_of_mem_firsts (front.subset among) made⟩
  refine ⟨shown, ⟨shows.out, shows.count, shows.distinct, offered⟩, fun finished => ?_⟩
  rw [whole finished] at shows
  refine ⟨shows.told, fun all => ⟨?_, ?_⟩, fun apart m r offer => ?_⟩
  · intro m r offer
    exact shows.offered r (all m r offer)
  · intro m n r s first second fixed
    exact congrArg Repair.resource
      (List.inj_on_of_nodup_map shows.distinct (all m r first) (all n s second) fixed)
  · have ⟨trial, among, made⟩ := apart.1 m r offer
    have ⟨s, member, fixed⟩ := List.mem_map.mp (shows.told trial among r made)
    have ⟨n, other⟩ := offered s member
    have resource := apart.2 n m s r other offer fixed
    exact eq_of_offers other offer resource fixed ▸ member

end SpringLint.Command
