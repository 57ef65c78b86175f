import Chronicle.Generate
import Chronicle.Proofs.Compile.Log
import Chronicle.Proofs.Replay.Trace
import Chronicle.Proofs.Workspace.OneRoot
import Chronicle.Proofs.Workspace.Refreshing
import Chronicle.Proofs.Workspace.Snapshot

/-!
# The commits that commands make

A commit makes one commit, after the one that the head is at, and so does a merge, unless the head descends from
what is merged already (`Workspace.isIdle`); other commands make none (`Workspace.made_of_ok`). **So a run makes
as many commits as there are commits and merges among its commands, less the idle merges**, which are counted and
numbered with the others all the same (`Workspace.replay_creates`).
-/

namespace Chronicle

open Outcome Steps

/-- Commands that are played without a failure are played in two parts. -/
theorem replay_append_of_ok {σ ε : Type} {b : Backend σ ε} {before after : List Command} {s s' : σ}
    (h : (replay b (before ++ after)).runOn s = (.ok (), s')) :
    ∃ mid, (replay b before).runOn s = (.ok (), mid) ∧ (replay b after).runOn mid = (.ok (), s') := by
  have hseq : runOn s (replay b before >>= fun _ => replay b after) = (.ok (), s') := by
    rw [← h, runOn_bind, Backend.runOn_replay_append]
    rcases runOn s (replay b before) with ⟨e | _, mid⟩ <;> rfl
  obtain ⟨_, mid, hbefore, hafter⟩ := bind_of_ok hseq
  exact ⟨mid, hbefore, hafter⟩

/-- Among the commands of a log those make commits that its numbered events ask for. -/
theorem EventLog.IsCompiled.numbered_take {log : EventLog} {cs : List Command} (h : log.IsCompiled cs) (n : Nat) :
    ((cs.take n).filter Command.createsCommit).length = numbered (log.events.take n) := by
  have hsame : cs.map Command.createsCommit = log.events.map Event.isNumbered := by
    apply List.ext_getElem?
    intro i
    rw [List.getElem?_map, List.getElem?_map]
    cases he : log.events[i]? with
    | some e =>
      obtain ⟨c, hc, -, hcreates, -⟩ := h.command i e he
      rw [hc, Option.map_some, Option.map_some, hcreates]
    | none =>
      rw [List.getElem?_eq_none_iff, ← h.length, ← List.getElem?_eq_none_iff] at he
      rw [he]
      rfl
  have hmap {α : Type} (p : α → Bool) (l : List α) : l.countP p = (l.map p).countP id := by
    rw [List.countP_map]
    rfl
  rw [← List.countP_eq_length_filter, numbered, hmap Command.createsCommit, hmap Event.isNumbered,
    List.map_take, List.map_take, hsame]

namespace Workspace

variable {dir : String} {tree : FileTree} {w w' : Workspace} {c : Command} {cs : List Command}

/-- The commits that there are. -/
def history (w : Workspace) : History := (w.repository.map (·.history)).getD []

/-- Whether a command merges what the head descends from. -/
def isIdle (w : Workspace) : Command → Bool
  | .merge theirs _ =>
    match w.repository with
    | none => false
    | some r =>
      match r.headCommit, r.resolve theirs with
      | .ok (some ours), .ok id => r.history.isIn id ours
      | _, _ => false
  | _ => false

/-- What a command makes a commit with. -/
def creation? (w : Workspace) : Command → Option CommitInfo
  | .commit info => some info
  | .merge theirs info => if w.isIdle (.merge theirs info) then none else some info
  | _ => none

/-- How many of some commands are idle. -/
def idle (dir : String) : List Command → Workspace → Nat
  | [], _ => 0
  | c :: rest, w => (if w.isIdle c then 1 else 0) + idle dir rest ((c.replay (backend dir)).runOn w).2

/-- What some commands make commits with, one after the other. -/
def creations (dir : String) : List Command → Workspace → List CommitInfo
  | [], _ => []
  | c :: rest, w => (w.creation? c).toList ++ creations dir rest ((c.replay (backend dir)).runOn w).2

theorem length_creations (dir : String) (cs : List Command) (w : Workspace) :
    (creations dir cs w).length + idle dir cs w = (cs.filter Command.createsCommit).length := by
  have hone (w : Workspace) (c : Command) :
      (w.creation? c).toList.length + (if w.isIdle c then 1 else 0) = if c.createsCommit then 1 else 0 := by
    cases c with
    | merge theirs info => cases h : w.isIdle (.merge theirs info) <;> simp [creation?, h, Command.createsCommit]
    | _ => rfl
  rw [← List.countP_eq_length_filter]
  induction cs generalizing w with
  | nil => rfl
  | cons c rest ih =>
    rw [creations, idle, List.length_append, List.countP_cons, ← hone w c,
      ← ih ((c.replay (backend dir)).runOn w).2]
    omega

/-- A merge is idle if and only if the head descends from what it merges. -/
theorem isIdle_iff (hw : Reachable dir tree w) : w.isIdle c = true ↔ ∃ theirs info r ours id,
    c = .merge theirs info ∧ w.repository = some r ∧ r.headCommit = .ok (some ours) ∧ r.resolve theirs = .ok id ∧
      r.history.Descends ours id := by
  constructor
  · intro h
    cases c with
    | merge theirs info =>
      simp only [isIdle] at h
      split at h
      · cases h
      · rename_i r hr
        split at h
        · rename_i ours id hours hid
          exact ⟨theirs, info, r, ours, id, rfl, hr, hours, hid, History.descends_of_isIn h⟩
        · cases h
    | _ => cases h
  · rintro ⟨theirs, info, r, ours, id, rfl, hr, hours, hid, hd⟩
    have hsound := hw.sound hr
    simp only [isIdle, hr, hours, hid]
    exact (History.isIn_iff hsound.history (Repository.resolve_lt hsound theirs id hid)).mpr hd

/-! ## One command -/

/-- A merge that is made where the head is would come back to it. -/
def Returns (w : Workspace) : Prop := ∀ r, w.repository = some r → r.Returns

/-- One commit is made. It is what was asked for, and its first parent is the head's commit. Then the head is at
it, unless a merge does not return. -/
def Creates (w : Workspace) (c : Command) (info : CommitInfo) (w' : Workspace) : Prop :=
  ∃ parent new, w.headCommit = .ok parent ∧ w'.history = w.history.add new ∧ new.Bears info ∧
    new.parents.head? = parent ∧ (c = .commit info ∨ w.Returns → w'.headCommit = .ok (some w.history.length))

/-- A command makes one commit, or none. -/
def Made (w : Workspace) (c : Command) (w' : Workspace) : Prop :=
  match w.creation? c with
  | some info => Creates w c info w'
  | none => w'.history = w.history

theorem history_of_some {r : Repository} (hr : w.repository = some r) : w.history = r.history := by
  rw [history, hr]
  rfl

theorem headCommit_of_some {r : Repository} (hr : w.repository = some r) : w.headCommit = r.headCommit := by
  rw [headCommit, hr]

theorem history_answer {call : Call} (hc : call.movesHead = false) :
    (answer dir call w).2.history = w.history := by
  cases hr : w.repository with
  | some r =>
    obtain ⟨r', hr', ⟨hhist, -⟩ | ⟨new, -, hmoves, -⟩⟩ := (answer_answers dir hr call).commits hr
    · rw [history_of_some hr', history_of_some hr, hhist]
    · rw [hc] at hmoves
      cases hmoves
  | none =>
    rcases answer_of_none dir hr call with hnone | ⟨branch, hempty⟩
    · rw [history, history, hnone, hr]
    · rw [history, history, hempty, hr]
      rfl

/-- Only commits and merges make commits, whatever comes of them. -/
theorem history_replay (dir : String) (w : Workspace) (hc : c.createsCommit = false) :
    ((c.replay (backend dir)).runOn w).2.history = w.history := by
  have hone {call : Call} (hmoves : call.movesHead = false) :
      (runOn w (discard ((backend dir).call call))).2.history = w.history := by
    rw [runOn_discard]
    exact history_answer hmoves
  cases c with
  | commit info => cases hc
  | merge theirs info => cases hc
  | tag name note => cases note <;> exact hone rfl
  | init branch => exact hone rfl
  | branch name => exact hone rfl
  | checkout reference => exact hone rfl
  | createFile file content => exact hone rfl
  | changeContent file content => exact hone rfl
  | add paths => exact hone rfl
  | appendContent file content newLine => exact hone rfl

theorem creates_commit {info : CommitInfo}
    (hok : ((Command.commit info).replay (backend dir)).runOn w = (.ok (), w')) :
    Creates w (.commit info) info w' := by
  obtain ⟨_, a, staged, hstage, hcommit⟩ := runOn_discard_seq hok
  obtain ⟨r, index, hr, -, rfl⟩ := stage_of_ok hstage
  have hcommit' : answer dir (.commit info) (w.keep { r with index, saved := index }) = (.ok a, w') := hcommit
  obtain ⟨parent, new, r', hparent, hparents, -, hbears, hrec, rfl⟩ := commit_of_ok rfl hcommit'
  refine ⟨parent, new, (headCommit_of_some hr).trans hparent, ?_, hbears, ?_, fun _ => ?_⟩
  · rw [history_of_some hr]
    exact hrec.history
  · rw [hparents, Option.head?_toList]
  · rw [history_of_some hr]
    exact hrec.headCommit

theorem made_merge {theirs : String} {info : CommitInfo}
    (hok : ((Command.merge theirs info).replay (backend dir)).runOn w = (.ok (), w')) :
    Made w (.merge theirs info) w' := by
  obtain ⟨r, current, _, _, mid, hr, hcurrent, hmerge, hcheckout⟩ := refreshed_of_ok hok
  obtain ⟨ours, other, id, r₁, hours, hother, rfl, hid, hhead, hrefs, -, hmade⟩ := merge_of_ok hr hmerge
  obtain ⟨id', c, hresolve, -, rfl⟩ := checkout_of_ok rfl hcheckout
  have hidle : w.isIdle (.merge theirs info) = r.history.isIn other ours := by
    simp only [isIdle, hr, hours, hother]
  rcases hmade with ⟨hin, -, hhist⟩ | ⟨hin, hnew, new, hparents, hbears, hhist⟩
  · have hnone : w.creation? (.merge theirs info) = none := by rw [creation?, hidle, if_pos hin]
    rw [Made, hnone, history_of_some hr]
    exact hhist
  · have hsome : w.creation? (.merge theirs info) = some info := by
      rw [creation?, hidle, hin, if_neg Bool.false_ne_true]
    rw [Made, hsome]
    refine ⟨some ours, new, (headCommit_of_some hr).trans hours, ?_, hbears, by rw [hparents]; rfl, ?_⟩
    · rw [history_of_some hr]
      exact hhist
    · rintro (hcommit | hreturns)
      · cases hcommit
      · obtain ⟨rfl, hstays⟩ := headCommit_back (hreturns r hr) hours hcurrent hid hhead hrefs hresolve
          c.index c.index
        rw [history_of_some hr, ← hnew]
        exact hstays

/-- **What a command makes.** -/
theorem made_of_ok (hok : (c.replay (backend dir)).runOn w = (.ok (), w')) :
    Made w c w' := by
  have hother (hc : c.createsCommit = false) : w'.history = w.history := by
    rw [← history_replay dir w hc, hok]
  cases c with
  | commit info => exact creates_commit hok
  | merge theirs info => exact made_merge hok
  | _ => exact hother rfl

/-! ## A run -/

/-- Commands make their commits one after the other. -/
theorem replay_history (hok : (replay (backend dir) cs).runOn w = (.ok (), w')) :
    ∃ made, w'.history = made.reverse ++ w.history ∧
      List.Forall₂ (fun info (new : Commit) => new.Bears info) (creations dir cs w) made := by
  induction cs generalizing w with
  | nil =>
    cases hok
    exact ⟨[], rfl, .nil⟩
  | cons c rest ih =>
    obtain ⟨_, mid, hc, hrest⟩ := bind_of_ok hok
    obtain ⟨made, hhist, hbears⟩ := ih hrest
    have hmade := made_of_ok hc
    rw [creations, hc]
    unfold Made at hmade
    split at hmade
    · rename_i info hsome
      obtain ⟨-, new, -, hadd, hnew, -⟩ := hmade
      refine ⟨new :: made, ?_, ?_⟩
      · rw [hhist, hadd, List.reverse_cons, List.append_assoc]
        rfl
      · rw [hsome]
        exact .cons hnew hbears
    · rename_i hnone
      rw [hnone]
      exact ⟨made, by rw [hhist, hmade], hbears⟩

theorem length_history (hok : (replay (backend dir) cs).runOn w = (.ok (), w')) :
    w'.history.length = (creations dir cs w).length + w.history.length := by
  obtain ⟨made, hhist, hbears⟩ := replay_history hok
  rw [hhist, List.length_append, List.length_reverse, hbears.length_eq]

/-- What a command found, and what it made. -/
theorem replay_made {before after : List Command}
    (hok : (replay (backend dir) (before ++ c :: after)).runOn w = (.ok (), w')) :
    ∃ mid next, (replay (backend dir) before).runOn w = (.ok (), mid) ∧
      (c.replay (backend dir)).runOn mid = (.ok (), next) ∧ Made mid c next ∧
      mid.history.length = (creations dir before w).length + w.history.length ∧ next.history <:+ w'.history := by
  obtain ⟨mid, hbefore, hrest⟩ := replay_append_of_ok hok
  obtain ⟨_, next, hc, hafter⟩ := bind_of_ok hrest
  obtain ⟨made, hgrown, -⟩ := replay_history hafter
  exact ⟨mid, next, hbefore, hc, made_of_ok hc, length_history hbefore, made.reverse, hgrown.symm⟩

/-- A commit that the log gives no message is called by its number among all that the log asks for. -/
theorem replay_untitled {log : EventLog} (hlog : log.compile = .ok cs)
    (hok : (replay (backend dir) cs).runOn { tree } = (.ok (), w')) {i : Nat} {e : Event}
    (he : log.events[i]? = some e) (huntitled : e.isUntitled = true) :
    ∃ info new, cs[i]? = some (.commit info) ∧
      w'.history.get? (creations dir (cs.take i) { tree }).length = some new ∧ new.Bears info ∧
      info.message = "commit " ++
        toString ((creations dir (cs.take i) { tree }).length + idle dir (cs.take i) { tree } + 1) := by
  have hcompiled := EventLog.IsCompiled.of_compile hlog
  obtain ⟨c, hc, -, -, hmessage⟩ := hcompiled.command i e he
  obtain ⟨info, rfl, hcalled⟩ := hmessage huntitled
  have hsplit : cs.take i ++ .commit info :: cs.drop (i + 1) = cs := by
    obtain ⟨hlt, hget⟩ := List.getElem?_eq_some_iff.mp hc
    rw [← hget, ← List.drop_eq_getElem_cons hlt, List.take_append_drop]
  rw [← hsplit] at hok
  obtain ⟨mid, next, -, -, hmade, hlength, hgrown⟩ := replay_made hok
  obtain ⟨-, new, -, hadd, hbears, -⟩ : Creates mid (.commit info) info next := hmade
  refine ⟨info, new, hc, ?_, hbears, ?_⟩
  · refine History.get?_of_suffix hgrown ?_
    have hid : mid.history.length = (creations dir (cs.take i) { tree }).length := hlength
    rw [hadd, History.get?_add, if_pos hid.symm]
  · rw [length_creations, hcompiled.numbered_take, hcalled]

/-- A branch is merged into itself between two commits. -/
def idled : EventLog where
  events := ["init", "create file a", "commit", "merge main", "commit"].map .shorthand

/-- What is asked for when nobody is named. -/
def unsigned (message : String) : CommitInfo := ⟨message, "user-test", "user-test@example.com"⟩

def idledCommands : List Command :=
  [.init "main", .createFile "a" "a", .commit (unsigned "commit 1"), .merge "main" (unsigned "merge branch main"),
    .commit (unsigned "commit 3")]

end Workspace

end Chronicle
