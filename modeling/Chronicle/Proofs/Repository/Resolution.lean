import Chronicle.Proofs.Repository.Sound
import Chronicle.Repository.Revision

/-!
# Revisions lead to commits that exist

Reading a revision goes from object to object, and in a sound repository each step leads to an object
that is there (`Object.Within`). So whatever `Repository.resolve` answers is the number of a commit
(`Repository.resolve_lt`), however the text spells it: as a branch, a tag, an abbreviation, an earlier
place of the head, or by any steps from one of these.
-/

namespace Chronicle

open Outcome

/-- The commits that an object leads to are among the first `n`. -/
def Object.Within (n : Nat) : Object → Prop
  | .commit id | .tag id => id < n
  | .tree _ | .blob _ => True

theorem Ref.object_within {n : Nat} {ref : Ref} (h : ref.commit < n) : ref.object.Within n := by
  unfold Ref.object
  split <;> exact h

namespace Object

variable {n : Nat} {h : History} {o : Object}

theorem peel_within (ho : o.Within n) (want : ObjectKind) : Yields (Within n) (o.peel h want) := by
  unfold peel
  split
  · exact .ok ho
  · split
    · exact .ok trivial
    · exact .ok ho
    · exact .ok trivial
    · exact .error
    · exact .error

theorem peelCommit_lt (ho : o.Within n) : Yields (· < n) (o.peelCommit h) := by
  unfold peelCommit
  split
  · rename_i id hp
    exact .ok (peel_within ho .commit _ hp)
  · exact .error
  · exact .error

end Object

namespace Repository

variable {r : Repository}

/-! ## Names -/

theorem follow_lt (hr : r.Sound) (name : String) :
    Yields (fun found => found.2.commit < r.history.length) (r.follow name) := by
  unfold follow
  split
  · split
    · rename_i id hh
      exact .ok (hr.head id hh)
    · split
      · exact .error
      · split
        · rename_i hf
          exact .ok (hr.refs _ _ hf)
        · exact .error
  · split
    · rename_i hf
      exact .ok (hr.refs _ _ hf)
    · exact .error

theorem firstOf_lt (hr : r.Sound) (missing : Fault) (names : List String) :
    Yields (fun found => found.2.commit < r.history.length) (r.firstOf missing names) := by
  induction names generalizing missing with
  | nil => exact .error
  | cons name others ih =>
    unfold firstOf
    split
    · split
      · exact ih .notFound
      · exact follow_lt hr name
    · exact ih .invalidName

theorem named_lt (hr : r.Sound) (name : String) :
    Yields (fun found => found.2.commit < r.history.length) (r.named name) :=
  firstOf_lt hr .notFound (readings name)

theorem abbreviated_within (digits : String) :
    Yields (Object.Within r.history.length) (r.abbreviated digits) := by
  unfold abbreviated
  split
  · exact .error
  · split
    · exact .error
    · split
      · exact .error
      · rename_i id hids
        have hmem := List.mem_singleton_self id
        rw [← hids, List.mem_filter, List.mem_range] at hmem
        exact .ok hmem.1
      · exact .error

theorem nameObject_within (hr : r.Sound) (name : String) :
    Yields (Object.Within r.history.length) (r.nameObject name) := by
  have hshort (long : Prop) [Decidable long] :
      Yields (Object.Within r.history.length) (if long then r.abbreviated name else .error .notFound) := by
    split
    · exact abbreviated_within name
    · exact .error
  unfold nameObject
  dsimp only
  split
  · rename_i o ho
    exact .ok (hshort _ o ho)
  · split
    · rename_i hn
      exact .ok (Ref.object_within (named_lt hr _ _ hn))
    · split
      · split
        · split
          · exact abbreviated_within _
          · exact .error
        · exact .error
      · exact hshort _
    · exact .error

/-! ## Steps -/

/-- What a revision has been read to is there. -/
structure Reading.Within (n : Nat) (s : Reading) : Prop where
  object : ∀ o, s.object = some o → o.Within n
  ref : ∀ found, s.ref = some found → found.2.commit < n

theorem Reading.Within.start (n : Nat) : ({} : Reading).Within n := ⟨by simp, by simp⟩

theorem Reading.Within.withObject {n : Nat} {s : Reading} (hs : s.Within n) {o : Object}
    (ho : o.Within n) : Reading.Within n { s with object := some o } := by
  refine ⟨?_, hs.ref⟩
  intro o' h
  cases h
  exact ho

theorem reached_within (hr : r.Sound) {s : Reading} (hs : s.Within r.history.length) :
    Yields (Object.Within r.history.length) (r.reached s) := by
  unfold reached
  split
  · rename_i ho
    exact .ok (hs.object _ ho)
  · rename_i hf
    exact .ok (Ref.object_within (hs.ref _ hf))
  · split
    · exact .error
    · exact nameObject_within hr _

theorem parentStep_within (hr : r.Sound) (n : Nat) {o : Object}
    (ho : o.Within r.history.length) : Yields (Object.Within r.history.length) (r.parentStep n o) := by
  unfold parentStep
  refine (Object.peelCommit_lt ho).bind fun id hid => ?_
  split
  · exact .ok hid
  · split
    · rename_i p hp
      have hlt : p < id := hr.history id p (List.mem_of_getElem? hp)
      exact .ok (Nat.lt_trans hlt hid)
    · exact .error

end Repository

theorem History.firstAncestor_lt {h : History} (hs : h.Sound) {steps : Nat} {id a : CommitId}
    (hid : id < h.length) (ha : h.firstAncestor steps id = some a) : a < h.length := by
  induction steps generalizing id with
  | zero =>
    cases ha
    exact hid
  | succ steps ih =>
    unfold firstAncestor at ha
    split at ha
    · cases ha
    · rename_i p others hp
      have hlt : p < id := hs id p (by simp [hp])
      exact ih (Nat.lt_trans hlt hid) ha

namespace Repository

variable {r : Repository}

theorem backStep_within (hr : r.Sound) (n : Nat) {o : Object} (ho : o.Within r.history.length) :
    Yields (Object.Within r.history.length) (r.backStep n o) := by
  unfold backStep
  refine (Object.peelCommit_lt ho).bind fun id hid => ?_
  split
  · rename_i a ha
    exact .ok (History.firstAncestor_lt hr.history hid ha)
  · exact .error

theorem search_within (text : String) (ids : List CommitId) :
    Yields (Object.Within r.history.length) (r.search text ids) := by
  unfold search
  split
  · exact .error
  · dsimp only
    split
    · rename_i id hf
      exact .ok (History.exists_of_mem_ancestry (List.mem_of_find?_eq_some hf)).1
    · exact .error

theorem kindStep_within (word : String) {o : Object} (ho : o.Within r.history.length) :
    Yields (Object.Within r.history.length) (r.kindStep word o) := by
  unfold kindStep
  split
  · split
    · exact .ok ho
    · exact .ok ho
  · exact (Object.peelCommit_lt ho).bind fun id _ => search_within _ _
  · split
    · exact Object.peel_within ho _
    · exact Object.peel_within ho _
    · exact Object.peel_within ho _
    · exact Object.peel_within ho _
    · exact .error

theorem fileStep_within (path : String) {o : Object} (ho : o.Within r.history.length) :
    Yields (Object.Within r.history.length) (r.fileStep path o) := by
  unfold fileStep
  refine (Object.peel_within ho .tree).bind fun o' _ => ?_
  split
  · -- from here on there are only files and directories, and these name no commit
    dsimp only
    repeat' split
    all_goals first
      | exact .ok trivial
      | exact .error
  · exact .error

/-- The places that the journal tells of are there. Only a reference that is not looked at itself may
be at no commit. -/
theorem place_within (hr : r.Sound) {n : Nat} (name : String) {ref : Ref}
    (href : 0 < n ∨ ref.commit < r.history.length) :
    Yields (Object.Within r.history.length)
      (if n = 0 then (.ok ref.object : Except Fault Object)
        else
          match (r.journal.filter (·.name == name))[n]? with
          | some m => .ok (.commit m.commit)
          | none => .error .notFound) := by
  split
  · rename_i hn
    have hlt : ref.commit < r.history.length := by
      rcases href with hpos | hlt
      · omega
      · exact hlt
    exact .ok (Ref.object_within hlt)
  · split
    · rename_i m hm
      exact .ok (hr.journal m (List.mem_filter.mp (List.mem_of_getElem? hm)).1)
    · exact .error

theorem earlier_within (hr : r.Sound) (n : Nat) {s : Reading} (hs : s.Within r.history.length) :
    Yields (Object.Within r.history.length) (r.earlier n s) := by
  unfold earlier
  dsimp only
  split
  · rename_i found hf
    exact place_within hr found.1 (.inr (hs.ref found hf))
  · split
    · rename_i hhead
      simp only [Bool.and_eq_true, decide_eq_true_eq] at hhead
      exact place_within hr headName (.inl hhead.1)
    · exact (named_lt hr s.text).bind fun found hf => place_within hr found.1 (.inr hf)

theorem leftBehind_within (hr : r.Sound) (n : Nat) {s : Reading} (hs : s.Within r.history.length) :
    Yields (Reading.Within r.history.length) (r.leftBehind n s) := by
  unfold leftBehind
  dsimp only
  split
  · exact .error
  · split
    · exact .error
    · rename_i label _
      split
      · rename_i found hf
        refine .ok ⟨hs.object, ?_⟩
        intro found' hfound
        cases hfound
        exact named_lt hr label _ hf
      · exact (abbreviated_within label).bind fun o ho => .ok (hs.withObject ho)
      · exact .error

theorem placeStep_within (hr : r.Sound) (word : String) {s : Reading}
    (hs : s.Within r.history.length) : Yields (Reading.Within r.history.length) (r.placeStep word s) := by
  unfold placeStep
  split
  · exact .error
  · exact leftBehind_within hr _ hs
  · rename_i n _
    intro s' hs'
    cases ho : r.earlier n s with
    | error e =>
      rw [ho] at hs'
      cases hs'
    | ok o =>
      rw [ho] at hs'
      cases hs'
      exact hs.withObject (earlier_within hr n hs o ho)
  · exact .error

/-- By induction on what is left to read: each step keeps what was reached inside the history. -/
theorem readOn_within (hr : r.Sound) {fuel : Nat} {cs : List Char} {s : Reading}
    (hs : s.Within r.history.length) :
    Yields (Reading.Within r.history.length) (r.readOn fuel cs s) := by
  induction fuel generalizing cs s with
  | zero =>
    unfold readOn
    exact .ok hs
  | succ fuel ih =>
    cases cs with
    | nil =>
      unfold readOn
      exact .ok hs
    | cons c rest =>
      have hname : Yields (Reading.Within r.history.length)
          (if s.object.isSome || s.ref.isSome then (.error .invalidName : Except Fault Reading)
            else r.readOn fuel rest { s with name := c :: s.name }) := by
        split
        · exact .error
        · exact ih ⟨hs.object, hs.ref⟩
      unfold readOn
      dsimp only
      split
      · -- a caret: a kind in braces, or the number of a parent
        refine (reached_within hr hs).bind fun o ho => ?_
        split
        · split
          · exact .error
          · exact (kindStep_within _ ho).bind fun o' ho' => ih (hs.withObject ho')
        · split
          · exact .error
          · exact (parentStep_within hr _ ho).bind fun o' ho' => ih (hs.withObject ho')
      · -- a tilde
        split
        · exact .error
        · refine (reached_within hr hs).bind fun o ho => ?_
          exact (backStep_within hr _ ho).bind fun o' ho' => ih (hs.withObject ho')
      · -- a colon: a path, or a text to search for
        split
        · refine (reached_within hr hs).bind fun o ho => ?_
          exact (fileStep_within _ ho).bind fun o' ho' => .ok (hs.withObject ho')
        · split
          · exact (search_within _ _).bind fun o ho => .ok (hs.withObject ho)
          · exact .error
      · -- an at sign, with or without braces
        split
        · split
          · exact .error
          · split
            · exact .error
            · exact (placeStep_within hr _ hs).bind fun s' hs' => ih hs'
        · exact hname
      · exact hname

theorem revision_within (hr : r.Sound) (text : String) :
    Yields (Object.Within r.history.length) (r.revision text) :=
  (readOn_within hr (.start _)).bind fun _ hs => reached_within hr hs

/-- **Whatever a text is resolved to is a commit of the history.** -/
theorem resolve_lt (hr : r.Sound) (text : String) :
    Yields (· < r.history.length) (r.resolve text) := by
  unfold resolve
  split
  · exact .error
  · split
    · rename_i name ref hb
      exact .ok (hr.refs name ref (ref?_of_branch? hb).2)
    · split
      · rename_i o ho
        exact (Object.peelCommit_lt (revision_within hr text o ho)).mapError _
      · exact .error
      · exact .error
      · exact .error

end Repository

end Chronicle
