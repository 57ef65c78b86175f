import Chronicle.Proofs.Outcome
import Chronicle.Proofs.Repository.Descent
import Chronicle.Repository.Basic

/-!
# Sound repositories

In a sound repository (`Repository.Sound`) everything that is named by number is there: parents come
before their children, and references, a detached head and the journal name commits of the history.

The ways to change a repository are few, and each is said once what it leaves as it was:

* `Repository.Moved` — the head goes to a commit and takes the reference along that it is attached
  to (`advance`, `record`);
* `Repository.Added` — there is a reference that was not there before (`addBranch`, `addTag`);
* `Repository.turn` — the head is put elsewhere.

Each of them keeps a repository sound.
-/

namespace Chronicle

open Outcome

/-- Where a head is after it moved to a commit. One that is attached stays so. -/
def Head.moved (id : CommitId) : Head → Head
  | attached target => attached target
  | detached _ => detached id

namespace Repository

/-- The commits that a repository speaks of are in its history. -/
structure Sound (r : Repository) : Prop where
  history : r.history.Sound
  refs : ∀ name ref, r.ref? name = some ref → ref.commit < r.history.length
  head : ∀ id, r.head = .detached id → id < r.history.length
  journal : ∀ m ∈ r.journal, m.commit < r.history.length

/-- The full name of the reference that the head is attached to, whether it is there yet or not. -/
def headRef? (r : Repository) : Option String :=
  match r.head with
  | .attached target => RefName.normal? target
  | .detached _ => none

/-! ## References -/

theorem ref?_setRef (r : Repository) (name other : String) (ref : Ref) :
    (r.setRef name ref).ref? other = if other = name then some ref else r.ref? other := by
  unfold setRef ref?
  by_cases h : other = name
  · subst h
    simp
  · rw [if_neg h, List.lookup_cons, beq_eq_false_iff_ne.mpr h]
    -- what is left out has another name
    induction r.refs with
    | nil => rfl
    | cons e rest ih =>
      obtain ⟨n, v⟩ := e
      by_cases hn : n = name
      · subst hn
        simpa [List.lookup_cons, beq_eq_false_iff_ne.mpr h] using ih
      · by_cases ho : other = n
        · simp [hn, ho]
        · simpa [List.lookup_cons, hn, beq_eq_false_iff_ne.mpr ho] using ih

theorem ref?_of_branch? {r : Repository} {text name : String} {ref : Ref}
    (h : r.branch? text = some (name, ref)) :
    RefName.within? RefName.branches text = some name ∧ r.ref? name = some ref := by
  unfold branch? at h
  cases hw : RefName.within? RefName.branches text with
  | none => simp [hw] at h
  | some full =>
    cases hf : r.ref? full with
    | none => simp [hw, hf] at h
    | some found =>
      simp [hw, hf] at h
      obtain ⟨rfl, rfl⟩ := h
      exact ⟨rfl, hf⟩

/-! ## The journal -/

/-- Writing a movement down changes the journal alone. -/
@[simp] theorem ref?_note (r : Repository) (m : Movement) (name : String) :
    (r.note m).ref? name = r.ref? name := rfl

section

variable (r : Repository) (name : String) (id : CommitId)

@[simp] theorem history_noteBranch : (r.noteBranch name id).history = r.history := by
  unfold noteBranch
  split <;> rfl

@[simp] theorem head_noteBranch : (r.noteBranch name id).head = r.head := by
  unfold noteBranch
  split <;> rfl

@[simp] theorem ref?_noteBranch (other : String) :
    (r.noteBranch name id).ref? other = r.ref? other := by
  unfold noteBranch
  split <;> rfl

@[simp] theorem index_noteBranch : (r.noteBranch name id).index = r.index := by
  unfold noteBranch
  split <;> rfl

@[simp] theorem saved_noteBranch : (r.noteBranch name id).saved = r.saved := by
  unfold noteBranch
  split <;> rfl

theorem mem_journal_noteBranch {m : Movement} (hm : m ∈ (r.noteBranch name id).journal) :
    m.commit = id ∨ m ∈ r.journal := by
  unfold noteBranch at hm
  split at hm
  · rcases List.mem_cons.mp hm with rfl | hm
    · exact .inl rfl
    · exact .inr hm
  · exact .inr hm

end

/-! ## Where the head is -/

theorem headCommit_detached {r : Repository} {id : CommitId} (h : r.head = .detached id) :
    r.headCommit = .ok (some id) := by
  unfold headCommit
  rw [h]

theorem headCommit_attached {r : Repository} {name : String} (h : r.headRef? = some name) :
    r.headCommit = .ok ((r.ref? name).map (·.commit)) := by
  unfold headRef? at h
  unfold headCommit
  cases hh : r.head with
  | detached id =>
    rw [hh] at h
    cases h
  | attached target =>
    rw [hh] at h
    simp only [h]

/-- A head that is at a commit is at one of the history. -/
theorem Sound.headCommit_lt {r : Repository} (hr : r.Sound) {id : CommitId}
    (h : r.headCommit = .ok (some id)) : id < r.history.length := by
  cases hh : r.head with
  | detached old =>
    rw [headCommit_detached hh] at h
    cases h
    exact hr.head id hh
  | attached target =>
    cases hn : r.headRef? with
    | none =>
      unfold headRef? at hn
      unfold headCommit at h
      rw [hh] at hn h
      simp [hn] at h
    | some name =>
      rw [headCommit_attached hn] at h
      cases hf : r.ref? name with
      | none => simp [hf] at h
      | some ref =>
        simp [hf] at h
        exact h ▸ hr.refs name ref hf

/-! ## Moving the head -/

/-- Going from `r` to `r'`, the head moved to commit `id` and took along the reference that it is
attached to. Nothing is said about the history. -/
structure Moved (r : Repository) (id : CommitId) (r' : Repository) : Prop where
  head : r'.head = r.head.moved id
  headCommit : r'.headCommit = .ok (some id)
  ref : ∀ name, r'.ref? name = if r.headRef? = some name then some ⟨id, none⟩ else r.ref? name
  index : r'.index = r.index
  saved : r'.saved = r.saved
  journal : ∀ m ∈ r'.journal, m.commit = id ∨ m ∈ r.journal

theorem Moved.of_advance {r r' : Repository} {id : CommitId} (h : r.advance id = .ok r') :
    r'.history = r.history ∧ r.Moved id r' := by
  unfold advance at h
  cases hh : r.head with
  | detached old =>
    -- there is no reference to take along
    rw [hh] at h
    cases h
    refine ⟨rfl, by rw [hh]; rfl, rfl, ?_, rfl, rfl, ?_⟩
    · intro name
      rw [if_neg (by simp [headRef?, hh])]
      rfl
    · intro m hm
      rcases List.mem_cons.mp hm with rfl | hm
      · exact .inl rfl
      · exact .inr hm
  | attached target =>
    rw [hh] at h
    cases hn : RefName.normal? target with
    | none => simp [hn] at h
    | some full =>
      simp only [hn] at h
      split at h
      · cases h
      · -- the reference is set, and both movements are written down
        cases h
        have hfull : r.headRef? = some full := by simp [headRef?, hh, hn]
        refine ⟨?_, ?_, ?_, ?_, ?_, ?_, ?_⟩
        · simp [note, setRef]
        · simp [note, setRef, hh, Head.moved]
        · have hattached : (((r.setRef full ⟨id, none⟩).noteBranch full id).note
              ⟨headName, id, none⟩).headRef? = some full := by
            simp [headRef?, note, setRef, hh, hn]
          rw [headCommit_attached hattached, ref?_note, ref?_noteBranch, ref?_setRef]
          simp
        · intro name
          rw [hfull, ref?_note, ref?_noteBranch, ref?_setRef]
          simp [eq_comm]
        · simp [note, setRef]
        · simp [note, setRef]
        · intro m hm
          rcases List.mem_cons.mp hm with rfl | hm
          · exact .inl rfl
          · exact mem_journal_noteBranch (r.setRef full ⟨id, none⟩) full id hm

/-- A repository stays sound when its head moves to a commit of the history. -/
theorem Moved.sound {r r' : Repository} {id : CommitId} (hm : r.Moved id r') (hr : r.Sound)
    (hh : r.history <:+ r'.history) (hs : r'.history.Sound) (hid : id < r'.history.length) :
    r'.Sound := by
  have hle : r.history.length ≤ r'.history.length := hh.length_le
  refine ⟨hs, ?_, ?_, ?_⟩
  · intro name ref href
    rw [hm.ref] at href
    split at href
    · -- the head's own reference
      cases href
      exact hid
    · exact Nat.lt_of_lt_of_le (hr.refs name ref href) hle
  · intro old hold
    rw [hm.head] at hold
    cases hhead : r.head with
    | attached target => simp [hhead, Head.moved] at hold
    | detached before =>
      simp only [hhead, Head.moved, Head.detached.injEq] at hold
      exact hold ▸ hid
  · intro m hmem
    rcases hm.journal m hmem with heq | hmem
    · exact heq ▸ hid
    · exact Nat.lt_of_lt_of_le (hr.journal m hmem) hle

/-- Where the history stays, it is enough that the head moves to one of its commits. -/
theorem Moved.sound_of_same {r r' : Repository} {id : CommitId} (hm : r.Moved id r') (hr : r.Sound)
    (hhist : r'.history = r.history) (hid : id < r.history.length) : r'.Sound := by
  apply hm.sound hr (History.suffix_of_eq hhist)
  · rw [hhist]
    exact hr.history
  · rw [hhist]
    exact hid

/-- Going from `r` to `r'`, a commit was added to the history and the head moved to it. -/
structure Recorded (r : Repository) (c : Commit) (r' : Repository) : Prop
    extends Moved r r.history.length r' where
  history : r'.history = r.history.add c

theorem Recorded.of_record {r r' : Repository} {c : Commit} {id : CommitId}
    (h : r.record c = .ok (id, r')) : id = r.history.length ∧ r.Recorded c r' := by
  unfold record at h
  obtain ⟨r'', ha, hp⟩ := bind_eq_ok.mp h
  cases hp
  obtain ⟨hhist, hm⟩ := Moved.of_advance ha
  exact ⟨rfl, ⟨hm.head, hm.headCommit, hm.ref, hm.index, hm.saved, hm.journal⟩, hhist⟩

/-- A repository stays sound when a commit is recorded whose parents are there. -/
theorem Recorded.sound {r r' : Repository} {c : Commit} (hrec : r.Recorded c r') (hr : r.Sound)
    (hc : ∀ p ∈ c.parents, p < r.history.length) : r'.Sound := by
  have hlen : r.history.length < r'.history.length := by
    rw [hrec.history, History.length_add]
    exact Nat.lt_succ_self _
  apply hrec.toMoved.sound hr
  · rw [hrec.history]
    exact History.suffix_add r.history c
  · rw [hrec.history]
    exact hr.history.add hc
  · exact hlen

/-! ## Adding references -/

/-- Going from `r` to `r'`, the reference `name` was added, and nothing else happened but that the
journal may tell of it. -/
structure Added (r : Repository) (name : String) (new : Ref) (r' : Repository) : Prop where
  fresh : r.ref? name = none
  history : r'.history = r.history
  head : r'.head = r.head
  ref : ∀ other, r'.ref? other = if other = name then some new else r.ref? other
  index : r'.index = r.index
  saved : r'.saved = r.saved
  journal : ∀ m ∈ r'.journal, m.commit = new.commit ∨ m ∈ r.journal

theorem freshName_spec {r : Repository} {group text name : String}
    (h : r.freshName group text = .ok name) :
    RefName.within? group text = some name ∧ r.ref? name = none := by
  unfold freshName at h
  split at h
  · cases h
  · cases hw : RefName.within? group text with
    | none => simp [hw] at h
    | some full =>
      simp only [hw] at h
      split at h
      · cases h
      · rename_i hnone
        -- the other names are not compared any further
        split at h
        · cases h
        · split at h
          · cases h
          · split at h
            · cases h
            · cases h
              exact ⟨rfl, by simpa using hnone⟩

theorem Added.of_addBranch {r r' : Repository} {text : String} {id : CommitId}
    (h : r.addBranch text id = .ok r') :
    ∃ name, RefName.within? RefName.branches text = some name ∧ r.Added name ⟨id, none⟩ r' := by
  unfold addBranch at h
  obtain ⟨name, hname, hp⟩ := bind_eq_ok.mp h
  obtain ⟨hw, hfresh⟩ := freshName_spec hname
  cases hp
  refine ⟨name, hw, hfresh, by simp [setRef], by simp [setRef], ?_, by simp [setRef],
    by simp [setRef], ?_⟩
  · intro other
    rw [ref?_noteBranch, ref?_setRef]
  · intro m hm
    exact mem_journal_noteBranch (r.setRef name ⟨id, none⟩) name id hm

theorem Added.of_addTag {r r' : Repository} {text : String} {id : CommitId}
    {note : Option TagNote} (h : r.addTag text id note = .ok r') :
    ∃ name, RefName.within? RefName.tags text = some name ∧ r.Added name ⟨id, note⟩ r' := by
  unfold addTag at h
  obtain ⟨name, hname, hp⟩ := bind_eq_ok.mp h
  obtain ⟨hw, hfresh⟩ := freshName_spec hname
  cases hp
  exact ⟨name, hw, hfresh, rfl, rfl, fun other => ref?_setRef r name other _, rfl, rfl, fun m hm => .inr hm⟩

theorem Added.sound {r r' : Repository} {name : String} {ref : Ref} (ha : r.Added name ref r')
    (hr : r.Sound) (href : ref.commit < r.history.length) : r'.Sound := by
  refine ⟨by rw [ha.history]; exact hr.history, ?_, ?_, ?_⟩
  · intro other found hf
    rw [ha.history]
    rw [ha.ref] at hf
    split at hf
    · cases hf
      exact href
    · exact hr.refs other found hf
  · intro id hid
    rw [ha.head] at hid
    rw [ha.history]
    exact hr.head id hid
  · intro m hm
    rw [ha.history]
    rcases ha.journal m hm with heq | hm
    · exact heq ▸ href
    · exact hr.journal m hm

/-! ## Beginning, and putting the head elsewhere -/

theorem Sound.empty (branch : String) : (Repository.empty branch).Sound := by
  refine ⟨.nil, ?_, ?_, ?_⟩
  · intro name ref h
    cases h
  · intro id h
    simp [Repository.empty, firstHead] at h
  · intro m hm
    cases hm

theorem Sound.withIndex {r : Repository} (hr : r.Sound) (index saved : Tree) :
    Repository.Sound { r with index, saved } :=
  ⟨hr.history, hr.refs, hr.head, hr.journal⟩

theorem Sound.turn {r : Repository} (hr : r.Sound) {head : Head} {id : CommitId}
    (hid : id < r.history.length) (hhead : ∀ other, head = .detached other → other = id) :
    (r.turn head id).Sound := by
  refine ⟨hr.history, hr.refs, ?_, ?_⟩
  · intro other hother
    exact hhead other hother ▸ hid
  · intro m hm
    rcases List.mem_cons.mp hm with rfl | hm
    · exact hid
    · exact hr.journal m hm

end Repository

end Chronicle
