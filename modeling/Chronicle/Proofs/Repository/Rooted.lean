import Chronicle.Proofs.Repository.Sound

/-!
# Histories with one root

In a rooted history (`History.Rooted`) only the first commit has no parents, and every later one has one
or two. **Every commit descends from the first one** (`History.Rooted.descends`), so any two have a base
(`History.exists_isBase`) and `History.mergeBases` finds one (`History.Rooted.mergeBases_ne_nil`).

A repository is rooted (`Repository.Rooted`) when its history is and its head is at a commit as soon as
there is one: only then can no commit without parents follow the first.
-/

namespace Chronicle

namespace History

/-- The first commit has no parents, and every later one has one or two. -/
structure Rooted (h : History) : Prop where
  root : h.parents 0 = []
  later : ∀ id, 0 < id → id < h.length → (h.parents id).length = 1 ∨ (h.parents id).length = 2

variable {h : History} {a b c : CommitId}

theorem Rooted.nil : Rooted [] := ⟨rfl, fun _ _ hid => absurd hid (Nat.not_lt_zero _)⟩

theorem Rooted.add (hr : h.Rooted) {new : Commit} (hroot : h = [] → new.parents = [])
    (hlater : h ≠ [] → new.parents.length = 1 ∨ new.parents.length = 2) : (h.add new).Rooted := by
  refine ⟨?_, ?_⟩
  · rw [parents_add]
    split
    · rename_i hlength
      exact hroot (List.eq_nil_of_length_eq_zero hlength.symm)
    · exact hr.root
  · intro id hpos hid
    rw [parents_add]
    split
    · rename_i hlength
      apply hlater
      rintro rfl
      rw [hlength] at hpos
      exact Nat.lt_irrefl 0 hpos
    · rename_i hne
      exact hr.later id hpos (Nat.lt_of_le_of_ne (Nat.le_of_lt_succ hid) hne)

/-- Only the first commit has no parents. -/
theorem Rooted.parents_eq_nil_iff (hr : h.Rooted) (ha : a < h.length) : h.parents a = [] ↔ a = 0 := by
  constructor
  · intro hnil
    by_contra hne
    have hsome := hr.later a (Nat.pos_of_ne_zero hne) ha
    rw [hnil] at hsome
    simp at hsome
  · rintro rfl
    exact hr.root

/-- Every commit descends from the first one: its parents come before it, down to the one without any. -/
theorem Rooted.descends (hr : h.Rooted) (hs : h.Sound) (ha : a < h.length) : h.Descends a 0 := by
  induction a using Nat.strongRecOn with
  | _ a ih =>
    by_cases hzero : a = 0
    · rw [hzero]
      exact .refl
    · obtain ⟨p, hp⟩ := List.exists_mem_of_ne_nil _ (mt (hr.parents_eq_nil_iff ha).mp hzero)
      have hlt : p < a := hs a p hp
      exact .head hp (ih p hlt (Nat.lt_trans hlt ha))

/-- Two commits that both descend from a third have a base. The search goes on from a common commit to a
later one that descends from it, as long as there is one, and `a` bounds it. -/
theorem exists_isBase (hs : h.Sound) (ha : h.Descends a c) (hb : h.Descends b c) : ∃ base, h.IsBase a b base := by
  induction hleft : a - c using Nat.strongRecOn generalizing c with
  | _ n ih =>
    by_cases hlast : ∀ d, h.Descends a d → h.Descends b d → h.Descends d c → d = c
    · exact ⟨c, ha, hb, hlast⟩
    · simp only [not_forall] at hlast
      obtain ⟨d, had, hbd, hdc, hne⟩ := hlast
      have hlt : c < d := Nat.lt_of_le_of_ne (hdc.le hs) (Ne.symm hne)
      have hle : d ≤ a := had.le hs
      have hfewer : a - d < n := hleft ▸ Nat.sub_lt_sub_left (Nat.lt_of_lt_of_le hlt hle) hlt
      exact ih (a - d) hfewer had hbd rfl

/-- Any two commits have a base, and it is found. -/
theorem Rooted.mergeBases_ne_nil (hr : h.Rooted) (hs : h.Sound) (ha : a < h.length) (hb : b < h.length) :
    h.mergeBases [a] b ≠ [] := by
  obtain ⟨base, hbase⟩ := exists_isBase hs (hr.descends hs ha) (hr.descends hs hb)
  exact List.ne_nil_of_mem ((mem_mergeBases_iff hs ha hb).mpr hbase)

end History

namespace Repository

/-- There is one root, and the head is at a commit as soon as there is any. -/
structure Rooted (r : Repository) : Prop where
  history : r.history.Rooted
  born : r.history ≠ [] → ∃ id, r.headCommit = .ok (some id)

variable {r r' : Repository}

theorem Rooted.empty (branch : String) : (Repository.empty branch).Rooted := ⟨.nil, fun h => absurd rfl h⟩

/-- The head is at a commit exactly when there is one. -/
theorem Rooted.born_iff (hr : r.Rooted) (hs : r.Sound) :
    (∃ id, r.headCommit = .ok (some id)) ↔ r.history ≠ [] := by
  constructor
  · rintro ⟨id, hid⟩ hnil
    have hlt := hs.headCommit_lt hid
    rw [hnil] at hlt
    exact Nat.not_lt_zero id hlt
  · exact hr.born

/-- A head that is at a commit stays there when a reference is added, which is not the head's own. -/
theorem Added.headCommit_eq {name : String} {new : Ref} {id : CommitId} (ha : r.Added name new r')
    (hid : r.headCommit = .ok (some id)) : r'.headCommit = .ok (some id) := by
  cases hhead : r.head with
  | detached other =>
    rw [headCommit_detached hhead] at hid
    rw [headCommit_detached (ha.head.trans hhead), hid]
  | attached target =>
    cases hname : r.headRef? with
    | none =>
      simp only [headRef?, hhead] at hname
      simp [headCommit, hhead, hname] at hid
    | some own =>
      have hname' : r'.headRef? = some own := by rw [headRef?, ha.head, ← hname, headRef?]
      rw [headCommit_attached hname] at hid
      have hne : own ≠ name := by
        rintro rfl
        rw [ha.fresh] at hid
        cases hid
      rw [headCommit_attached hname', ha.ref, if_neg hne, hid]

theorem Added.rooted {name : String} {new : Ref} {id : CommitId} (ha : r.Added name new r') (hr : r.Rooted)
    (hid : r.headCommit = .ok (some id)) : r'.Rooted :=
  ⟨by rw [ha.history]; exact hr.history, fun _ => ⟨id, ha.headCommit_eq hid⟩⟩

theorem Moved.rooted {id : CommitId} (hm : r.Moved id r') (hr : r.Rooted) (hhist : r'.history = r.history) :
    r'.Rooted :=
  ⟨by rw [hhist]; exact hr.history, fun _ => ⟨id, hm.headCommit⟩⟩

/-- Where the head was before the first commit, the commit may have no parents; later on it has some. -/
theorem Recorded.rooted {new : Commit} (hrec : r.Recorded new r') (hr : r.Rooted)
    (hroot : r.history = [] → new.parents = [])
    (hlater : r.history ≠ [] → new.parents.length = 1 ∨ new.parents.length = 2) : r'.Rooted := by
  refine ⟨?_, fun _ => ⟨_, hrec.headCommit⟩⟩
  rw [hrec.history]
  exact hr.history.add hroot hlater

end Repository

end Chronicle
