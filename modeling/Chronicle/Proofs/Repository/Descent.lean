import Chronicle.Repository.History
import Mathlib.Data.List.Nodup
import Mathlib.Logic.Relation
import Mathlib.Tactic.ByContra

/-!
# Descent

One commit descends from another when a way of parents leads from it there (`History.Descends`).
Histories only grow at their head, and then nothing that was true of the commits before is lost:

* **commits** keep their numbers (`History.get?_of_suffix`);
* **ways** stay (`History.Descends.of_suffix`).

In a history whose parents all come before their children (`History.Sound`), `History.ancestry` finds
exactly what is descended from, and so `History.isIn` decides descent (`History.isIn_iff`). A base of two
commits is a last one that both descend from (`History.IsBase`), which is what `History.mergeBases` lists
(`History.mem_mergeBases_iff`).
-/

namespace Chronicle.History

/-- Whether a way of parents leads from commit `new` to commit `old`; every commit leads to itself. -/
def Descends (h : History) (new old : CommitId) : Prop :=
  Relation.ReflTransGen (fun child parent => parent ∈ h.parents child) new old

/-- The parents of every commit come before it. -/
def Sound (h : History) : Prop := ∀ id, ∀ p ∈ h.parents id, p < id

/-! ## Growing -/

theorem length_add (h : History) (c : Commit) : (h.add c).length = h.length + 1 := rfl

theorem parents_add (h : History) (c : Commit) (id : CommitId) :
    (h.add c).parents id = if id = h.length then c.parents else h.parents id := by
  unfold parents
  rw [get?_add]
  by_cases hid : id = h.length
  · simp [hid]
  · simp [hid]

theorem get?_isSome_iff {h : History} {id : CommitId} : (h.get? id).isSome = true ↔ id < h.length := by
  simp [get?]

/-- Only commits of the history have parents. -/
theorem lt_length_of_mem_parents {h : History} {id p : CommitId} (hp : p ∈ h.parents id) :
    id < h.length := by
  rw [← get?_isSome_iff]
  cases hc : h.get? id with
  | none => simp [parents, hc] at hp
  | some c => rfl

/-- A commit keeps its number in every history that goes on from its own. -/
theorem get?_of_suffix {h h' : History} (hs : h <:+ h') {id : CommitId} {c : Commit}
    (hc : h.get? id = some c) : h'.get? id = some c := by
  obtain ⟨newer, rfl⟩ := hs
  have hlt : id < h.length := get?_isSome_iff.mp (by rw [hc]; rfl)
  rw [← hc]
  unfold get?
  rw [List.reverse_append, List.getElem?_append_left (by rw [List.length_reverse]; exact hlt)]

theorem parents_of_suffix {h h' : History} (hs : h <:+ h') {id p : CommitId}
    (hp : p ∈ h.parents id) : p ∈ h'.parents id := by
  cases hc : h.get? id with
  | none => simp [parents, hc] at hp
  | some c =>
    simp only [parents, hc, get?_of_suffix hs hc] at hp ⊢
    exact hp

theorem Descends.of_suffix {h h' : History} (hs : h <:+ h') {new old : CommitId}
    (hd : h.Descends new old) : h'.Descends new old :=
  Relation.ReflTransGen.mono (fun _ _ hp => parents_of_suffix hs hp) new old hd

theorem suffix_of_eq {h h' : History} (he : h' = h) : h <:+ h' := ⟨[], he.symm⟩

theorem suffix_add (h : History) (c : Commit) : h <:+ h.add c := List.suffix_cons c h

/-- A new commit descends from each of its parents. -/
theorem descends_add_of_mem {h : History} {c : Commit} {p : CommitId} (hp : p ∈ c.parents) :
    (h.add c).Descends h.length p := by
  apply Relation.ReflTransGen.single
  rw [parents_add, if_pos rfl]
  exact hp

/-! ## Sound histories -/

theorem Sound.nil : Sound [] := by
  intro id p hp
  exact absurd (lt_length_of_mem_parents hp) (Nat.not_lt_zero id)

theorem Sound.add {h : History} (hs : h.Sound) {c : Commit} (hc : ∀ p ∈ c.parents, p < h.length) :
    (h.add c).Sound := by
  intro id p hp
  rw [parents_add] at hp
  split at hp
  · rename_i hid
    rw [hid]
    exact hc p hp
  · exact hs id p hp

theorem Sound.of_cons {c : Commit} {older : History} (hs : Sound (c :: older)) : older.Sound :=
  fun id p hp => hs id p (parents_of_suffix (List.suffix_cons c older) hp)

theorem Descends.le {h : History} (hs : h.Sound) {new old : CommitId} (hd : h.Descends new old) :
    old ≤ new := by
  induction hd with
  | refl => exact Nat.le_refl _
  | tail _ hp ih => exact Nat.le_trans (Nat.le_of_lt (hs _ _ hp)) ih

/-- A way from an old commit does not pass through newer ones. -/
theorem Descends.of_add {h : History} {c : Commit} (hs : (h.add c).Sound) {new old : CommitId}
    (hnew : new ≠ h.length) (hd : (h.add c).Descends new old) : h.Descends new old := by
  induction hd using Relation.ReflTransGen.head_induction_on with
  | refl => exact .refl
  | head hp _ ih =>
    rw [parents_add, if_neg hnew] at hp
    have hlt := hs _ _ (parents_of_suffix (suffix_add h c) hp)
    have hin := lt_length_of_mem_parents hp
    exact .head hp (ih (Nat.ne_of_lt (Nat.lt_trans hlt hin)))

/-! ## Ancestry -/

/-- Whatever the ancestry lists is a commit that one of `found` descends from. -/
theorem exists_of_mem_ancestry {h : History} {found : List CommitId} {x : CommitId}
    (hx : x ∈ h.ancestry found) : x < h.length ∧ ∃ y ∈ found, h.Descends y x := by
  induction h generalizing found with
  | nil => simp [ancestry] at hx
  | cons c older ih =>
    have hs : older <:+ c :: older := suffix_add older c
    unfold ancestry at hx
    split at hx
    · rename_i hfound
      have hmem : older.length ∈ found := by simpa using hfound
      rcases List.mem_cons.mp hx with rfl | hx
      · exact ⟨Nat.lt_succ_self _, older.length, hmem, .refl⟩
      · obtain ⟨hlt, y, hy, hd⟩ := ih hx
        refine ⟨Nat.lt_succ_of_lt hlt, ?_⟩
        rcases List.mem_append.mp hy with hy | hy
        · exact ⟨older.length, hmem, (descends_add_of_mem hy).trans (hd.of_suffix hs)⟩
        · exact ⟨y, hy, hd.of_suffix hs⟩
    · obtain ⟨hlt, y, hy, hd⟩ := ih hx
      exact ⟨Nat.lt_succ_of_lt hlt, y, hy, hd.of_suffix hs⟩

/-- The ancestry lists every commit that one of `found` descends from. -/
theorem mem_ancestry_of {h : History} (hs : h.Sound) {found : List CommitId} {x y : CommitId}
    (hx : x < h.length) (hy : y ∈ found) (hd : h.Descends y x) : x ∈ h.ancestry found := by
  induction h generalizing found y with
  | nil => exact absurd hx (Nat.not_lt_zero x)
  | cons c older ih =>
    have hle : x ≤ y := hd.le hs
    unfold ancestry
    by_cases hyl : y = older.length
    · subst hyl
      rw [if_pos (by simpa using hy)]
      rcases hd.cases_head with rfl | ⟨p, hp, hpx⟩
      · exact List.mem_cons_self
      · have hpc : p ∈ c.parents := by
          have hadd := parents_add older c older.length
          rw [if_pos rfl] at hadd
          exact hadd ▸ hp
        have hpl : p < older.length := hs _ _ hp
        have hpx' : Descends older p x := Descends.of_add hs (Nat.ne_of_lt hpl) hpx
        have hxl : x < older.length := Nat.lt_of_le_of_lt (hpx'.le hs.of_cons) hpl
        exact List.mem_cons_of_mem _ (ih hs.of_cons hxl (List.mem_append_left _ hpc) hpx')
    · have hd' : Descends older y x := Descends.of_add hs hyl hd
      have hxl : x < older.length := by
        rcases hd'.cases_head with rfl | ⟨p, hp, _⟩
        · exact Nat.lt_of_le_of_ne (Nat.le_of_lt_succ hx) hyl
        · exact Nat.lt_of_le_of_lt hle (lt_length_of_mem_parents hp)
      split
      · exact List.mem_cons_of_mem _ (ih hs.of_cons hxl (List.mem_append_right _ hy) hd')
      · exact ih hs.of_cons hxl hy hd'

theorem descends_of_isIn {h : History} {old new : CommitId} (hin : h.isIn old new = true) :
    h.Descends new old := by
  unfold isIn at hin
  rw [List.contains_iff_mem] at hin
  obtain ⟨_, y, hy, hd⟩ := exists_of_mem_ancestry hin
  rw [List.mem_singleton] at hy
  exact hy ▸ hd

/-- **Descent is decided** by looking through the history once. -/
theorem isIn_iff {h : History} (hs : h.Sound) {old new : CommitId} (hold : old < h.length) :
    h.isIn old new = true ↔ h.Descends new old := by
  constructor
  · exact descends_of_isIn
  · intro hd
    unfold isIn
    rw [List.contains_iff_mem]
    exact mem_ancestry_of hs hold (List.mem_singleton_self new) hd

/-! ## Bases -/

/-- Whether two commits both descend from commit `b`, and no other commit that both descend from
descends from it. -/
def IsBase (h : History) (ours theirs b : CommitId) : Prop :=
  h.Descends ours b ∧ h.Descends theirs b ∧
    ∀ c, h.Descends ours c → h.Descends theirs c → h.Descends c b → c = b

theorem nodup_ancestry (h : History) (found : List CommitId) : (h.ancestry found).Nodup := by
  induction h generalizing found with
  | nil => exact List.nodup_nil
  | cons c older ih =>
    unfold ancestry
    split
    · refine List.nodup_cons.mpr ⟨?_, ih _⟩
      intro hmem
      exact Nat.lt_irrefl _ (exists_of_mem_ancestry hmem).1
    · exact ih _

theorem mem_ancestry_iff {h : History} (hs : h.Sound) {new x : CommitId} (hnew : new < h.length) :
    x ∈ h.ancestry [new] ↔ h.Descends new x := by
  constructor
  · intro hx
    obtain ⟨_, y, hy, hd⟩ := exists_of_mem_ancestry hx
    rw [List.mem_singleton] at hy
    exact hy ▸ hd
  · intro hd
    exact mem_ancestry_of hs (Nat.lt_of_le_of_lt (hd.le hs) hnew) (List.mem_singleton_self new) hd

theorem mem_mergeBases_iff {h : History} (hs : h.Sound) {ours theirs b : CommitId}
    (hours : ours < h.length) (htheirs : theirs < h.length) :
    b ∈ h.mergeBases [ours] theirs ↔ h.IsBase ours theirs b := by
  have hcommon (x : CommitId) : x ∈ (h.ancestry [theirs]).filter (h.ancestry [ours]).contains ↔
      h.Descends ours x ∧ h.Descends theirs x := by
    rw [List.mem_filter, List.contains_iff_mem, mem_ancestry_iff hs hours, mem_ancestry_iff hs htheirs]
    exact and_comm
  have hin (c : CommitId) (hb : h.Descends ours b) : h.isIn b c = true ↔ h.Descends c b :=
    isIn_iff hs (Nat.lt_of_le_of_lt (hb.le hs) hours)
  simp only [mergeBases, List.mem_reverse, List.mem_filter (p := fun b => !List.any _ _), hcommon,
    Bool.not_eq_true', List.any_eq_false, Bool.and_eq_true, bne_iff_ne, ne_eq, not_and]
  constructor
  · rintro ⟨⟨hours', htheirs'⟩, hnone⟩
    refine ⟨hours', htheirs', ?_⟩
    intro c hc hc' hd
    by_contra hne
    exact hnone c ⟨hc, hc'⟩ hne ((hin c hours').mpr hd)
  · rintro ⟨hours', htheirs', hlast⟩
    refine ⟨⟨hours', htheirs'⟩, ?_⟩
    intro c hc hne hd
    exact hne (hlast c hc.1 hc.2 ((hin c hours').mp hd))

/-- Where there is one base, it is the only one that is found. -/
theorem mergeBases_eq_singleton {h : History} (hs : h.Sound) {ours theirs base : CommitId}
    (hours : ours < h.length) (htheirs : theirs < h.length)
    (hbase : ∀ b, h.IsBase ours theirs b ↔ b = base) : h.mergeBases [ours] theirs = [base] := by
  have hmem (b : CommitId) : b ∈ h.mergeBases [ours] theirs ↔ b ∈ [base] := by
    rw [mem_mergeBases_iff hs hours htheirs, hbase, List.mem_singleton]
  have hnodup : (h.mergeBases [ours] theirs).Nodup :=
    List.nodup_reverse.mpr (((nodup_ancestry h [theirs]).filter _).filter _)
  have hperm := (List.perm_ext_iff_of_nodup hnodup (List.nodup_singleton base)).mpr hmem
  exact List.perm_singleton.mp hperm

end Chronicle.History
