import Chronicle.Proofs.Merge.Trees

/-!
# Moved files and the paths of a merge

A side moved a file from a path where it has nothing, though the base does, to one where it has a file and
the base has none (`mem_renames`), and no two files were moved from one path or to one
(`nodup_source_renames`, `nodup_target_renames`). So the versions of a merge stand where one of the three
trees has a file, moved or not, and **a merge brings in no new path** (`of_has_mergeTrees`,
`of_has_resolve`), nor do the bases of a merge (`of_has_baseTree`).
-/

namespace Chronicle

/-! ## The paths at which trees differ -/

theorem path_hindered (under : Option Path) (vs : List Versions) :
    (hindered under vs).map (·.path) = vs.map (·.path) := by
  fun_induction hindered under vs <;> simp_all

/-- Being hindered is all that may be said of a version besides. -/
theorem of_mem_hindered {under : Option Path} {vs : List Versions} {v : Versions} (hv : v ∈ hindered under vs) :
    ∃ u ∈ vs, v = { u with hindrance := v.hindrance } := by
  fun_induction hindered under vs with
  | case1 => cases hv
  | case2 u => exact ⟨v, hv, rfl⟩
  | case3 u next rest p ih =>
    rcases List.mem_cons.mp hv with rfl | hv
    · exact ⟨v, List.mem_cons_self, rfl⟩
    · obtain ⟨u', hu', heq⟩ := ih hv
      exact ⟨u', List.mem_cons_of_mem _ hu', heq⟩
  | case4 u next rest habove ih =>
    rcases List.mem_cons.mp hv with rfl | hv
    · exact ⟨u, List.mem_cons_self, rfl⟩
    · obtain ⟨u', hu', heq⟩ := ih hv
      exact ⟨u', List.mem_cons_of_mem _ hu', heq⟩
  | case5 u next rest hnot ih =>
    rcases List.mem_cons.mp hv with rfl | hv
    · exact ⟨v, List.mem_cons_self, rfl⟩
    · obtain ⟨u', hu', heq⟩ := ih hv
      exact ⟨u', List.mem_cons_of_mem _ hu', heq⟩

section

variable {base ours theirs : Tree} {v : Versions}

/-- The versions of three trees at a path where they differ. -/
theorem of_mem_differing (hv : v ∈ differing base ours theirs) :
    v = { Versions.at base ours theirs v.path with hindrance := v.hindrance } ∧
      (Versions.at base ours theirs v.path).differ = true := by
  obtain ⟨u, hu, heq⟩ := of_mem_hindered hv
  obtain ⟨hu, hdiffer⟩ := List.mem_filter.mp hu
  obtain ⟨p, -, rfl⟩ := List.mem_map.mp hu
  have hpath : v.path = p := by rw [heq]
  rw [hpath]
  exact ⟨heq, hdiffer⟩

theorem nodup_path_differing : ((differing base ours theirs).map (·.path)).Nodup := by
  rw [differing, path_hindered]
  refine List.Nodup.sublist (List.filter_sublist.map _) ?_
  rw [List.map_map]
  have hpath : (fun v : Versions => v.path) ∘ Versions.at base ours theirs = id := rfl
  exact hpath ▸ (List.map_id _).symm ▸ Path.nodup_sorted _

theorem mem_path_differing {p : Path} : p ∈ (differing base ours theirs).map (·.path) ↔
    (Versions.at base ours theirs p).differ = true := by
  rw [differing, path_hindered, List.mem_map]
  constructor
  · rintro ⟨v, hv, rfl⟩
    obtain ⟨hv, hdiffer⟩ := List.mem_filter.mp hv
    obtain ⟨p, -, rfl⟩ := List.mem_map.mp hv
    exact hdiffer
  · intro hdiffer
    refine ⟨Versions.at base ours theirs p, List.mem_filter.mpr ⟨List.mem_map.mpr ⟨p, ?_, rfl⟩, hdiffer⟩, rfl⟩
    rw [Path.mem_sorted, List.mem_append, List.mem_append, PathMap.mem_paths, PathMap.mem_paths,
      PathMap.mem_paths, or_assoc]
    exact named_of_differ hdiffer

end

/-! ## Moved files -/

namespace Rename

variable {old new : List (Path × String)} {r : Rename} {rs : List Rename}

/-- A file of `old` became one of `new`. -/
structure Joins (old new : List (Path × String)) (r : Rename) : Prop where
  source : r.source ∈ old.map (·.1)
  target : (r.target, r.content) ∈ new

theorem joins_of_mem_pairAlike (h : r ∈ pairAlike old new) : Joins old new r := by
  fun_induction pairAlike old new with
  | case1 => cases h
  | case2 old target content rest f hf ih =>
    rcases List.mem_cons.mp h with rfl | h
    · exact ⟨List.mem_map_of_mem (List.mem_of_find?_eq_some hf), List.mem_cons_self⟩
    · obtain ⟨hsource, htarget⟩ := ih h
      obtain ⟨e, he, heq⟩ := List.mem_map.mp hsource
      exact ⟨List.mem_map.mpr ⟨e, List.mem_of_mem_erase he, heq⟩, List.mem_cons_of_mem _ htarget⟩
  | case3 old target content rest hnone ih =>
    obtain ⟨hsource, htarget⟩ := ih h
    exact ⟨hsource, List.mem_cons_of_mem _ htarget⟩

theorem joins_of_mem_candidates (h : r ∈ candidates old new) : Joins old new r := by
  obtain ⟨f, hf, h⟩ := List.mem_flatMap.mp h
  obtain ⟨t, ht, rfl⟩ := List.mem_map.mp (List.mem_filter.mp h).1
  exact ⟨List.mem_map_of_mem hf, ht⟩

theorem mem_foldl_propose {found : List Rename} (h : r ∈ rs.foldl propose found) : r ∈ found ∨ r ∈ rs := by
  induction rs generalizing found with
  | nil => exact .inl h
  | cons q rest ih =>
    rcases ih h with hfound | hrest
    · unfold propose at hfound
      split at hfound
      · rcases List.mem_append.mp hfound with hkept | hnew
        · exact .inl (List.mem_filter.mp hkept).1
        · exact .inr (List.mem_cons.mpr (.inl (List.mem_singleton.mp hnew)))
      · exact .inl hfound
    · exact .inr (List.mem_cons_of_mem q hrest)

/-- No two of the files share a place. -/
def Apart (rs : List Rename) : Prop := rs.Pairwise fun a b => rivals a b = false

theorem rivals_comm (a b : Rename) : rivals a b = rivals b a := by
  unfold rivals
  rw [Bool.beq_comm, Bool.beq_comm (a := a.target)]

theorem apart_foldl_propose {found : List Rename} (h : Apart found) (rs : List Rename) :
    Apart (rs.foldl propose found) := by
  induction rs generalizing found with
  | nil => exact h
  | cons q rest ih =>
    apply ih
    unfold propose
    split
    · refine List.pairwise_append.mpr ⟨h.filter _, List.pairwise_singleton _ q, ?_⟩
      intro a ha b hb
      rw [List.mem_singleton.mp hb, rivals_comm]
      simpa using (List.mem_filter.mp ha).2
    · exact h

theorem apart_pairAlike (hold : (old.map (·.1)).Nodup) (hnew : (new.map (·.1)).Nodup) :
    Apart (pairAlike old new) := by
  fun_induction pairAlike old new with
  | case1 => exact .nil
  | case2 old target content rest f hf ih =>
    obtain ⟨htarget, hrest⟩ := List.nodup_cons.mp hnew
    have hmem := List.mem_of_find?_eq_some hf
    have herase : ((old.erase f).map (·.1)).Nodup := hold.sublist ((List.erase_sublist).map _)
    refine .cons ?_ (ih herase hrest)
    intro q hq
    obtain ⟨hsource, hto⟩ := joins_of_mem_pairAlike hq
    have hne : f.1 ≠ q.source := by
      rintro heq
      obtain ⟨e, he, heq'⟩ := List.mem_map.mp hsource
      have hef : e = f := List.inj_on_of_nodup_map hold (List.mem_of_mem_erase he) hmem (heq'.trans heq.symm)
      rw [hef, (List.Nodup.of_map _ hold).mem_erase_iff] at he
      exact he.1 rfl
    have hne' : target ≠ q.target := by
      rintro rfl
      exact htarget (List.mem_map.mpr ⟨_, hto, rfl⟩)
    simp [rivals, hne, hne']
  | case3 old target content rest hnone ih => exact ih hold (List.nodup_cons.mp hnew).2

end Rename

section

variable {side : Side} {vs : List Versions} {r : Rename}

theorem mem_gone {f : Path × String} : f ∈ Rename.gone side vs ↔
    ∃ v ∈ vs, v.on side = none ∧ v.base = some f.2 ∧ v.path = f.1 := by
  simp only [Rename.gone, List.mem_filterMap]
  refine exists_congr fun v => and_congr_right fun _ => ?_
  cases v.on side with
  | none => cases v.base <;> simp [Prod.ext_iff, and_comm]
  | some content => simp

theorem mem_fresh {f : Path × String} : f ∈ Rename.fresh side vs ↔
    ∃ v ∈ vs, v.base = none ∧ v.on side = some f.2 ∧ v.path = f.1 := by
  simp only [Rename.fresh, List.mem_filterMap]
  refine exists_congr fun v => and_congr_right fun _ => ?_
  cases v.base with
  | none => cases v.on side <;> simp [Prod.ext_iff, and_comm]
  | some content => simp

/-- A moved file is gone from a path of the base, and is new where it is. -/
theorem mem_renames (h : r ∈ renames side vs) :
    (∃ u ∈ vs, u.on side = none ∧ u.base ≠ none ∧ u.path = r.source) ∧
      ∃ v ∈ vs, v.base = none ∧ v.on side = some r.content ∧ v.path = r.target := by
  have hjoins : Rename.Joins (Rename.gone side vs) (Rename.fresh side vs) r := by
    unfold renames at h
    dsimp only at h
    split at h
    · rcases Rename.mem_foldl_propose h with h | h
      · exact Rename.joins_of_mem_pairAlike h
      · exact Rename.joins_of_mem_candidates h
    · exact Rename.joins_of_mem_pairAlike h
  obtain ⟨f, hf, hsource⟩ := List.mem_map.mp hjoins.source
  obtain ⟨u, hu, hgone, hbase, hpath⟩ := mem_gone.mp hf
  refine ⟨⟨u, hu, hgone, ?_, hpath.trans hsource⟩, mem_fresh.mp hjoins.target⟩
  rw [hbase]
  exact Option.some_ne_none _

theorem apart_renames (hnodup : (vs.map (·.path)).Nodup) : Rename.Apart (renames side vs) := by
  have hsub (f : Versions → Option (Path × String)) (hf : ∀ v e, f v = some e → e.1 = v.path) :
      ((vs.filterMap f).map (·.1)).Nodup := by
    refine hnodup.sublist ?_
    induction vs with
    | nil => exact .slnil
    | cons v rest ih =>
      have hrest := ih (List.nodup_cons.mp hnodup).2
      cases hv : f v with
      | none =>
        rw [List.filterMap_cons_none hv]
        exact hrest.cons _
      | some e =>
        rw [List.filterMap_cons_some hv, List.map_cons, List.map_cons, hf v e hv]
        exact hrest.cons_cons _
  have halike : Rename.Apart (Rename.pairAlike (Rename.gone side vs) (Rename.fresh side vs)) := by
    apply Rename.apart_pairAlike
    · apply hsub
      intro v e he
      split at he
      · obtain ⟨b, -, rfl⟩ := Option.map_eq_some_iff.mp he
        rfl
      · cases he
    · apply hsub
      intro v e he
      split at he
      · obtain ⟨b, -, rfl⟩ := Option.map_eq_some_iff.mp he
        rfl
      · cases he
  unfold renames
  dsimp only
  split
  · exact Rename.apart_foldl_propose halike _
  · exact halike

theorem nodup_source_renames (hnodup : (vs.map (·.path)).Nodup) : ((renames side vs).map (·.source)).Nodup := by
  refine List.pairwise_map.mpr ((apart_renames hnodup).imp fun hab heq => ?_)
  simp [Rename.rivals, heq] at hab

theorem nodup_target_renames (hnodup : (vs.map (·.path)).Nodup) : ((renames side vs).map (·.target)).Nodup := by
  refine List.pairwise_map.mpr ((apart_renames hnodup).imp fun hab heq => ?_)
  simp [Rename.rivals, heq] at hab

/-! ## The paths of a merge -/

theorem follow_at (moved : List Rename) (p : Path) (content : Option String) :
    (follow moved p content).2 = p ∨ ∃ r ∈ moved, (follow moved p content).2 = r.target := by
  unfold follow
  split
  · rename_i r hr
    exact .inr ⟨r, List.mem_of_find?_eq_some hr, rfl⟩
  · exact .inl rfl

/-- A version that moved files were followed in stands where one of them stood. -/
theorem of_mem_followed {v : Versions} {P : Path → Prop} (hP : ∀ u ∈ vs, P u.path) (hv : v ∈ followed vs) :
    P v.path ∧ P v.oursAt ∧ P v.theirsAt := by
  obtain ⟨u, hu, rfl⟩ := List.mem_map.mp hv
  have hat (side : Side) (content : Option String) : P (follow (renames side vs) u.path content).2 := by
    rcases follow_at (renames side vs) u.path content with heq | ⟨r, hr, heq⟩
    · rw [heq]
      exact hP u hu
    · obtain ⟨-, t, ht, -, -, htarget⟩ := mem_renames hr
      rw [heq, ← htarget]
      exact hP t ht
  exact ⟨hP u hu, hat .ours u.ours, hat .theirs u.theirs⟩

theorem of_mem_conflictAt {P : Path → Prop} (hP : ∀ v ∈ vs, P v.path ∧ P v.oursAt ∧ P v.theirsAt) {c : Conflict}
    (hc : c ∈ Conflict.at vs) : P c.path := by
  obtain ⟨p, hp, rfl⟩ := List.mem_map.mp hc
  obtain ⟨v, hv, hp⟩ := List.mem_flatMap.mp (Path.mem_sorted.mp hp)
  obtain ⟨hpath, hours, htheirs⟩ := hP v hv
  simp only [List.mem_append, Option.mem_toList, Option.map_eq_some_iff] at hp
  rcases hp with (⟨_, -, rfl⟩ | ⟨_, -, rfl⟩) | ⟨_, -, rfl⟩
  · exact hpath
  · exact hours
  · exact htheirs

end

section

variable {base ours theirs : Tree} {P : Path → Prop}

/-- **A merge brings in no new path**, neither of a file nor of a conflict. -/
theorem of_has_mergeTrees (favor : Option Side) (within : Bool) (hbase : ∀ p, base.has p = true → P p)
    (hours : ∀ p, ours.has p = true → P p) (htheirs : ∀ p, theirs.has p = true → P p) :
    (∀ p, (mergeTrees favor within base ours theirs).files.has p = true → P p) ∧
      ∀ c ∈ (mergeTrees favor within base ours theirs).conflicts, P c.path := by
  have hdiffering : ∀ v ∈ differing base ours theirs, P v.path := by
    intro v hv
    rcases named_of_differ (of_mem_differing hv).2 with h | h | h
    · exact hbase _ h
    · exact hours _ h
    · exact htheirs _ h
  have hfollowed : ∀ v ∈ followed (differing base ours theirs), P v.path ∧ P v.oursAt ∧ P v.theirsAt :=
    fun v hv => of_mem_followed hdiffering hv
  constructor
  · intro p hp
    dsimp only [mergeTrees] at hp
    rw [PathMap.has_restrict, Bool.and_eq_true] at hp
    -- what is put among our files stands where a version does
    have hput {vs : List Versions} {files : Tree} (hvs : ∀ v ∈ vs, P v.path ∧ P v.oursAt ∧ P v.theirsAt)
        (hfiles : ∀ p, files.has p = true → P p) (p : Path)
        (hp : (vs.foldl (fun files v => v.put favor within files) files).has p = true) : P p := by
      induction vs generalizing files with
      | nil => exact hfiles p hp
      | cons v rest ih =>
        obtain ⟨hv, hrest⟩ := List.forall_mem_cons.mp hvs
        refine ih hrest ?_ hp
        intro q hq
        have hq : (v.put favor within files).has q = true := hq
        unfold Versions.put at hq
        split at hq
        · rw [PathMap.has_insert, Bool.or_eq_true, beq_iff_eq] at hq
          rcases hq with rfl | hq
          · unfold Versions.place
            split
            · exact hv.2.2
            · exact hv.2.1
          · exact hfiles q hq
        · exact hfiles q hq
    refine hput hfollowed ?_ p hp.2
    intro q hq
    rw [PathMap.has_restrict, Bool.and_eq_true] at hq
    exact hours q hq.2
  · intro c hc
    exact of_mem_conflictAt (fun v hv => hfollowed v (List.mem_filter.mp hv).1) hc

/-- Nor does settling its conflicts. -/
theorem of_has_resolve {m : MergeIndex} {policy : Policy} {text : String} {merged : Tree}
    (hfiles : ∀ p, m.files.has p = true → P p) (hconflicts : ∀ c ∈ m.conflicts, P c.path)
    (h : m.resolve policy text = .ok merged) : ∀ p, merged.has p = true → P p := by
  have hsettle (side : Side) : ∀ p, (m.settleAll side).has p = true → P p := by
    unfold MergeIndex.settleAll
    generalize m.files = files at hfiles
    generalize m.conflicts = conflicts at hconflicts
    induction conflicts generalizing files with
    | nil => exact hfiles
    | cons c rest ih =>
      obtain ⟨hc, hrest⟩ := List.forall_mem_cons.mp hconflicts
      refine ih _ ?_ hrest
      intro p hp
      unfold MergeIndex.settle at hp
      split at hp
      · rw [PathMap.displace, PathMap.has_insert, Bool.or_eq_true, beq_iff_eq, PathMap.has_restrict,
          Bool.and_eq_true] at hp
        rcases hp with rfl | hp
        · exact hc
        · exact hfiles p hp.2
      · exact hfiles p hp
  have hlowest {files : Tree} (hfiles : ∀ p, files.has p = true → P p) (p : Path)
      (hp : files.lowest.has p = true) : P p := by
    rw [PathMap.lowest, PathMap.has_restrict, Bool.and_eq_true] at hp
    exact hfiles p hp.2
  unfold MergeIndex.resolve at h
  split at h
  · cases h
    exact hlowest (hsettle .theirs)
  · cases h
    exact hlowest (hsettle .ours)
  · split at h
    · cases h
      exact hlowest hfiles
    · cases h

/-- Nor do the bases of a merge. -/
theorem of_has_baseTree {h : History} (hh : ∀ id p, (h.tree id).has p = true → P p) (favor : Option Side)
    (fuel : Nat) (bases : List CommitId) : ∀ p, (baseTree h favor fuel bases).has p = true → P p := by
  induction fuel generalizing bases with
  | zero =>
    rcases bases with _ | ⟨b, _ | ⟨b', rest⟩⟩
    · intro p hp
      cases hp
    · exact hh b
    · exact hh b
  | succ fuel ih =>
    rcases bases with _ | ⟨b, _ | ⟨b', rest⟩⟩
    · intro p hp
      cases hp
    · exact hh b
    · unfold baseTree
      generalize b' :: rest = others
      have hfold (found : List CommitId × Tree) (hfound : ∀ p, found.2.has p = true → P p) :
          ∀ p, ((others.foldl (fun (found : List CommitId × Tree) m =>
            let base := baseTree h favor fuel (h.mergeBases found.1 m)
            (found.1 ++ [m], (mergeTrees favor true base found.2 (h.tree m)).files)) found).2).has p = true →
              P p := by
        induction others generalizing found with
        | nil => exact hfound
        | cons m others ih' =>
          exact ih' _ (of_has_mergeTrees favor true (ih _) hfound (hh m)).1
      exact hfold ([b], h.tree b) (hh b)

end

end Chronicle
