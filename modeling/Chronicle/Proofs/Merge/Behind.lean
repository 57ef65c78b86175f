import Chronicle.Proofs.Merge.Moved

/-!
# Merging into the base

Where our side is the base itself, only the other side changed anything, and **the merge has their files,
without a conflict** (`mergeTrees_behind`), whatever the policy (`resolve_behind`). A file that they moved
comes to where they have it: it is merged at its old place and put at the new one, and what the new place
had is nothing (`Versions.settles_behind`).
-/

namespace Chronicle

/-- Versions are hindered only by others that are written too. -/
theorem hindered_eq_of_written {vs : List Versions}
    (h : ∀ v ∈ vs, ∀ v' ∈ vs, v.isWritten = true → v'.isWritten = true → Path.above v.path v'.path = false) :
    hindered none vs = vs := by
  induction vs with
  | nil => rfl
  | cons v rest ih =>
    cases rest with
    | nil => rfl
    | cons next rest =>
      have hrest := ih fun v hv v' hv' => h v (List.mem_cons_of_mem _ hv) v' (List.mem_cons_of_mem _ hv')
      have hnot : (v.isWritten && next.isWritten && Path.above v.path next.path) = false := by
        apply Bool.eq_false_iff.mpr
        intro hall
        simp only [Bool.and_eq_true] at hall
        rw [h v List.mem_cons_self next (List.mem_cons_of_mem _ List.mem_cons_self) hall.1.1 hall.1.2] at hall
        exact Bool.false_ne_true hall.2
      simp only [hindered, hnot, Bool.false_eq_true, if_false, hrest]

section

variable {base theirs : Tree} (hlevel : ∀ p q, theirs.has p = true → theirs.has q = true → Path.above p q = false)

include hlevel

theorem mem_differing_behind {v : Versions} : v ∈ differing base base theirs ↔
    v = Versions.at base base theirs v.path ∧ v.differ = true := by
  have hunhindered : differing base base theirs =
      ((Path.sorted (base.paths ++ base.paths ++ theirs.paths)).map (Versions.at base base theirs)).filter
        Versions.differ := by
    apply hindered_eq_of_written
    intro v hv v' hv' hwritten hwritten'
    obtain ⟨p, -, rfl⟩ := List.mem_map.mp (List.mem_filter.mp hv).1
    obtain ⟨q, -, rfl⟩ := List.mem_map.mp (List.mem_filter.mp hv').1
    -- only their side can have written
    have htheirs {p : Path} (h : (Versions.at base base theirs p).isWritten = true) : theirs.has p = true := by
      simp only [Versions.isWritten, Versions.at, bne_self_eq_false, Bool.and_false, Bool.false_or,
        Bool.and_eq_true] at h
      exact h.1
    exact hlevel p q (htheirs hwritten) (htheirs hwritten')
  rw [hunhindered, List.mem_filter, List.mem_map]
  constructor
  · rintro ⟨⟨p, -, rfl⟩, hdiffer⟩
    exact ⟨rfl, hdiffer⟩
  · rintro ⟨hv, hdiffer⟩
    refine ⟨⟨v.path, ?_, hv.symm⟩, hdiffer⟩
    rw [hv] at hdiffer
    rw [Path.mem_sorted, List.mem_append, List.mem_append, PathMap.mem_paths, PathMap.mem_paths, or_assoc]
    exact named_of_differ hdiffer

/-- A side that is the base moved nothing. -/
theorem renames_ours_behind : renames .ours (differing base base theirs) = [] := by
  apply List.eq_nil_iff_forall_not_mem.mpr
  intro r hr
  obtain ⟨⟨u, hu, hgone, hbase, -⟩, -⟩ := mem_renames hr
  rw [((mem_differing_behind hlevel).mp hu).1] at hgone hbase
  exact hbase hgone

/-- A file that they moved is in the base at its old place, and theirs at the new one. -/
theorem mem_renames_behind {r : Rename} (hr : r ∈ renames .theirs (differing base base theirs)) :
    base.get? r.source ≠ none ∧ theirs.get? r.source = none ∧ base.get? r.target = none ∧
      theirs.get? r.target = some r.content := by
  obtain ⟨⟨u, hu, hgone, hbase, hsource⟩, t, ht, hfresh, hcontent, htarget⟩ := mem_renames hr
  rw [((mem_differing_behind hlevel).mp hu).1] at hgone hbase
  rw [((mem_differing_behind hlevel).mp ht).1] at hfresh hcontent
  rw [← hsource, ← htarget]
  exact ⟨hbase, hgone, hfresh, hcontent⟩

theorem crossings_behind :
    crossings [] (renames .theirs (differing base base theirs)) (differing base base theirs) = [] := by
  apply List.flatMap_eq_nil_iff.mpr
  intro v hv
  dsimp only [List.find?_nil]
  cases hfound : (renames .theirs (differing base base theirs)).find? (·.target == v.path) with
  | none => rfl
  | some r =>
    -- the place of a moved file was empty on our side
    have htarget : r.target = v.path := by simpa using List.find?_some hfound
    have hnone := (mem_renames_behind hlevel (List.mem_of_find?_eq_some hfound)).2.2.1
    have hours : v.ours = none := by
      rw [((mem_differing_behind hlevel).mp hv).1]
      exact htarget ▸ hnone
    simp [crossing, hours]

/-- What base and side have at a path, and what the other side has of the file and where. -/
def Versions.behind (base : Tree) (p : Path) (found : Option String × Path) : Versions :=
  { path := p, base := base.get? p, ours := base.get? p, theirs := found.1, theirsAt := found.2 }

/-- Only the other side may have moved the file of a version. -/
theorem mem_followed_behind {u : Versions} : u ∈ followed (differing base base theirs) ↔
    ∃ p, (Versions.at base base theirs p).differ = true ∧ u = Versions.behind base p
      (follow (renames .theirs (differing base base theirs)) p (theirs.get? p)) := by
  simp only [followed, renames_ours_behind hlevel, crossings_behind hlevel, List.mem_map]
  constructor
  · rintro ⟨v, hv, rfl⟩
    obtain ⟨heq, hdiffer⟩ := (mem_differing_behind hlevel).mp hv
    refine ⟨v.path, heq ▸ hdiffer, ?_⟩
    rw [heq]
    rfl
  · rintro ⟨p, hdiffer, rfl⟩
    exact ⟨Versions.at base base theirs p, (mem_differing_behind hlevel).mpr ⟨rfl, hdiffer⟩, rfl⟩

omit hlevel in
/-- A version that only the other side changed comes to what that side has, where it has it. -/
theorem Versions.merge_behind (base : Tree) (favor : Option Side) (within : Bool) (p : Path)
    (found : Option String × Path) (hmoved : found.2 ≠ p → base.get? p ≠ none ∧ found.1 ≠ none) :
    (behind base p found).merge favor within = some found.1 ∧ (behind base p found).place = found.2 := by
  have hplace : (behind base p found).place = found.2 := if_pos rfl
  have hbarred : (behind base p found).isBarred = false := by
    unfold isBarred isMoved
    rw [hplace]
    split
    · rename_i hne
      obtain ⟨hours, htheirs⟩ := hmoved (bne_iff_ne.mp hne)
      rw [← Option.isSome_iff_ne_none] at hours htheirs
      simp [behind, hours, htheirs]
    · rfl
  refine ⟨?_, hplace⟩
  unfold Versions.merge
  rw [hbarred]
  by_cases heq : found.1 = base.get? p
  · simp [behind, heq]
  · simp [behind, heq, Ne.symm heq]

variable (favor : Option Side) (within : Bool)

/-- What comes of a version that their side alone changed, is theirs. -/
theorem Versions.settles_behind {u : Versions} (hu : u ∈ followed (differing base base theirs)) :
    ∃ found, u.merge favor within = some found ∧
      ∀ content, found = some content → theirs.get? u.place = some content := by
  obtain ⟨p, -, rfl⟩ := (mem_followed_behind hlevel).mp hu
  unfold follow
  cases hmoved : (renames .theirs (differing base base theirs)).find? (·.source == p) with
  | some r =>
    -- a file that they moved
    have hsource : r.source = p := by simpa using List.find?_some hmoved
    obtain ⟨hbase, -, -, htarget⟩ := mem_renames_behind hlevel (List.mem_of_find?_eq_some hmoved)
    have hsome : base.get? p ≠ none := hsource ▸ hbase
    obtain ⟨hmerge, hplace⟩ := Versions.merge_behind base favor within p (some r.content, r.target)
      fun _ => ⟨hsome, Option.some_ne_none _⟩
    refine ⟨_, hmerge, fun content hcontent => ?_⟩
    rw [hplace, htarget, ← hcontent]
  | none =>
    obtain ⟨hmerge, hplace⟩ := Versions.merge_behind base favor within p
      (if (renames .theirs (differing base base theirs)).any (·.target == p) then none else theirs.get? p, p)
      fun hne => absurd rfl hne
    refine ⟨_, hmerge, fun content hcontent => ?_⟩
    rw [hplace]
    dsimp only at hcontent ⊢
    split at hcontent
    · cases hcontent
    · exact hcontent

/-- Every file that they have and the base has not like this comes of some version. -/
theorem Versions.exists_behind {p : Path} (hdiffer : (Versions.at base base theirs p).differ = true)
    {content : String} (hp : theirs.get? p = some content) :
    ∃ u ∈ followed (differing base base theirs), u.merge favor within = some (some content) ∧ u.place = p := by
  by_cases hmoved : ∃ r ∈ renames .theirs (differing base base theirs), r.target = p
  · -- it was moved to its place
    obtain ⟨r, hr, rfl⟩ := hmoved
    obtain ⟨hbase, hgone, -, htarget⟩ := mem_renames_behind hlevel hr
    have hdiffer' : (Versions.at base base theirs r.source).differ = true := by
      unfold Versions.differ
      rw [Bool.or_eq_true, bne_iff_ne, bne_iff_ne]
      right
      show base.get? r.source ≠ theirs.get? r.source
      rw [hgone]
      exact hbase
    have hfound : (renames .theirs (differing base base theirs)).find? (·.source == r.source) = some r :=
      find?_of_mem Rename.source (nodup_source_renames nodup_path_differing) hr
    obtain ⟨hmerge, hplace⟩ := Versions.merge_behind base favor within r.source
      (some r.content, r.target) fun _ => ⟨hbase, Option.some_ne_none _⟩
    refine ⟨_, (mem_followed_behind hlevel).mpr ⟨r.source, hdiffer', rfl⟩, ?_⟩
    unfold follow
    rw [hfound]
    rw [htarget] at hp
    exact ⟨hmerge.trans (congrArg some hp), hplace⟩
  · -- it is changed or new where it is
    have hstays : (renames .theirs (differing base base theirs)).find? (·.source == p) = none := by
      rw [List.find?_eq_none]
      intro r hr heq
      have hgone := (mem_renames_behind hlevel hr).2.1
      rw [beq_iff_eq.mp heq, hp] at hgone
      cases hgone
    have hnone : (renames .theirs (differing base base theirs)).any (·.target == p) = false := by
      rw [List.any_eq_false]
      intro r hr heq
      exact hmoved ⟨r, hr, beq_iff_eq.mp heq⟩
    obtain ⟨hmerge, hplace⟩ := Versions.merge_behind base favor within p (theirs.get? p, p)
      fun hne => absurd rfl hne
    refine ⟨_, (mem_followed_behind hlevel).mpr ⟨p, hdiffer, rfl⟩, ?_⟩
    unfold follow
    rw [hstays, hnone]
    exact ⟨hmerge.trans (congrArg some hp), hplace⟩

omit hlevel in
/-- Versions that each come to what a tree has where they stand make up that tree, wherever it was not
there before. -/
theorem get?_foldl_put_of {us : List Versions} (hus : ∀ u ∈ us, ∀ content,
    u.merge favor within = some (some content) → theirs.get? u.place = some content) {files : Tree} {p : Path}
    (hp : files.get? p = theirs.get? p ∨
      ∃ u ∈ us, (∃ content, u.merge favor within = some (some content)) ∧ u.place = p) :
    (us.foldl (fun files u => u.put favor within files) files).get? p = theirs.get? p := by
  induction us generalizing files with
  | nil => exact hp.resolve_right fun ⟨u, hu, _⟩ => absurd hu List.not_mem_nil
  | cons u rest ih =>
    obtain ⟨hu, hrest⟩ := List.forall_mem_cons.mp hus
    refine ih hrest ?_
    show (u.put favor within files).get? p = theirs.get? p ∨ _
    unfold Versions.put
    split
    · rename_i content hmerge
      rw [PathMap.get?_insert]
      by_cases heq : p = u.place
      · rw [if_pos heq, heq, hu content hmerge]
        exact .inl rfl
      · rw [if_neg heq]
        refine hp.imp_right ?_
        rintro ⟨u', hu', hmerge', hplace⟩
        rcases List.mem_cons.mp hu' with rfl | hu'
        · exact absurd hplace.symm heq
        · exact ⟨u', hu', hmerge', hplace⟩
    · rename_i hnone
      refine hp.imp_right ?_
      rintro ⟨u', hu', ⟨content, hmerge⟩, hplace⟩
      rcases List.mem_cons.mp hu' with rfl | hu'
      · exact absurd hmerge (hnone content)
      · exact ⟨u', hu', ⟨content, hmerge⟩, hplace⟩

/-- **Merging into the base gives the other side's files**, and no conflict. -/
theorem mergeTrees_behind : (mergeTrees favor within base base theirs).conflicts = [] ∧
    ∀ p, (mergeTrees favor within base base theirs).files.get? p = theirs.get? p := by
  have hsettled : (followed (differing base base theirs)).filter (fun u => (u.merge favor within).isNone) = [] := by
    rw [List.filter_eq_nil_iff]
    intro u hu
    obtain ⟨found, hmerge, -⟩ := Versions.settles_behind hlevel favor within hu
    simp [hmerge]
  dsimp only [mergeTrees]
  rw [hsettled]
  have hnone : Conflict.at [] = [] := by simp [Conflict.at, Path.sorted]
  rw [hnone]
  refine ⟨rfl, fun p => ?_⟩
  rw [PathMap.get?_restrict, List.any_nil, Bool.not_false, if_pos rfl]
  apply get?_foldl_put_of favor within
  · intro u hu content hmerge
    obtain ⟨found, hmerge', hfound⟩ := Versions.settles_behind hlevel favor within hu
    rw [hmerge] at hmerge'
    exact hfound content (Option.some.inj hmerge').symm
  · have hchanged : ((differing base base theirs).any fun v => v.path == p) = true ↔
        (Versions.at base base theirs p).differ = true := by
      rw [← mem_path_differing, List.any_eq_true, List.mem_map]
      exact exists_congr fun v => and_congr_right fun _ => beq_iff_eq
    rw [PathMap.get?_restrict]
    by_cases hdiffer : (Versions.at base base theirs p).differ = true
    · rw [hchanged.mpr hdiffer]
      cases hp : theirs.get? p with
      | none => exact .inl rfl
      | some content =>
        obtain ⟨u, hu, hmerge, hplace⟩ := Versions.exists_behind hlevel favor within hdiffer hp
        exact .inr ⟨u, hu, ⟨content, hmerge⟩, hplace⟩
    · left
      rw [Bool.eq_false_iff.mpr fun h => hdiffer (hchanged.mp h)]
      simp only [Versions.differ, Versions.at, bne_self_eq_false, Bool.false_or, bne_iff_ne, ne_eq,
        not_not] at hdiffer
      simpa using hdiffer

variable (base) in
/-- No policy has anything to settle then. -/
theorem resolve_behind (policy : Policy) (text : String) :
    ∃ merged, (mergeTrees favor within base base theirs).resolve policy text = .ok merged ∧
      ∀ p, merged.get? p = theirs.get? p := by
  obtain ⟨hnone, hfiles⟩ := mergeTrees_behind hlevel favor within
  have hsettle (side : Side) : (mergeTrees favor within base base theirs).settleAll side =
      (mergeTrees favor within base base theirs).files := by
    rw [MergeIndex.settleAll, hnone, List.foldl_nil]
  have hhas (p : Path) : (mergeTrees favor within base base theirs).files.has p = theirs.has p := by
    rw [PathMap.has, hfiles, PathMap.has]
  refine ⟨(mergeTrees favor within base base theirs).files.lowest, ?_, ?_⟩
  · unfold MergeIndex.resolve
    cases policy with
    | fail => simp [hnone]
    | ours => simp [hsettle]
    | theirs => simp [hsettle]
  · intro p
    rw [get?_lowest, hfiles]
    intro p q hp hq
    rw [hhas] at hp hq
    exact hlevel p q hp hq

end

end Chronicle
