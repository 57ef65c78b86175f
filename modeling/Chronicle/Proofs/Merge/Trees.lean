import Chronicle.Merge.Trees
import Chronicle.Proofs.FileTree.Paths
import Chronicle.Proofs.Merge.Replaced
import Mathlib.Data.List.Nodup

/-!
# Merging trees in favour of a side

Conflicts that are settled one after the other are settled at every path at once (`get?_foldl_settle`).

Three trees are merged path by path if no file of one stands where another has a directory (`Level`) and
no file was moved. The versions at a path are settled, or they are a conflict at that path and nowhere
else (`mem_conflicts`); settling it in favour of a side changes no other path
(`get?_foldl_settle_level`). **So the merge has at every path what its versions there come to**
(`get?_mergeTrees`), and when theirs win that is what `TheirsWin` says (`Versions.won_theirs`).
-/

namespace Chronicle

/-! ## Trees that fit together -/

/-- Whether one of three trees has a file at a path. -/
def Named (base ours theirs : Tree) (p : Path) : Prop :=
  base.has p = true ∨ ours.has p = true ∨ theirs.has p = true

/-- No file of one of three trees stands where one of them has a directory. -/
def Level (base ours theirs : Tree) : Prop :=
  ∀ p q, Named base ours theirs p → Named base ours theirs q → Path.above p q = false

/-- What three trees have at a path. -/
def Versions.at (base ours theirs : Tree) (p : Path) : Versions :=
  { path := p, base := base.get? p, ours := ours.get? p, theirs := theirs.get? p }

/-- Whether a base and two sides are not all alike. -/
def Versions.differ (v : Versions) : Bool := v.base != v.ours || v.base != v.theirs

variable {base ours theirs : Tree}

theorem named_of_differ {p : Path} (h : (Versions.at base ours theirs p).differ = true) :
    Named base ours theirs p := by
  unfold Named PathMap.has
  simp only [Versions.differ, Versions.at, Bool.or_eq_true, bne_iff_ne] at h
  cases hb : base.get? p with
  | some a => exact .inl rfl
  | none =>
    right
    rw [hb] at h
    rcases h with h | h
    · exact .inl (Option.isSome_iff_ne_none.mpr h.symm)
    · exact .inr (Option.isSome_iff_ne_none.mpr h.symm)

theorem hindered_eq {vs : List Versions} (h : ∀ v ∈ vs, ∀ v' ∈ vs, Path.above v.path v'.path = false) :
    hindered none vs = vs := by
  induction vs with
  | nil => rfl
  | cons v rest ih =>
    cases rest with
    | nil => rfl
    | cons next rest =>
      have hrest := ih fun v hv v' hv' => h v (List.mem_cons_of_mem _ hv) v' (List.mem_cons_of_mem _ hv')
      have habove : Path.above v.path next.path = false :=
        h v List.mem_cons_self next (List.mem_cons_of_mem _ List.mem_cons_self)
      simp only [hindered, habove, Bool.and_false, Bool.false_eq_true, if_false, hrest]

/-- Where nothing is hindered, the versions that differ are those of the paths at which the trees do. -/
theorem differing_eq (hl : Level base ours theirs) : differing base ours theirs =
    ((Path.sorted (base.paths ++ ours.paths ++ theirs.paths)).map (Versions.at base ours theirs)).filter
      Versions.differ := by
  apply hindered_eq
  intro v hv v' hv'
  obtain ⟨hv, hd⟩ := List.mem_filter.mp hv
  obtain ⟨hv', hd'⟩ := List.mem_filter.mp hv'
  obtain ⟨p, _, rfl⟩ := List.mem_map.mp hv
  obtain ⟨q, _, rfl⟩ := List.mem_map.mp hv'
  exact hl p q (named_of_differ hd) (named_of_differ hd')

theorem mem_differing (hl : Level base ours theirs) {v : Versions} : v ∈ differing base ours theirs ↔
    v = Versions.at base ours theirs v.path ∧ v.differ = true := by
  rw [differing_eq hl, List.mem_filter, List.mem_map]
  constructor
  · rintro ⟨⟨p, _, rfl⟩, hd⟩
    exact ⟨rfl, hd⟩
  · rintro ⟨hv, hd⟩
    refine ⟨⟨v.path, ?_, hv.symm⟩, hd⟩
    rw [Path.mem_sorted, List.mem_append, List.mem_append, PathMap.mem_paths, PathMap.mem_paths,
      PathMap.mem_paths, or_assoc]
    rw [hv] at hd
    exact named_of_differ hd

theorem nodup_differing (hl : Level base ours theirs) :
    ((differing base ours theirs).map (·.path)).Nodup := by
  rw [differing_eq hl]
  refine List.Nodup.sublist (List.filter_sublist.map _) ?_
  rw [List.map_map]
  have hpath : (fun v : Versions => v.path) ∘ Versions.at base ours theirs = id := rfl
  rw [hpath, List.map_id]
  exact Path.nodup_sorted _

/-! ## Without moved files -/

/-- A version is settled where it stands. -/
structure Versions.Plain (v : Versions) : Prop where
  oursAt : v.oursAt = v.path
  theirsAt : v.theirsAt = v.path
  hindrance : v.hindrance = none

theorem Versions.plain_at (p : Path) : (Versions.at base ours theirs p).Plain := ⟨rfl, rfl, rfl⟩

theorem crossings_nil (vs : List Versions) : crossings [] [] vs = [] := by
  simp [crossings]

theorem followed_eq {vs : List Versions} (hplain : ∀ v ∈ vs, v.Plain)
    (hmoved : ∀ side, renames side vs = []) : followed vs = vs := by
  unfold followed
  dsimp only
  rw [hmoved .ours, hmoved .theirs, crossings_nil]
  conv_rhs => rw [← List.map_id vs]
  apply List.map_congr_left
  intro v hv
  obtain ⟨hours, htheirs, _⟩ := hplain v hv
  obtain ⟨path, base, ours, theirs, oursAt, theirsAt, hindrance⟩ := v
  cases hours
  cases htheirs
  rfl

theorem Versions.Plain.place {v : Versions} (hv : v.Plain) : v.place = v.path := by
  unfold Versions.place
  rw [if_pos hv.oursAt, hv.theirsAt]

/-! ## What comes of a version -/

theorem mergeTexts_favor (side : Side) (base ours theirs : String) :
    ∃ text, mergeTexts (some side) base ours theirs = some ⟨text, false⟩ := by
  unfold mergeTexts
  split
  · exact ⟨_, rfl⟩
  · exact ⟨_, rfl⟩

/-- A plain version is a conflict when both sides changed the file and one of them has it no more. -/
theorem Versions.Plain.merge {v : Versions} (hv : v.Plain) (side : Side) :
    v.merge (some side) false =
      if v.ours = v.theirs ∨ v.theirs = v.base then some v.ours
      else if v.ours = v.base then some v.theirs
      else
        match v.ours, v.theirs with
        | some a, some b => some ((mergeTexts (some side) (v.base.getD "") a b).map (·.text))
        | _, _ => none := by
  have hbarred : v.isBarred = false := by
    simp [Versions.isBarred, Versions.isMoved, hv.place, hv.hindrance]
  have hapart : v.isApart = false := by
    simp [Versions.isApart, hv.hindrance, hv.oursAt]
  unfold Versions.merge
  simp only [hbarred, hapart, Bool.false_eq_true, if_false, Bool.or_eq_true, decide_eq_true_eq]
  split
  · rfl
  · split
    · rfl
    · cases v.ours with
      | none => rfl
      | some a =>
        cases v.theirs with
        | none => rfl
        | some b =>
          obtain ⟨text, htext⟩ := mergeTexts_favor side (v.base.getD "") a b
          simp [htext]

/-! ## Conflicts -/

section Keyed

variable {α : Type} (key : α → Path) {l : List α} {a : α}

theorem find?_of_mem (hnodup : (l.map key).Nodup) (ha : a ∈ l) :
    (l.find? fun b => key b == key a) = some a := by
  induction l with
  | nil => cases ha
  | cons b rest ih =>
    obtain ⟨hb, hrest⟩ := List.nodup_cons.mp hnodup
    rcases List.mem_cons.mp ha with rfl | ha
    · simp
    · have hne : key b ≠ key a := fun heq => hb (heq ▸ List.mem_map_of_mem ha)
      rw [List.find?_cons, beq_eq_false_iff_ne.mpr hne]
      exact ih hrest ha

theorem find?_of_not_mem {p : Path} (h : p ∉ l.map key) : (l.find? fun b => key b == p) = none := by
  rw [List.find?_eq_none]
  intro b hb heq
  exact h (beq_iff_eq.mp heq ▸ List.mem_map_of_mem hb)

theorem findSome?_of_mem {β : Type} (g : α → Option β) (hnodup : (l.map key).Nodup) (ha : a ∈ l) :
    (l.findSome? fun b => if key b = key a then g b else none) = g a := by
  induction l with
  | nil => cases ha
  | cons b rest ih =>
    obtain ⟨hb, hrest⟩ := List.nodup_cons.mp hnodup
    rcases List.mem_cons.mp ha with rfl | ha
    · rw [List.findSome?_cons, if_pos rfl]
      cases hg : g a with
      | some x => rfl
      | none =>
        apply List.findSome?_eq_none_iff.mpr
        intro c hc
        refine if_neg fun heq => hb ?_
        rw [← heq]
        exact List.mem_map_of_mem hc
    · have hne : key b ≠ key a := fun heq => hb (heq ▸ List.mem_map_of_mem ha)
      rw [List.findSome?_cons, if_neg hne]
      exact ih hrest ha

end Keyed

/-- What a version is as a conflict. -/
def Versions.conflict (v : Versions) : Conflict := ⟨v.path, v.base, v.ours, v.theirs⟩

/-- Plain versions that are not settled, and that someone has, are one conflict each. -/
theorem mem_conflictAt {us : List Versions} (hplain : ∀ v ∈ us, v.Plain) (hnodup : (us.map (·.path)).Nodup)
    (hsome : ∀ v ∈ us, v.ours ≠ none ∨ v.theirs ≠ none) {c : Conflict} :
    c ∈ Conflict.at us ↔ ∃ v ∈ us, c = v.conflict := by
  -- at its path a version finds itself, whichever side is looked for
  have hversion (v : Versions) (hv : v ∈ us) : v.conflict =
      { path := v.path
        base := us.findSome? fun u => if u.path = v.path then u.base else none
        ours := us.findSome? fun u => if u.oursAt = v.path then u.ours else none
        theirs := us.findSome? fun u => if u.theirsAt = v.path then u.theirs else none } := by
    have hours : us.map (·.oursAt) = us.map (·.path) :=
      List.map_congr_left fun u hu => (hplain u hu).oursAt
    have htheirs : us.map (·.theirsAt) = us.map (·.path) :=
      List.map_congr_left fun u hu => (hplain u hu).theirsAt
    have hfound := findSome?_of_mem (·.oursAt) (·.ours) (hours ▸ hnodup) hv
    have hfound' := findSome?_of_mem (·.theirsAt) (·.theirs) (htheirs ▸ hnodup) hv
    rw [(hplain v hv).oursAt] at hfound
    rw [(hplain v hv).theirsAt] at hfound'
    rw [findSome?_of_mem (·.path) (·.base) hnodup hv, hfound, hfound']
    rfl
  simp only [Conflict.at, List.mem_map, Path.mem_sorted, List.mem_flatMap]
  constructor
  · rintro ⟨p, ⟨v, hv, hp⟩, rfl⟩
    obtain ⟨hours, htheirs, _⟩ := hplain v hv
    have hpath : p = v.path := by
      rw [hours, htheirs] at hp
      simp only [List.mem_append, Option.mem_toList, Option.map_eq_some_iff, exists_and_right] at hp
      rcases hp with (⟨_, hp⟩ | ⟨_, hp⟩) | ⟨_, hp⟩ <;> exact hp.symm
    subst hpath
    exact ⟨v, hv, (hversion v hv).symm⟩
  · rintro ⟨v, hv, rfl⟩
    refine ⟨v.path, ⟨v, hv, ?_⟩, (hversion v hv).symm⟩
    obtain ⟨hours, htheirs, _⟩ := hplain v hv
    rw [hours, htheirs]
    rcases hsome v hv with h | h
    · obtain ⟨a, ha⟩ := Option.ne_none_iff_exists'.mp h
      simp [ha]
    · obtain ⟨a, ha⟩ := Option.ne_none_iff_exists'.mp h
      simp [ha]

theorem nodup_conflictAt (us : List Versions) : ((Conflict.at us).map (·.path)).Nodup := by
  unfold Conflict.at
  rw [List.map_map]
  exact (List.map_id _).symm ▸ Path.nodup_sorted _

/-! ## Files -/

/-- Puts what comes of a version among some files. -/
def Versions.put (favor : Option Side) (within : Bool) (files : Tree) (v : Versions) : Tree :=
  match v.merge favor within with
  | some (some content) => files.insert v.place content
  | _ => files

theorem Versions.Plain.get?_put {v : Versions} (hv : v.Plain) (favor : Option Side) (within : Bool)
    (files : Tree) (p : Path) : (v.put favor within files).get? p =
      if p = v.path then (v.merge favor within).join.or (files.get? p) else files.get? p := by
  unfold Versions.put
  rcases v.merge favor within with _ | _ | content
  · simp
  · simp
  · simp [PathMap.get?_insert, hv.place]

theorem get?_foldl_put {vs : List Versions} (hplain : ∀ v ∈ vs, v.Plain) (hnodup : (vs.map (·.path)).Nodup)
    (favor : Option Side) (within : Bool) (files : Tree) (p : Path) :
    (vs.foldl (fun files v => v.put favor within files) files).get? p =
      match vs.find? (·.path == p) with
      | some v => (v.merge favor within).join.or (files.get? p)
      | none => files.get? p := by
  induction vs generalizing files with
  | nil => rfl
  | cons v rest ih =>
    obtain ⟨hv, hrest⟩ := List.nodup_cons.mp hnodup
    rw [List.foldl_cons, ih (fun u hu => hplain u (List.mem_cons_of_mem _ hu)) hrest, List.find?_cons,
      (hplain v List.mem_cons_self).get?_put]
    by_cases hp : v.path = p
    · have hnone : rest.find? (·.path == p) = none := by
        rw [← hp]
        exact find?_of_not_mem Versions.path hv
      rw [hnone, beq_iff_eq.mpr hp, if_pos hp.symm]
    · rw [beq_eq_false_iff_ne.mpr hp, if_neg (Ne.symm hp)]

/-- What a side keeps at a path, where it is that of a conflict. -/
def keptAt (side : Side) (cs : List Conflict) (p : Path) : Option String :=
  (cs.find? (·.path == p)).bind (MergeIndex.kept side)

/-- Whether a side keeps a file above or below a path. -/
def keptNear (side : Side) (cs : List Conflict) (p : Path) : Bool :=
  cs.any fun c => (MergeIndex.kept side c).isSome && (Path.above c.path p || Path.above p c.path)

theorem keptNear_iff {side : Side} {cs : List Conflict} {p : Path} : keptNear side cs p = true ↔
    ∃ c ∈ cs, MergeIndex.kept side c ≠ none ∧ (Path.above c.path p = true ∨ Path.above p c.path = true) := by
  simp [keptNear, Option.isSome_iff_ne_none]

theorem keptAt_of_mem {side : Side} {cs : List Conflict} {c : Conflict} (hnodup : (cs.map (·.path)).Nodup)
    (hc : c ∈ cs) : keptAt side cs c.path = MergeIndex.kept side c := by
  rw [keptAt, find?_of_mem (·.path) hnodup hc]
  rfl

theorem keptAt_of_not_mem {side : Side} {cs : List Conflict} {p : Path} (hp : p ∉ cs.map (·.path)) :
    keptAt side cs p = none := by
  rw [keptAt, find?_of_not_mem Conflict.path hp]
  rfl

theorem exists_of_keptAt {side : Side} {cs : List Conflict} {p : Path} (h : keptAt side cs p ≠ none) :
    ∃ c ∈ cs, c.path = p ∧ MergeIndex.kept side c ≠ none := by
  obtain ⟨content, hcontent⟩ := Option.ne_none_iff_exists'.mp h
  obtain ⟨c, hc, hkept⟩ := Option.bind_eq_some_iff.mp hcontent
  refine ⟨c, List.mem_of_find?_eq_some hc, beq_iff_eq.mp (List.find?_some hc :), ?_⟩
  rw [hkept]
  exact Option.some_ne_none content

/-- The files that a side keeps do not stand above one another. -/
def KeptApart (side : Side) (cs : List Conflict) : Prop :=
  ∀ c ∈ cs, ∀ d ∈ cs, MergeIndex.kept side c ≠ none → MergeIndex.kept side d ≠ none →
    Path.above c.path d.path = false

/-- **Conflicts are settled at every path at once**, where no kept file stands above another: what is kept is
set, and what stands above or below it is taken away. By induction on the conflicts: what is kept of a later
one is not in the way of the first. -/
theorem get?_foldl_settle {side : Side} {files : Tree} {cs : List Conflict} (hapart : KeptApart side cs)
    (hnodup : (cs.map (·.path)).Nodup) (p : Path) : (cs.foldl (MergeIndex.settle side) files).get? p =
      (keptAt side cs p).or (if keptNear side cs p then none else files.get? p) := by
  induction cs generalizing files with
  | nil => rfl
  | cons c rest ih =>
    obtain ⟨hc, hrest⟩ := List.nodup_cons.mp hnodup
    have hlater : KeptApart side rest := fun d hd e he =>
      hapart d (List.mem_cons_of_mem _ hd) e (List.mem_cons_of_mem _ he)
    have hat : keptAt side (c :: rest) p = if p = c.path then MergeIndex.kept side c else keptAt side rest p := by
      unfold keptAt
      rw [List.find?_cons]
      by_cases hp : c.path = p
      · simp [hp]
      · simp [beq_eq_false_iff_ne.mpr hp, Ne.symm hp]
    have hnear : keptNear side (c :: rest) p =
        ((MergeIndex.kept side c).isSome && (Path.above c.path p || Path.above p c.path) || keptNear side rest p) :=
      rfl
    rw [List.foldl_cons, ih hlater hrest, hat, hnear]
    cases hk : MergeIndex.kept side c with
    | none =>
      have hsame : MergeIndex.settle side files c = files := by
        unfold MergeIndex.settle
        rw [hk]
      rw [hsame, Option.isSome_none, Bool.false_and, Bool.false_or]
      by_cases hp : p = c.path
      · rw [if_pos hp, hp, keptAt_of_not_mem hc]
      · rw [if_neg hp]
    | some content =>
      have hset : MergeIndex.settle side files c = files.displace c.path content := by
        unfold MergeIndex.settle
        rw [hk]
      rw [hset, PathMap.get?_displace, Option.isSome_some, Bool.true_and]
      by_cases hp : p = c.path
      · subst hp
        have hnone : keptNear side rest c.path = false := by
          apply Bool.eq_false_iff.mpr
          intro hsome
          obtain ⟨d, hd, hkept, habove⟩ := keptNear_iff.mp hsome
          have hmine : MergeIndex.kept side c ≠ none := by
            rw [hk]
            exact Option.some_ne_none content
          have hd' := List.mem_cons_of_mem c hd
          rcases habove with habove | habove
          · rw [hapart d hd' c List.mem_cons_self hkept hmine] at habove
            cases habove
          · rw [hapart c List.mem_cons_self d hd' hmine hkept] at habove
            cases habove
        rw [if_pos rfl, if_pos rfl, keptAt_of_not_mem hc, hnone]
        rfl
      · rw [if_neg hp, if_neg hp]
        cases keptNear side rest p <;> cases (Path.above c.path p || Path.above p c.path) <;> rfl

/-- Where no file at all stands above another, nothing is taken away. -/
theorem get?_foldl_settle_level {U : Path → Prop} (hlevel : ∀ p q, U p → U q → Path.above p q = false)
    {side : Side} {files : Tree} {cs : List Conflict} (hfiles : ∀ q, files.has q = true → U q)
    (hcs : ∀ c ∈ cs, U c.path) (hnodup : (cs.map (·.path)).Nodup) (p : Path) :
    (cs.foldl (MergeIndex.settle side) files).get? p = (keptAt side cs p).or (files.get? p) := by
  rw [get?_foldl_settle (fun c hc d hd _ _ => hlevel _ _ (hcs c hc) (hcs d hd)) hnodup]
  split
  · rename_i hnear
    obtain ⟨c, hc, -, habove⟩ := keptNear_iff.mp hnear
    cases hfile : files.get? p with
    | none => rfl
    | some content =>
      have hp : U p := hfiles p (by rw [PathMap.has, hfile]; rfl)
      rw [hlevel _ _ (hcs c hc) hp, hlevel _ _ hp (hcs c hc)] at habove
      simp at habove
  · rfl

theorem get?_lowest {m : Tree} (hlevel : ∀ p q, m.has p = true → m.has q = true → Path.above p q = false)
    (p : Path) : m.lowest.get? p = m.get? p := by
  rw [PathMap.lowest, PathMap.get?_restrict]
  split
  · rfl
  · rename_i hbelow
    cases hfile : m.get? p with
    | none => rfl
    | some content =>
      have hp : m.has p = true := by rw [PathMap.has, hfile]; rfl
      rw [Bool.not_eq_true', Bool.not_eq_false, PathMap.hasBelow_iff] at hbelow
      obtain ⟨q, hq, habove⟩ := hbelow
      rw [hlevel p q hp hq] at habove
      cases habove

/-! ## The merge -/

/-- What a merge that lets a side win comes to at a path. -/
def Versions.won (side : Side) (v : Versions) : Option String :=
  if v.differ then
    match v.merge (some side) false with
    | some content => content
    | none => MergeIndex.kept side v.conflict
  else v.ours

section

variable (hl : Level base ours theirs) (hmoved : ∀ side, renames side (differing base ours theirs) = [])
  (side : Side)

include hl

theorem plain_of_mem_differing (v : Versions) (hv : v ∈ differing base ours theirs) : v.Plain := by
  rw [((mem_differing hl).mp hv).1]
  exact Versions.plain_at v.path

include hmoved

theorem mem_conflicts {c : Conflict} : c ∈ (mergeTrees (some side) false base ours theirs).conflicts ↔
    ∃ p, (Versions.at base ours theirs p).differ = true ∧
      (Versions.at base ours theirs p).merge (some side) false = none ∧
      c = (Versions.at base ours theirs p).conflict := by
  have hplain := plain_of_mem_differing hl
  dsimp only [mergeTrees]
  rw [followed_eq hplain hmoved, mem_conflictAt]
  · simp only [List.mem_filter, Option.isNone_iff_eq_none, mem_differing hl]
    constructor
    · rintro ⟨v, ⟨⟨hv, hd⟩, hopen⟩, rfl⟩
      exact ⟨v.path, hv ▸ hd, hv ▸ hopen, hv ▸ rfl⟩
    · rintro ⟨p, hd, hopen, rfl⟩
      exact ⟨Versions.at base ours theirs p, ⟨⟨rfl, hd⟩, hopen⟩, rfl⟩
  · exact fun v hv => hplain v (List.mem_filter.mp hv).1
  · exact (nodup_differing hl).sublist (List.filter_sublist.map _)
  · -- what nobody has is settled
    intro v hv
    obtain ⟨hv, hopen⟩ := List.mem_filter.mp hv
    by_contra! hnone
    rw [(hplain v hv).merge, if_pos (.inl (hnone.1.trans hnone.2.symm))] at hopen
    cases hopen

theorem any_conflicts_iff (p : Path) :
    (mergeTrees (some side) false base ours theirs).conflicts.any (·.path == p) = true ↔
      (Versions.at base ours theirs p).differ = true ∧
        (Versions.at base ours theirs p).merge (some side) false = none := by
  rw [List.any_eq_true]
  constructor
  · rintro ⟨c, hc, hp⟩
    obtain ⟨q, hd, hopen, rfl⟩ := (mem_conflicts hl hmoved side).mp hc
    have hq : q = p := beq_iff_eq.mp hp
    exact hq ▸ ⟨hd, hopen⟩
  · rintro ⟨hd, hopen⟩
    exact ⟨_, (mem_conflicts hl hmoved side).mpr ⟨p, hd, hopen, rfl⟩, beq_self_eq_true p⟩

/-- The files that are settled: what comes of the versions that differ, and all others. -/
theorem get?_files (p : Path) : (mergeTrees (some side) false base ours theirs).files.get? p =
    if (Versions.at base ours theirs p).differ then
      ((Versions.at base ours theirs p).merge (some side) false).join
    else ours.get? p := by
  have hplain := plain_of_mem_differing hl
  have hconflict := any_conflicts_iff hl hmoved side p
  have hfiles : (mergeTrees (some side) false base ours theirs).files =
      ((followed (differing base ours theirs)).foldl (fun files v => v.put (some side) false files)
        (ours.restrict fun q => !(differing base ours theirs).any (·.path == q))).restrict
      fun q => !(mergeTrees (some side) false base ours theirs).conflicts.any (·.path == q) := rfl
  rw [hfiles, followed_eq hplain hmoved, PathMap.get?_restrict, get?_foldl_put hplain (nodup_differing hl),
    PathMap.get?_restrict]
  by_cases hd : (Versions.at base ours theirs p).differ = true
  · -- what the version came to was put there, and is left out again if that is a conflict
    have hv : Versions.at base ours theirs p ∈ differing base ours theirs := (mem_differing hl).mpr ⟨rfl, hd⟩
    have hfound : (differing base ours theirs).find? (·.path == p) = some (Versions.at base ours theirs p) :=
      find?_of_mem (·.path) (nodup_differing hl) hv
    have hchanged : (differing base ours theirs).any (·.path == p) = true :=
      List.any_eq_true.mpr ⟨_, hv, beq_self_eq_true p⟩
    rw [hfound, hchanged, hd]
    cases hopen : (Versions.at base ours theirs p).merge (some side) false with
    | none => simp [hconflict.mpr ⟨hd, hopen⟩]
    | some content =>
      have hsettled : (mergeTrees (some side) false base ours theirs).conflicts.any (·.path == p) = false := by
        apply Bool.eq_false_iff.mpr
        intro hc
        rw [(hconflict.mp hc).2] at hopen
        cases hopen
      simp [hsettled, hopen]
  · -- nothing was put there, and nothing left out
    have hnone : p ∉ (differing base ours theirs).map (·.path) := by
      intro hp
      obtain ⟨v, hv, rfl⟩ := List.mem_map.mp hp
      obtain ⟨heq, hdiffer⟩ := (mem_differing hl).mp hv
      exact hd (heq ▸ hdiffer)
    have hsame : (differing base ours theirs).any (·.path == p) = false := by
      rw [List.any_eq_false]
      intro v hv hp
      exact hnone (beq_iff_eq.mp hp ▸ List.mem_map_of_mem hv)
    have hsettled : (mergeTrees (some side) false base ours theirs).conflicts.any (·.path == p) = false :=
      Bool.eq_false_iff.mpr fun hc => hd (hconflict.mp hc).1
    have hfound : (differing base ours theirs).find? (·.path == p) = none :=
      find?_of_not_mem Versions.path hnone
    rw [hfound]
    simp [hsame, hsettled, hd]

/-- Merging puts files only where there were some. -/
theorem named_of_files (p : Path)
    (h : (mergeTrees (some side) false base ours theirs).files.has p = true) : Named base ours theirs p := by
  rw [PathMap.has, get?_files hl hmoved] at h
  split at h
  · rename_i hd
    exact named_of_differ hd
  · exact .inr (.inl h)

theorem get?_settleAll (p : Path) :
    ((mergeTrees (some side) false base ours theirs).settleAll side).get? p =
      (Versions.at base ours theirs p).won side := by
  have hnamed : ∀ c ∈ (mergeTrees (some side) false base ours theirs).conflicts,
      Named base ours theirs c.path := by
    intro c hc
    obtain ⟨q, hd, _, rfl⟩ := (mem_conflicts hl hmoved side).mp hc
    exact named_of_differ hd
  have hnodup : ((mergeTrees (some side) false base ours theirs).conflicts.map (·.path)).Nodup :=
    nodup_conflictAt _
  have hopen := any_conflicts_iff hl hmoved side p
  unfold MergeIndex.settleAll
  rw [get?_foldl_settle_level hl (named_of_files hl hmoved side) hnamed hnodup, get?_files hl hmoved, keptAt]
  cases hfound : (mergeTrees (some side) false base ours theirs).conflicts.find? (·.path == p) with
  | some c =>
    obtain ⟨q, hd, hnone, rfl⟩ := (mem_conflicts hl hmoved side).mp (List.mem_of_find?_eq_some hfound)
    have hq : q = p := beq_iff_eq.mp (List.find?_some hfound :)
    subst hq
    simp [Versions.won, hd, hnone]
  | none =>
    have hsettled : ¬ ((Versions.at base ours theirs p).differ = true ∧
        (Versions.at base ours theirs p).merge (some side) false = none) := by
      rw [← hopen, List.any_eq_true]
      rintro ⟨c, hc, hp⟩
      exact List.find?_eq_none.mp hfound c hc hp
    unfold Versions.won
    by_cases hd : (Versions.at base ours theirs p).differ = true
    · cases hm : (Versions.at base ours theirs p).merge (some side) false with
      | none => exact absurd ⟨hd, hm⟩ hsettled
      | some content => simp [hd]
    · simp only [hd, Bool.false_eq_true, if_false]
      rfl

/-- **A merge that a side wins has at every path what its versions there come to.** -/
theorem get?_mergeTrees (p : Path) :
    ((mergeTrees (some side) false base ours theirs).settleAll side).lowest.get? p =
      (Versions.at base ours theirs p).won side := by
  have hnamed (q : Path) (hq : ((mergeTrees (some side) false base ours theirs).settleAll side).has q = true) :
      Named base ours theirs q := by
    rw [PathMap.has, get?_settleAll hl hmoved] at hq
    unfold Versions.won at hq
    split at hq
    · rename_i hd
      exact named_of_differ hd
    · exact .inr (.inl hq)
  rw [get?_lowest fun q q' hq hq' => hl q q' (hnamed q hq) (hnamed q' hq'), get?_settleAll hl hmoved]

end

theorem Versions.won_eq (side : Side) (p : Path) : (Versions.at base ours theirs p).won side =
    if ours.get? p = theirs.get? p ∨ theirs.get? p = base.get? p then ours.get? p
    else if ours.get? p = base.get? p then theirs.get? p
    else
      match ours.get? p, theirs.get? p with
      | some a, some b => (mergeTexts (some side) ((base.get? p).getD "") a b).map (·.text)
      | _, _ => MergeIndex.kept side (Versions.at base ours theirs p).conflict := by
  have hsides : (Versions.at base ours theirs p).ours = ours.get? p ∧
      (Versions.at base ours theirs p).theirs = theirs.get? p ∧
      (Versions.at base ours theirs p).base = base.get? p := ⟨rfl, rfl, rfl⟩
  unfold Versions.won
  rw [(Versions.plain_at p).merge, hsides.1, hsides.2.1, hsides.2.2]
  by_cases hd : (Versions.at base ours theirs p).differ = true
  · rw [if_pos hd]
    by_cases hsame : ours.get? p = theirs.get? p ∨ theirs.get? p = base.get? p
    · rw [if_pos hsame, if_pos hsame]
    · rw [if_neg hsame, if_neg hsame]
      by_cases hours : ours.get? p = base.get? p
      · rw [if_pos hours, if_pos hours]
      · rw [if_neg hours, if_neg hours]
        rcases ours.get? p with _ | a <;> rcases theirs.get? p with _ | b <;> rfl
  · rw [if_neg hd]
    simp only [Versions.differ, hsides, Bool.or_eq_true, bne_iff_ne, not_or, not_not] at hd
    rw [if_pos (.inl (hd.1.symm.trans hd.2))]

/-- What a merge that theirs win comes to at a path, of what its base and both sides have there: what the
side has that changed it; nothing, or the file of theirs, where one side deleted what the other changed;
and the merged text where both changed it. -/
structure TheirsWin (base ours theirs merged : Option String) : Prop where
  ours_same : ours = base → merged = theirs
  theirs_same : theirs = base → merged = ours
  alike : ours = theirs → merged = ours
  deleted : base ≠ none → theirs = none → merged = none
  restored : base ≠ none → ours = none → theirs ≠ base → merged = theirs
  changed : ∀ a b, ours = some a → theirs = some b → ours ≠ base → theirs ≠ base → a ≠ b →
    ∃ m, mergeTexts (some .theirs) (base.getD "") a b = some m ∧ merged = some m.text ∧
      FavorsTheirs (base.getD "") a b m.text

theorem Versions.won_theirs (p : Path) : TheirsWin (base.get? p) (ours.get? p) (theirs.get? p)
    ((Versions.at base ours theirs p).won .theirs) := by
  have hkept : MergeIndex.kept .theirs (Versions.at base ours theirs p).conflict = theirs.get? p := rfl
  rw [Versions.won_eq, hkept]
  generalize base.get? p = base, ours.get? p = ours, theirs.get? p = theirs
  constructor
  · rintro rfl
    by_cases hsame : ours = theirs ∨ theirs = ours
    · rw [if_pos hsame]
      exact hsame.elim id Eq.symm
    · rw [if_neg hsame, if_pos rfl]
  · intro htheirs
    rw [if_pos (.inr htheirs)]
  · intro halike
    rw [if_pos (.inl halike)]
  · rintro hbase rfl
    cases ours with
    | none => rw [if_pos (.inl rfl)]
    | some a =>
      have hne : ¬ (some a = none ∨ none = base) := by
        rintro (h | h)
        · cases h
        · exact hbase h.symm
      rw [if_neg hne, ite_self]
  · rintro hbase rfl htheirs
    by_cases hsame : none = theirs
    · rw [if_pos (.inl hsame), hsame]
    · rw [if_neg (not_or.mpr ⟨hsame, htheirs⟩), if_neg (Ne.symm hbase)]
  · rintro a b rfl rfl hours htheirs hne
    obtain ⟨m, hm, _, hfavors⟩ := mergeTexts_favorsTheirs (base.getD "") a b
    refine ⟨m, hm, ?_, hfavors⟩
    have hdiffer : ¬ (some a = some b ∨ some b = base) := not_or.mpr ⟨fun h => hne (Option.some.inj h), htheirs⟩
    rw [if_neg hdiffer, if_neg hours]
    dsimp only
    rw [hm]
    rfl

end Chronicle
