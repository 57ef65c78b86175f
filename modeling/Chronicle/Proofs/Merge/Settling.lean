import Chronicle.Proofs.Merge.Moved
import Chronicle.Proofs.Repository.Switch

/-!
# Settling conflicts

A merge lists its conflicts beside the files that are settled, and goes through the list: it takes the conflict
out of the index and puts in what one side has at its path (`MergeIndex.settleConflicts`). What comes of it is told
at every path by `MergeIndex.Settled`, which one index alone fits (`MergeIndex.Settled.unique`). **So no conflict is
left, the order of the list does not matter, and the sides are treated alike** (`MergeIndex.conflicts_settled`).

This is said of every index that is `MergeIndex.Sound`. Merging trees makes no other (`mergeTrees_sound`), nor does
merging the commits of a history (`mergeCommits_sound`).
-/

namespace Chronicle

namespace Conflict

/-- Whether nobody has anything at the path of a conflict. -/
def isVoid (c : Conflict) : Bool := c.base.isNone && c.ours.isNone && c.theirs.isNone

/-- A conflict as the other side sees it. -/
def swapped (c : Conflict) : Conflict := { c with ours := c.theirs, theirs := c.ours }

end Conflict

namespace MergeIndex

/-! ## One conflict after the other -/

/-- Takes a conflict out of an index and puts in what a side has at its path. -/
def settleIn (side : Side) (m : MergeIndex) (c : Conflict) : MergeIndex :=
  ⟨settle side m.files c, m.conflicts.filter (·.path != c.path)⟩

/-- Settles conflicts in an index, up to the first that nobody has anything of. -/
def settleEach (side : Side) : List Conflict → MergeIndex → Except RepositoryError Unit × MergeIndex
  | [], m => (.ok (), m)
  | c :: rest, m =>
    if c.isVoid then (.error (.invalidPath "conflict without entries"), m)
    else settleEach side rest (m.settleIn side c)

/-- Settles the conflicts that an index has when the merge of `theirs` begins to settle them. -/
def settleConflicts (policy : Policy) (theirs : String) (m : MergeIndex) :
    Except RepositoryError Unit × MergeIndex :=
  match policy.favor with
  | some side => settleEach side m.conflicts m
  | none => (.error (.conflict theirs ((m.conflicts.filter fun c => !c.isVoid).map fun c => c.path.render)), m)

/-- An index as the other side sees it. -/
def swapped (m : MergeIndex) : MergeIndex := { m with conflicts := m.conflicts.map Conflict.swapped }

/-- Each conflict is at a path of its own, at which someone has something and no file is settled. What a side
has at these paths comes from one tree. -/
structure Sound (m : MergeIndex) : Prop where
  nodup : (m.conflicts.map (·.path)).Nodup
  proper : ∀ c ∈ m.conflicts, c.path.Proper
  present : ∀ c ∈ m.conflicts, c.isVoid = false
  unsettled : ∀ c ∈ m.conflicts, m.files.has c.path = false
  oneTree : ∀ side, ∃ tree : Tree, tree.Placeable ∧
    ∀ c ∈ m.conflicts, ∀ content, kept side c = some content → tree.get? c.path = some content

/-- What is left when the conflicts of an index are settled in favour of a side: what the side has at their
paths, and of all other files those that do not stand above or below one of these. -/
structure Settled (side : Side) (m : MergeIndex) (files : Tree) : Prop where
  conflicted : ∀ c ∈ m.conflicts, files.get? c.path = kept side c
  replaced : ∀ c ∈ m.conflicts, kept side c ≠ none → ∀ p,
    Path.above c.path p = true ∨ Path.above p c.path = true → files.get? p = none
  unchanged : ∀ p, (∀ c ∈ m.conflicts, c.path ≠ p ∧
    (kept side c ≠ none → Path.above c.path p = false ∧ Path.above p c.path = false)) →
      files.get? p = m.files.get? p

variable {m : MergeIndex} {side : Side} {files files' : Tree}

/-- There is one way to settle conflicts. -/
theorem Settled.unique (h : Settled side m files) (h' : Settled side m files') (p : Path) :
    files.get? p = files'.get? p := by
  by_cases hat : ∃ c ∈ m.conflicts, c.path = p
  · obtain ⟨c, hc, rfl⟩ := hat
    rw [h.conflicted c hc, h'.conflicted c hc]
  · by_cases hnear : ∃ c ∈ m.conflicts, kept side c ≠ none ∧
        (Path.above c.path p = true ∨ Path.above p c.path = true)
    · obtain ⟨c, hc, hkept, habove⟩ := hnear
      rw [h.replaced c hc hkept p habove, h'.replaced c hc hkept p habove]
    · have hfar : ∀ c ∈ m.conflicts, c.path ≠ p ∧
          (kept side c ≠ none → Path.above c.path p = false ∧ Path.above p c.path = false) := by
        intro c hc
        refine ⟨fun hp => hat ⟨c, hc, hp⟩, fun hkept => ?_⟩
        constructor
        · exact Bool.eq_false_iff.mpr fun habove => hnear ⟨c, hc, hkept, .inl habove⟩
        · exact Bool.eq_false_iff.mpr fun habove => hnear ⟨c, hc, hkept, .inr habove⟩
      rw [h.unchanged p hfar, h'.unchanged p hfar]

/-- Of the conflicts it matters only which there are. -/
theorem Settled.of_mem_iff {cs : List Conflict} (hcs : ∀ c, c ∈ cs ↔ c ∈ m.conflicts)
    (h : Settled side { m with conflicts := cs } files) : Settled side m files where
  conflicted c hc := h.conflicted c ((hcs c).mpr hc)
  replaced c hc := h.replaced c ((hcs c).mpr hc)
  unchanged p hp := h.unchanged p fun c hc => hp c ((hcs c).mp hc)

/-- By induction on the conflicts: each is taken out once it is settled. -/
theorem settleEach_eq {cs : List Conflict} (hpresent : ∀ c ∈ cs, c.isVoid = false) (m : MergeIndex) :
    settleEach side cs m = (.ok (), ⟨cs.foldl (settle side) m.files,
      m.conflicts.filter fun d => d.path ∉ cs.map (·.path)⟩) := by
  induction cs generalizing m with
  | nil => simp [settleEach]
  | cons c rest ih =>
    obtain ⟨hc, hrest⟩ := List.forall_mem_cons.mp hpresent
    rw [settleEach, hc, if_neg Bool.false_ne_true, ih hrest, settleIn, List.filter_filter, List.foldl_cons]
    congr 3
    funext d
    rw [Bool.eq_iff_iff]
    simp [and_comm]

/-! ## Sound indices -/

namespace Sound

variable (hm : m.Sound)

include hm

theorem keptApart (side : Side) : KeptApart side m.conflicts := by
  obtain ⟨tree, htree, hfrom⟩ := hm.oneTree side
  have hhas (c : Conflict) (hc : c ∈ m.conflicts) (hkept : kept side c ≠ none) : tree.has c.path = true := by
    obtain ⟨content, hcontent⟩ := Option.ne_none_iff_exists'.mp hkept
    rw [PathMap.has, hfrom c hc content hcontent]
    rfl
  intro c hc d hd hkept hkept'
  exact htree.not_above c.path d.path (hhas c hc hkept) (hhas d hd hkept')

theorem settleConflicts_eq {policy : Policy} (hside : policy.favor = some side) (text : String) :
    m.settleConflicts policy text = (.ok (), ⟨m.settleAll side, []⟩) := by
  have hnone : (m.conflicts.filter fun d => d.path ∉ m.conflicts.map (·.path)) = [] := by
    rw [List.filter_eq_nil_iff]
    intro d hd hout
    exact of_decide_eq_true hout (List.mem_map_of_mem hd)
  unfold settleConflicts
  rw [hside]
  dsimp only
  rw [settleEach_eq hm.present, hnone, settleAll]

theorem settled (side : Side) : Settled side m (m.settleAll side) := by
  have hget (p : Path) : (m.settleAll side).get? p =
      (keptAt side m.conflicts p).or (if keptNear side m.conflicts p then none else m.files.get? p) :=
    get?_foldl_settle (hm.keptApart side) hm.nodup p
  constructor
  · intro c hc
    have hfile : m.files.get? c.path = none :=
      Option.not_isSome_iff_eq_none.mp (Bool.eq_false_iff.mp (hm.unsettled c hc))
    rw [hget, keptAt_of_mem hm.nodup hc, hfile, ite_self, Option.or_none]
  · intro c hc hkept p habove
    have hnear : keptNear side m.conflicts p = true := keptNear_iff.mpr ⟨c, hc, hkept, habove⟩
    -- nothing is kept at the path itself, as what is kept comes from one tree
    have hat : keptAt side m.conflicts p = none := by
      by_contra hsome
      obtain ⟨d, hd, rfl, hkept'⟩ := exists_of_keptAt hsome
      rcases habove with habove | habove
      · rw [hm.keptApart side c hc d hd hkept hkept'] at habove
        cases habove
      · rw [hm.keptApart side d hd c hc hkept' hkept] at habove
        cases habove
    rw [hget, hat, hnear]
    rfl
  · intro p hfar
    have hat : keptAt side m.conflicts p = none := by
      apply keptAt_of_not_mem
      intro hp
      obtain ⟨c, hc, hpath⟩ := List.mem_map.mp hp
      exact (hfar c hc).1 hpath
    have hnear : keptNear side m.conflicts p = false := by
      apply Bool.eq_false_iff.mpr
      intro hnear
      obtain ⟨c, hc, hkept, habove⟩ := keptNear_iff.mp hnear
      obtain ⟨hbelow, habove'⟩ := (hfar c hc).2 hkept
      rw [hbelow, habove'] at habove
      simp at habove
    rw [hget, hat, hnear]
    rfl

theorem reordered {cs : List Conflict} (hcs : cs.Perm m.conflicts) : Sound { m with conflicts := cs } where
  nodup := (hcs.map _).nodup_iff.mpr hm.nodup
  proper c hc := hm.proper c (hcs.mem_iff.mp hc)
  present c hc := hm.present c (hcs.mem_iff.mp hc)
  unsettled c hc := hm.unsettled c (hcs.mem_iff.mp hc)
  oneTree side := by
    obtain ⟨tree, htree, hfrom⟩ := hm.oneTree side
    exact ⟨tree, htree, fun c hc => hfrom c (hcs.mem_iff.mp hc)⟩

theorem swapped : m.swapped.Sound where
  nodup := by
    have hpath : (fun c : Conflict => c.path) ∘ Conflict.swapped = fun c => c.path := rfl
    rw [MergeIndex.swapped, List.map_map, hpath]
    exact hm.nodup
  proper := List.forall_mem_map.mpr hm.proper
  present := List.forall_mem_map.mpr fun c hc => by
    rw [← hm.present c hc]
    exact Bool.and_right_comm _ _ _
  unsettled := List.forall_mem_map.mpr hm.unsettled
  oneTree side := by
    cases side with
    | ours =>
      obtain ⟨tree, htree, hfrom⟩ := hm.oneTree .theirs
      exact ⟨tree, htree, List.forall_mem_map.mpr hfrom⟩
    | theirs =>
      obtain ⟨tree, htree, hfrom⟩ := hm.oneTree .ours
      exact ⟨tree, htree, List.forall_mem_map.mpr hfrom⟩

/-- An index that is not to be settled is left as it is, and all its conflicts are named. -/
theorem settleConflicts_fail (text : String) : m.settleConflicts .fail text =
    (.error (.conflict text (m.conflicts.map fun c => c.path.render)), m) := by
  have hall : (m.conflicts.filter fun c => !c.isVoid) = m.conflicts := by
    rw [List.filter_eq_self]
    intro c hc
    rw [hm.present c hc]
    rfl
  simp only [settleConflicts, Policy.favor, hall]

/-- Conflicts are called by different names. -/
theorem nodup_render : (m.conflicts.map fun c => c.path.render).Nodup := by
  have hrender : (m.conflicts.map fun c => c.path.render) = (m.conflicts.map (·.path)).map Path.render := by
    rw [List.map_map]
    rfl
  rw [hrender]
  refine hm.nodup.map_on fun p hp q hq heq => ?_
  obtain ⟨c, hc, rfl⟩ := List.mem_map.mp hp
  obtain ⟨d, hd, rfl⟩ := List.mem_map.mp hq
  exact (hm.proper c hc).render_inj (hm.proper d hd) heq

/-- A merge settles the conflicts of an index, if it has any, and takes the files that are then there. -/
theorem resolve_eq (policy : Policy) (text : String) : m.resolve policy text =
    if m.conflicts.isEmpty then .ok m.files.lowest
    else
      match m.settleConflicts policy text with
      | (.ok (), settled) => .ok settled.files.lowest
      | (.error e, _) => .error e := by
  have hnone (side : Side) (hempty : m.conflicts.isEmpty = true) : m.settleAll side = m.files := by
    rw [settleAll, List.isEmpty_iff.mp hempty, List.foldl_nil]
  have hours : Policy.ours.favor = some .ours := rfl
  have htheirs : Policy.theirs.favor = some .theirs := rfl
  cases policy with
  | fail =>
    rw [hm.settleConflicts_fail]
    rfl
  | ours =>
    rw [hm.settleConflicts_eq hours]
    split
    · rename_i hempty
      rw [resolve, hnone .ours hempty]
    · rfl
  | theirs =>
    rw [hm.settleConflicts_eq htheirs]
    split
    · rename_i hempty
      rw [resolve, hnone .theirs hempty]
    · rfl

end Sound

/-- **Conflicts are settled in favour of one side completely.** None is left: at its path there is what the side
has, in the place of all that stood above or below it, and nothing else changes, in whatever order the conflicts
are listed. Our side wins an index as theirs wins the swapped one. Where no side is to win, the conflicts are named,
each once, and the index stays as it is. This is how a merge settles its index. -/
theorem conflicts_settled (hm : m.Sound) (text : String) :
    (∀ policy side, policy.favor = some side → ∃ files,
      m.settleConflicts policy text = (.ok (), ⟨files, []⟩) ∧ Settled side m files ∧
        ∀ cs : List Conflict, cs.Perm m.conflicts → ∃ files',
          settleConflicts policy text { m with conflicts := cs } = (.ok (), ⟨files', []⟩) ∧
            ∀ p, files'.get? p = files.get? p) ∧
    m.swapped.settleConflicts .theirs text = m.settleConflicts .ours text ∧
    (∃ paths, m.settleConflicts .fail text = (.error (.conflict text paths), m) ∧ paths.Nodup ∧
      ∀ name, name ∈ paths ↔ ∃ c ∈ m.conflicts, c.path.render = name) ∧
    ∀ policy, m.resolve policy text =
      if m.conflicts.isEmpty then .ok m.files.lowest
      else
        match m.settleConflicts policy text with
        | (.ok (), settled) => .ok settled.files.lowest
        | (.error e, _) => .error e := by
  refine ⟨fun policy side hside => ?_, ?_, ?_, fun policy => hm.resolve_eq policy text⟩
  · refine ⟨m.settleAll side, hm.settleConflicts_eq hside text, hm.settled side, fun cs hcs => ?_⟩
    have hsound : Sound { m with conflicts := cs } := hm.reordered hcs
    exact ⟨_, hsound.settleConflicts_eq hside text,
      ((hsound.settled side).of_mem_iff fun _ => hcs.mem_iff).unique (hm.settled side)⟩
  · have hours : Policy.ours.favor = some .ours := rfl
    have htheirs : Policy.theirs.favor = some .theirs := rfl
    rw [hm.swapped.settleConflicts_eq htheirs, hm.settleConflicts_eq hours, settleAll, swapped, List.foldl_map]
    rfl
  · exact ⟨_, hm.settleConflicts_fail text, hm.nodup_render, fun name => List.mem_map⟩

/-- A merge whose theirs has a file where ours has a directory, and not the file `d` that ours changed. -/
def collided : MergeIndex :=
  ⟨⟨[(["a", "x"], "2"), (["z"], "4")]⟩,
    [⟨["a"], some "1", none, some "3"⟩, ⟨["d"], some "1", some "2", none⟩]⟩

theorem collided_sound : collided.Sound := by
  have ha : Path.Proper ["a"] := ⟨by decide, by decide⟩
  have hd : Path.Proper ["d"] := ⟨by decide, by decide⟩
  constructor
  · decide
  · simp [collided, ha, hd]
  · decide
  · decide
  · rintro (_ | _)
    · exact ⟨PathMap.insert {} ["d"] "2", .single hd "2", by simp [collided, kept, PathMap.get?_insert]⟩
    · exact ⟨PathMap.insert {} ["a"] "3", .single ha "3", by simp [collided, kept, PathMap.get?_insert]⟩

/-- Theirs win: the file is there and all that ours had is gone, whichever conflict is settled first. -/
theorem conflicts_settled_collided :
    collided.Sound ∧
    (∃ files files', collided.settleConflicts .theirs "b" = (.ok (), ⟨files, []⟩) ∧
      settleConflicts .theirs "b" { collided with conflicts := collided.conflicts.reverse } = (.ok (), ⟨files', []⟩) ∧
      files.get? ["a"] = some "3" ∧ files.get? ["a", "x"] = none ∧ files.get? ["d"] = none ∧
      files.get? ["z"] = some "4" ∧ ∀ p, files'.get? p = files.get? p) ∧
    ∃ paths, collided.settleConflicts .fail "b" = (.error (.conflict "b" paths), collided) ∧ paths.Nodup ∧
      "a" ∈ paths ∧ "d" ∈ paths ∧ "z" ∉ paths := by
  obtain ⟨hwin, -, ⟨paths, hfail, hnodup, hmem⟩, -⟩ := conflicts_settled collided_sound "b"
  obtain ⟨files, hsettle, hfiles, horder⟩ := hwin .theirs .theirs rfl
  obtain ⟨files', hsettle', hsame⟩ := horder _ collided.conflicts.reverse_perm
  refine ⟨collided_sound, ⟨files, files', hsettle, hsettle', ?_, ?_, ?_, ?_, hsame⟩,
    paths, hfail, hnodup, ?_, ?_, ?_⟩
  · exact hfiles.conflicted ⟨["a"], some "1", none, some "3"⟩ (by decide)
  · exact hfiles.replaced ⟨["a"], some "1", none, some "3"⟩ (by decide) (by decide) _ (by decide)
  · exact hfiles.conflicted ⟨["d"], some "1", some "2", none⟩ (by decide)
  · exact hfiles.unchanged ["z"] (by decide)
  all_goals
    rw [hmem]
    decide

end MergeIndex

/-! ## Merging trees -/

section

variable {base ours theirs tree : Tree} {vs : List Versions} {side : Side}

/-- A version whose moved file was followed has what the tree of its side has where the file is. -/
theorem get?_follow (htree : ∀ v ∈ vs, v.on side = tree.get? v.path) {u : Versions} (hu : u ∈ vs) {content : String}
    (h : (follow (renames side vs) u.path (u.on side)).1 = some content) :
    tree.get? (follow (renames side vs) u.path (u.on side)).2 = some content := by
  unfold follow at h ⊢
  split at h
  · rename_i r hr
    obtain ⟨-, v, hv, -, hcontent, htarget⟩ := mem_renames (List.mem_of_find?_eq_some hr)
    cases h
    show tree.get? r.target = some r.content
    rw [← htarget, ← htree v hv, hcontent]
  · show tree.get? u.path = some content
    dsimp only at h
    split at h
    · cases h
    · rw [← htree u hu, h]

/-- Someone has something at the path of each conflict. -/
theorem not_isVoid_of_mem_conflictAt {c : Conflict} (hc : c ∈ Conflict.at vs) : c.isVoid = false := by
  obtain ⟨p, hp, rfl⟩ := List.mem_map.mp hc
  obtain ⟨v, hv, hp⟩ := List.mem_flatMap.mp (Path.mem_sorted.mp hp)
  have hfound (place : Versions → Path) (file : Versions → Option String) (hplace : place v = p)
      (hfile : file v ≠ none) : vs.findSome? (fun v => if place v = p then file v else none) ≠ none := by
    intro hnone
    have hv := List.findSome?_eq_none_iff.mp hnone v hv
    rw [if_pos hplace] at hv
    exact hfile hv
  simp only [List.mem_append, Option.mem_toList, Option.map_eq_some_iff] at hp
  rw [Conflict.isVoid, Bool.eq_false_iff]
  intro hvoid
  simp only [Bool.and_eq_true, Option.isNone_iff_eq_none] at hvoid
  obtain ⟨⟨hbase, hours⟩, htheirs⟩ := hvoid
  rcases hp with (⟨_, hsome, hat⟩ | ⟨_, hsome, hat⟩) | ⟨_, hsome, hat⟩
  · exact hfound (·.path) (·.base) hat (by simp [hsome]) hbase
  · exact hfound (·.oursAt) (·.ours) hat (by simp [hsome]) hours
  · exact hfound (·.theirsAt) (·.theirs) hat (by simp [hsome]) htheirs

/-- So do versions whose moved files were followed on both sides. -/
theorem get?_of_mem_followed (hours : ∀ v ∈ vs, v.on .ours = ours.get? v.path)
    (htheirs : ∀ v ∈ vs, v.on .theirs = theirs.get? v.path) {v : Versions} (hv : v ∈ followed vs) :
    (∀ content, v.ours = some content → ours.get? v.oursAt = some content) ∧
      ∀ content, v.theirs = some content → theirs.get? v.theirsAt = some content := by
  obtain ⟨u, hu, rfl⟩ := List.mem_map.mp hv
  exact ⟨fun _ hcontent => get?_follow hours hu hcontent, fun _ hcontent => get?_follow htheirs hu hcontent⟩

/-- What a side has at the path of a conflict comes from a version that has it there. -/
theorem exists_of_kept {c : Conflict} (hc : c ∈ Conflict.at vs) {content : String} :
    (MergeIndex.kept .ours c = some content → ∃ v ∈ vs, v.oursAt = c.path ∧ v.ours = some content) ∧
      (MergeIndex.kept .theirs c = some content → ∃ v ∈ vs, v.theirsAt = c.path ∧ v.theirs = some content) := by
  obtain ⟨p, -, rfl⟩ := List.mem_map.mp hc
  have hfound (place : Versions → Path) (file : Versions → Option String)
      (h : vs.findSome? (fun v => if place v = p then file v else none) = some content) :
      ∃ v ∈ vs, place v = p ∧ file v = some content := by
    obtain ⟨v, hv, hfile⟩ := List.exists_of_findSome?_eq_some h
    split at hfile
    · rename_i hplace
      exact ⟨v, hv, hplace, hfile⟩
    · cases hfile
  exact ⟨hfound (·.oursAt) (·.ours), hfound (·.theirsAt) (·.theirs)⟩

/-- What a side has at the path of a conflict comes from its tree. -/
theorem get?_of_kept {favor : Option Side} {within : Bool} {c : Conflict}
    (hc : c ∈ (mergeTrees favor within base ours theirs).conflicts) {content : String} :
    (MergeIndex.kept .ours c = some content → ours.get? c.path = some content) ∧
      (MergeIndex.kept .theirs c = some content → theirs.get? c.path = some content) := by
  have hours : ∀ v ∈ differing base ours theirs, v.on .ours = ours.get? v.path := by
    intro v hv
    rw [(of_mem_differing hv).1]
    rfl
  have htheirs : ∀ v ∈ differing base ours theirs, v.on .theirs = theirs.get? v.path := by
    intro v hv
    rw [(of_mem_differing hv).1]
    rfl
  constructor
  · intro hkept
    obtain ⟨v, hv, hat, hcontent⟩ := (exists_of_kept hc).1 hkept
    rw [← hat]
    exact (get?_of_mem_followed hours htheirs (List.mem_filter.mp hv).1).1 content hcontent
  · intro hkept
    obtain ⟨v, hv, hat, hcontent⟩ := (exists_of_kept hc).2 hkept
    rw [← hat]
    exact (get?_of_mem_followed hours htheirs (List.mem_filter.mp hv).1).2 content hcontent

/-- **Merging trees makes a sound index**, whatever was moved. -/
theorem mergeTrees_sound (favor : Option Side) (within : Bool) (hbase : ∀ p, base.has p = true → p.Proper)
    (hours : ours.Placeable) (htheirs : theirs.Placeable) : (mergeTrees favor within base ours theirs).Sound where
  nodup := nodup_conflictAt _
  proper := (of_has_mergeTrees favor within hbase hours.proper htheirs.proper).2
  present _ hc := not_isVoid_of_mem_conflictAt hc
  unsettled c hc := by
    have hconflict : (mergeTrees favor within base ours theirs).conflicts.any (·.path == c.path) = true :=
      List.any_eq_true.mpr ⟨c, hc, beq_self_eq_true c.path⟩
    unfold mergeTrees at hconflict ⊢
    rw [PathMap.has_restrict, hconflict]
    rfl
  oneTree side := by
    cases side with
    | ours => exact ⟨ours, hours, fun c hc _ => (get?_of_kept hc).1⟩
    | theirs => exact ⟨theirs, htheirs, fun c hc _ => (get?_of_kept hc).2⟩

/-- So does merging the commits of a history, whichever they come from. -/
theorem mergeCommits_sound {h : History} (hh : ∀ id, (h.tree id).Placeable) (favor : Option Side)
    (ours theirs : CommitId) : (mergeCommits h favor ours theirs).Sound :=
  mergeTrees_sound favor false (of_has_baseTree (fun id => (hh id).proper) favor _ _) (hh ours) (hh theirs)

end

end Chronicle
