import Chronicle.Merge.Lines

/-!
# The regions of a merge

The regions in which two texts differ follow each other, and the lines in between are equally far apart in
both texts (`Diff.hunks_aligned`). Laying the regions of two sides over each other makes conflicts of
those that overlap or touch, and every conflict keeps what it took in (`overlay_holds`): two regions that
meet are in one conflict in the end, unless they are alike (`overlay_meets`). **Where both sides changed
the same lines, the merge that theirs win has the lines of theirs** (`mergeLines_prefersTheirs`).
-/

namespace Chronicle

namespace Diff

/-- Where a region ends in the first text. -/
def Hunk.end1 (h : Hunk) : Nat := h.start1 + h.size1

/-- Where a region ends in the second text. -/
def Hunk.end2 (h : Hunk) : Nat := h.start2 + h.size2

/-- Whether two sides changed lines of the base that overlap or touch. -/
def Hunk.Meets (a b : Hunk) : Prop := a.start1 ≤ b.end1 ∧ b.start1 ≤ a.end1

/-- Regions that follow each other with lines in between, which both texts share: `shift` is how far
those before the first region are apart in the two texts. -/
def Aligned : Int → List Hunk → Prop
  | _, [] => True
  | shift, h :: rest =>
    h.shiftBefore = shift ∧ (∀ k ∈ rest, h.end1 < k.start1 ∧ h.end2 < k.start2) ∧ Aligned h.shiftAfter rest

theorem endOfRun_spec (m : Marks) (i : Nat) :
    i ≤ endOfRun m i ∧ m.get (endOfRun m i) = false ∧ ∀ k, i ≤ k → k < endOfRun m i → m.get k = true := by
  induction i using endOfRun.induct m with
  | case1 i hlt hmark ih =>
    rw [endOfRun, dif_pos hlt, if_pos hmark]
    refine ⟨by omega, ih.2.1, ?_⟩
    intro k hk hend
    by_cases hki : k = i
    · exact hki ▸ hmark
    · exact ih.2.2 k (by omega) hend
  | case2 i hlt hmark =>
    rw [endOfRun, dif_pos hlt, if_neg hmark]
    exact ⟨Nat.le_refl i, Bool.eq_false_iff.mpr hmark, by omega⟩
  | case3 i hge =>
    rw [endOfRun, dif_neg hge]
    refine ⟨Nat.le_refl i, ?_, by omega⟩
    simp [Marks.get, hge]

theorem le_of_mem_hunksFrom {m n : Marks} {fuel i j : Nat} {k : Hunk} (hk : k ∈ hunksFrom m n fuel i j) :
    i ≤ k.start1 ∧ j ≤ k.start2 := by
  induction fuel generalizing i j with
  | zero => cases hk
  | succ fuel ih =>
    unfold hunksFrom at hk
    split at hk
    · cases hk
    · split at hk
      · rcases List.mem_cons.mp hk with rfl | hk
        · exact ⟨Nat.le_refl i, Nat.le_refl j⟩
        · have hle := ih hk
          have hi := (endOfRun_spec m i).1
          have hj := (endOfRun_spec n j).1
          omega
      · have hle := ih hk
        omega

/-- Behind unmarked lines the next region begins later. -/
theorem lt_of_mem_hunksFrom {m n : Marks} {fuel i j : Nat} (hm : m.get i = false) (hn : n.get j = false)
    {k : Hunk} (hk : k ∈ hunksFrom m n fuel i j) : i < k.start1 ∧ j < k.start2 := by
  cases fuel with
  | zero => cases hk
  | succ fuel =>
    simp only [hunksFrom, hm, hn, Bool.or_false, Bool.false_eq_true, if_false] at hk
    split at hk
    · cases hk
    · exact le_of_mem_hunksFrom hk

theorem hunksFrom_aligned (m n : Marks) (fuel i j : Nat) :
    Aligned ((j : Int) - i) (hunksFrom m n fuel i j) := by
  induction fuel generalizing i j with
  | zero => trivial
  | succ fuel ih =>
    unfold hunksFrom
    split
    · trivial
    · split
      · -- a region ends at lines that are not marked, so the next one begins later
        obtain ⟨hi, hmi, _⟩ := endOfRun_spec m i
        obtain ⟨hj, hnj, _⟩ := endOfRun_spec n j
        refine ⟨rfl, ?_, ?_⟩
        · intro k hk
          have hlt := lt_of_mem_hunksFrom hmi hnj hk
          simp only [Hunk.end1, Hunk.end2]
          omega
        · have hshift : ((j + (endOfRun n j - j) : Nat) : Int) - (i + (endOfRun m i - i) : Nat) =
              (endOfRun n j : Int) - endOfRun m i := by omega
          simp only [Hunk.shiftAfter, hshift]
          exact ih _ _
      · have hshift : (j : Int) - i = ((j + 1 : Nat) : Int) - (i + 1 : Nat) := by omega
        rw [hshift]
        exact ih _ _

theorem hunks_aligned (a b : Array String) : Aligned 0 (hunks a b) := hunksFrom_aligned _ _ _ 0 0

end Diff

open Diff

/-! ## Conflicts -/

/-- A region is a conflict that takes in what lies between two places of each side. -/
structure MergeRegion.Holds (r : MergeRegion) (start1 start2 stop1 stop2 : Int) : Prop where
  source : r.source = none
  start1 : r.start1 ≤ start1
  start2 : r.start2 ≤ start2
  stop1 : stop1 ≤ r.start1 + r.size1
  stop2 : stop2 ≤ r.start2 + r.size2

variable {start1 start2 stop1 stop2 : Int} {next : MergeRegion} {found : List MergeRegion}

/-- A conflict stays one, and loses nothing to a region that ends behind it. -/
theorem MergeRegion.Holds.push (h : ∃ r ∈ found, r.Holds start1 start2 stop1 stop2)
    (hstop1 : stop1 ≤ next.start1 + next.size1) (hstop2 : stop2 ≤ next.start2 + next.size2) :
    ∃ r ∈ MergeRegion.push next found, r.Holds start1 start2 stop1 stop2 := by
  obtain ⟨r, hr, hholds⟩ := h
  cases found with
  | nil => cases hr
  | cons last earlier =>
    rw [MergeRegion.push]
    split
    · rcases List.mem_cons.mp hr with rfl | hr
      · refine ⟨_, List.mem_cons_self, ?_, hholds.start1, hholds.start2, ?_, ?_⟩
        · simp [MergeRegion.cover, hholds.source]
        · simp only [MergeRegion.cover]
          omega
        · simp only [MergeRegion.cover]
          omega
      · exact ⟨r, List.mem_cons_of_mem _ hr, hholds⟩
    · exact ⟨r, List.mem_cons_of_mem _ hr, hholds⟩

/-- A region that is pushed is taken in by the last one if that begins early enough. -/
theorem MergeRegion.Holds.pushed (h : next.Holds start1 start2 stop1 stop2)
    (hbefore : ∀ r ∈ found, r.start1 ≤ start1 ∧ r.start2 ≤ start2) :
    ∃ r ∈ MergeRegion.push next found, r.Holds start1 start2 stop1 stop2 := by
  cases found with
  | nil => exact ⟨next, List.mem_cons_self, h⟩
  | cons last earlier =>
    rw [MergeRegion.push]
    split
    · obtain ⟨hstart1, hstart2⟩ := hbefore last List.mem_cons_self
      have hstop1 := h.stop1
      have hstop2 := h.stop2
      refine ⟨_, List.mem_cons_self, ?_, hstart1, hstart2, ?_, ?_⟩
      · simp [MergeRegion.cover, h.source]
      · simp only [MergeRegion.cover]
        omega
      · simp only [MergeRegion.cover]
        omega
    · exact ⟨next, List.mem_cons_self, h⟩

/-- Whether place `e` of one side lies before the end of every region that is still to come: `own` are
those of the side, `other` those of the other side, of which the ones before all of `own` are put
`shift` lines further on. -/
structure Room (own other : List Hunk) (shift e : Int) : Prop where
  ends : ∀ a ∈ own, e ≤ a.end2
  others : ∀ b ∈ other, (∀ a ∈ own, b.end1 < a.start1) → e ≤ b.end1 + shift

variable {a b : Hunk} {as bs own other : List Hunk} {shift e : Int}

theorem Room.tail_other (h : Room own (b :: other) shift e) : Room own other shift e :=
  ⟨h.ends, fun c hc => h.others c (List.mem_cons_of_mem b hc)⟩

/-- Once a region is done with there is room behind it if no region of the other side ends sooner. -/
theorem Room.done (hown : ∀ c ∈ own, e ≤ c.end2) (hother : ∀ c ∈ other, a.end1 ≤ c.end1) (he : e ≤ a.end2) :
    Room own other a.shiftAfter e := by
  refine ⟨hown, ?_⟩
  intro c hc _
  have hle := hother c hc
  simp only [Hunk.shiftAfter, Hunk.end1, Hunk.end2] at *
  omega

theorem Room.done_next (h : Room (a :: own) (other) shift e) (hother : ∀ c ∈ other, a.end1 ≤ c.end1) :
    Room own other a.shiftAfter e :=
  .done (fun c hc => h.ends c (List.mem_cons_of_mem a hc)) hother (h.ends a List.mem_cons_self)

/-- A region that is kept because one of the other side that it meets ends sooner leaves room behind it. -/
theorem Room.kept (ha : Aligned shift (a :: own)) (hb : Aligned shift' (b :: other)) (hmeets : a.Meets b) :
    Room (a :: own) other shift a.end2 := by
  constructor
  · intro c hc
    rcases List.mem_cons.mp hc with rfl | hc
    · exact Int.le_refl _
    · have hlt := (ha.2.1 c hc).2
      simp only [Hunk.end2] at *
      omega
  · intro c hc hbelow
    have hlt := (hb.2.1 c hc).1
    have hlt' := hbelow a List.mem_cons_self
    have hle := hmeets.1
    simp only [Hunk.end1] at *
    omega

variable {ours theirs : Array String} {shift1 shift2 : Int}

theorem end1_le_of_aligned (hb : Aligned shift (b :: bs)) {e : Nat} (he : e ≤ b.end1) :
    ∀ c ∈ b :: bs, e ≤ c.end1 := by
  intro c hc
  rcases List.mem_cons.mp hc with rfl | hc
  · exact he
  · have hlt := (hb.2.1 c hc).1
    simp only [Hunk.end1] at *
    omega

theorem lt_start1_of_aligned (hb : Aligned shift (b :: bs)) {e : Nat} (he : e < b.start1) :
    ∀ c ∈ b :: bs, e < c.start1 := by
  intro c hc
  rcases List.mem_cons.mp hc with rfl | hc
  · exact he
  · have hlt := (hb.2.1 c hc).1
    simp only [Hunk.end1] at *
    omega

theorem MergeRegion.stop_ofBoth (a b : Hunk) :
    (a.end2 : Int) ≤ (MergeRegion.ofBoth a b).start1 + (MergeRegion.ofBoth a b).size1 ∧
      (b.end2 : Int) ≤ (MergeRegion.ofBoth a b).start2 + (MergeRegion.ofBoth a b).size2 := by
  simp only [MergeRegion.ofBoth, Hunk.end2]
  omega

theorem MergeRegion.start_ofBoth (a b : Hunk) :
    (MergeRegion.ofBoth a b).start1 ≤ a.start2 ∧ (MergeRegion.ofBoth a b).start2 ≤ b.start2 := by
  simp only [MergeRegion.ofBoth]
  omega

/-! ## Laying regions over each other -/

/-- What is found with two regions that meet. -/
def laid (ours theirs : Array String) (a b : Hunk) (found : List MergeRegion) : List MergeRegion :=
  if sameHunk ours theirs a b then found else MergeRegion.push (.ofBoth a b) found

/-- Of two regions that meet the one that ends sooner is done with, or both are. -/
theorem overlay_of_meets (hmeets : a.Meets b) (fuel : Nat) :
    overlay ours theirs (fuel + 1) (a :: as) (b :: bs) shift1 shift2 found =
      if a.end1 < b.end1 then
        overlay ours theirs fuel as (b :: bs) a.shiftAfter shift2 (laid ours theirs a b found)
      else if b.end1 < a.end1 then
        overlay ours theirs fuel (a :: as) bs shift1 b.shiftAfter (laid ours theirs a b found)
      else overlay ours theirs fuel as bs a.shiftAfter b.shiftAfter (laid ours theirs a b found) := by
  obtain ⟨hba, hab⟩ := hmeets
  have hend1 : a.start1 + a.size1 = a.end1 := rfl
  have hend1' : b.start1 + b.size1 = b.end1 := rfl
  rw [overlay]
  dsimp only
  rw [hend1, hend1', if_neg (Nat.not_lt.mpr hab), if_neg (Nat.not_lt.mpr hba)]
  rcases Nat.lt_trichotomy a.end1 b.end1 with hlt | heq | hlt
  · rw [if_pos hlt, if_pos (Nat.le_of_lt hlt), if_neg (Nat.not_le.mpr hlt)]
    rfl
  · rw [heq, if_neg (Nat.lt_irrefl _), if_pos (Nat.le_refl _), if_pos (Nat.le_refl _)]
    rw [if_neg (Nat.lt_irrefl _)]
    rfl
  · rw [if_neg (Nat.not_lt.mpr (Nat.le_of_lt hlt)), if_pos hlt, if_neg (Nat.not_le.mpr hlt),
      if_pos (Nat.le_of_lt hlt)]
    rfl

theorem MergeRegion.Holds.laid (h : ∃ r ∈ found, r.Holds start1 start2 stop1 stop2) (hstop1 : stop1 ≤ a.end2)
    (hstop2 : stop2 ≤ b.end2) : ∃ r ∈ laid ours theirs a b found, r.Holds start1 start2 stop1 stop2 := by
  have hboth := MergeRegion.stop_ofBoth a b
  unfold Chronicle.laid
  split
  · exact h
  · exact MergeRegion.Holds.push h (Int.le_trans hstop1 hboth.1) (Int.le_trans hstop2 hboth.2)

/-- A region of our side that ends before the next one of theirs is one of its own. -/
theorem overlay_of_lt (hb : Aligned shift2 (b :: bs)) (hlt : a.end1 < b.start1) (fuel : Nat) :
    overlay ours theirs (fuel + 1) (a :: as) (b :: bs) shift1 shift2 found =
      overlay ours theirs fuel as (b :: bs) a.shiftAfter shift2 (MergeRegion.push (.ofOurs a shift2) found) := by
  have hend1 : a.start1 + a.size1 = a.end1 := rfl
  rw [overlay]
  dsimp only
  rw [hend1, if_pos hlt, hb.1]

theorem overlay_of_gt (ha : Aligned shift1 (a :: as)) (hlt : ¬ a.end1 < b.start1) (hlt' : b.end1 < a.start1)
    (fuel : Nat) : overlay ours theirs (fuel + 1) (a :: as) (b :: bs) shift1 shift2 found =
      overlay ours theirs fuel (a :: as) bs shift1 b.shiftAfter (MergeRegion.push (.ofTheirs b shift1) found) := by
  have hend1 : a.start1 + a.size1 = a.end1 := rfl
  have hend1' : b.start1 + b.size1 = b.end1 := rfl
  rw [overlay]
  dsimp only
  rw [hend1, hend1', if_neg hlt, if_pos hlt', ha.1]

theorem push_ofOurs (h : ∃ r ∈ found, r.Holds start1 start2 stop1 stop2) (hstop1 : stop1 ≤ a.end2)
    (hstop2 : stop2 ≤ a.end1 + shift) :
    ∃ r ∈ MergeRegion.push (.ofOurs a shift) found, r.Holds start1 start2 stop1 stop2 := by
  apply MergeRegion.Holds.push h
  · exact hstop1
  · simp only [MergeRegion.ofOurs, Hunk.end1] at *
    omega

theorem push_ofTheirs (h : ∃ r ∈ found, r.Holds start1 start2 stop1 stop2) (hstop1 : stop1 ≤ b.end1 + shift)
    (hstop2 : stop2 ≤ b.end2) :
    ∃ r ∈ MergeRegion.push (.ofTheirs b shift) found, r.Holds start1 start2 stop1 stop2 := by
  apply MergeRegion.Holds.push h
  · simp only [MergeRegion.ofTheirs, Hunk.end1] at *
    omega
  · exact hstop2

/-- A conflict that was found stays, whatever regions follow. By induction on the regions that are left:
the one that is pushed next ends behind it. -/
theorem overlay_holds (fuel : Nat) (ha : Aligned shift1 as) (hb : Aligned shift2 bs)
    (h : ∃ r ∈ found, r.Holds start1 start2 stop1 stop2) (h1 : Room as bs shift1 stop1)
    (h2 : Room bs as shift2 stop2) :
    ∃ r ∈ overlay ours theirs fuel as bs shift1 shift2 found, r.Holds start1 start2 stop1 stop2 := by
  induction fuel generalizing as bs shift1 shift2 found with
  | zero => exact h
  | succ fuel ih =>
    match as, bs with
    | [], [] => exact h
    | a :: as, [] =>
      have hnil : Aligned shift2 [] := trivial
      have hroom := h2.others a List.mem_cons_self fun b hb => absurd hb List.not_mem_nil
      rw [overlay]
      apply ih ha.2.2 hnil
      · exact push_ofOurs h (h1.ends a List.mem_cons_self) hroom
      · exact h1.done_next fun c hc => absurd hc List.not_mem_nil
      · exact h2.tail_other
    | [], b :: bs =>
      have hnil : Aligned shift1 [] := trivial
      have hroom := h1.others b List.mem_cons_self fun a ha => absurd ha List.not_mem_nil
      rw [overlay]
      apply ih hnil hb.2.2
      · exact push_ofTheirs h hroom (h2.ends b List.mem_cons_self)
      · exact h1.tail_other
      · exact h2.done_next fun c hc => absurd hc List.not_mem_nil
    | a :: as, b :: bs =>
      have hend1 := h1.ends a List.mem_cons_self
      have hend2 := h2.ends b List.mem_cons_self
      -- the region that ends first is done with: it is one of its own, or they meet
      by_cases hlt : a.end1 < b.start1
      · have hroom := h2.others a List.mem_cons_self (lt_start1_of_aligned hb hlt)
        rw [overlay_of_lt hb hlt]
        apply ih ha.2.2 hb
        · exact push_ofOurs h hend1 hroom
        · exact h1.done_next (end1_le_of_aligned hb (Nat.le_trans (Nat.le_of_lt hlt) (Nat.le_add_right _ _)))
        · exact h2.tail_other
      · by_cases hlt' : b.end1 < a.start1
        · have hroom := h1.others b List.mem_cons_self (lt_start1_of_aligned ha hlt')
          rw [overlay_of_gt ha hlt hlt']
          apply ih ha hb.2.2
          · exact push_ofTheirs h hroom hend2
          · exact h1.tail_other
          · exact h2.done_next (end1_le_of_aligned ha (Nat.le_trans (Nat.le_of_lt hlt') (Nat.le_add_right _ _)))
        · have hlaid : ∃ r ∈ laid ours theirs a b found, r.Holds start1 start2 stop1 stop2 :=
            MergeRegion.Holds.laid h hend1 hend2
          rw [overlay_of_meets ⟨Nat.not_lt.mp hlt', Nat.not_lt.mp hlt⟩]
          split
          · rename_i hab
            exact ih ha.2.2 hb hlaid (h1.done_next (end1_le_of_aligned hb (Nat.le_of_lt hab))) h2.tail_other
          · rename_i hba
            split
            · rename_i hba
              exact ih ha hb.2.2 hlaid h1.tail_other (h2.done_next (end1_le_of_aligned ha (Nat.le_of_lt hba)))
            · rename_i hab
              have hb' := end1_le_of_aligned hb (Nat.not_lt.mp hab)
              have ha' := end1_le_of_aligned ha (Nat.not_lt.mp hba)
              apply ih ha.2.2 hb.2.2 hlaid
              · exact h1.tail_other.done_next fun c hc => hb' c (List.mem_cons_of_mem b hc)
              · exact h2.tail_other.done_next fun c hc => ha' c (List.mem_cons_of_mem a hc)

/-- Whether the regions that were found begin before those that are left. -/
def Before (found : List MergeRegion) (as bs : List Hunk) : Prop :=
  ∀ r ∈ found, (∀ a ∈ as, r.start1 ≤ a.start2) ∧ ∀ b ∈ bs, r.start2 ≤ b.start2

theorem Before.push (h : Before found as bs) (hnext : Before [next] as bs) :
    Before (MergeRegion.push next found) as bs := by
  cases found with
  | nil => exact hnext
  | cons last earlier =>
    have hlast := h last List.mem_cons_self
    intro r hr
    rw [MergeRegion.push] at hr
    split at hr
    · rcases List.mem_cons.mp hr with rfl | hr
      · exact hlast
      · exact h r (List.mem_cons_of_mem _ hr)
    · rcases List.mem_cons.mp hr with rfl | hr
      · exact hnext _ List.mem_cons_self
      · exact h r hr

theorem Before.subset (h : Before found as bs) (has : own ⊆ as) (hbs : other ⊆ bs) :
    Before found own other :=
  fun r hr => ⟨fun a ha => (h r hr).1 a (has ha), fun b hb => (h r hr).2 b (hbs hb)⟩

theorem start2_le_of_aligned (hb : Aligned shift (b :: bs)) (he : e ≤ b.start2) :
    ∀ c ∈ b :: bs, e ≤ c.start2 := by
  intro c hc
  rcases List.mem_cons.mp hc with rfl | hc
  · exact he
  · have hlt := (hb.2.1 c hc).2
    simp only [Hunk.end2] at *
    omega

theorem end2_le_of_aligned (ha : Aligned shift (a :: as)) : ∀ c ∈ a :: as, (a.end2 : Int) ≤ c.end2 := by
  intro c hc
  rcases List.mem_cons.mp hc with rfl | hc
  · exact Int.le_refl _
  · have hlt := (ha.2.1 c hc).2
    simp only [Hunk.end2] at *
    omega

/-- A region that ends sooner than one of the other side meets none of those behind that one. -/
theorem not_meets_of_aligned (hb : Aligned shift (b :: bs)) (hab : a.end1 ≤ b.end1) {k : Hunk} (hk : k ∈ bs) :
    ¬ a.Meets k := by
  intro hmeets
  have hlt := (hb.2.1 k hk).1
  have hle := hmeets.2
  omega

theorem Before.ofOurs (h : Before found (a :: as) bs) (ha : Aligned shift1 (a :: as))
    (hstart : ∀ c ∈ bs, a.start1 + shift2 ≤ c.start2) : Before (MergeRegion.push (.ofOurs a shift2) found) as bs := by
  apply Before.push (h.subset (List.subset_cons_self a as) (List.Subset.refl _))
  intro r hr
  cases List.mem_singleton.mp hr
  exact ⟨fun c hc => start2_le_of_aligned ha (Int.le_refl _) c (List.mem_cons_of_mem a hc), hstart⟩

theorem Before.ofTheirs (h : Before found as (b :: bs)) (hb : Aligned shift2 (b :: bs))
    (hstart : ∀ c ∈ as, b.start1 + shift1 ≤ c.start2) :
    Before (MergeRegion.push (.ofTheirs b shift1) found) as bs := by
  apply Before.push (h.subset (List.Subset.refl _) (List.subset_cons_self b bs))
  intro r hr
  cases List.mem_singleton.mp hr
  exact ⟨hstart, fun c hc => start2_le_of_aligned hb (Int.le_refl _) c (List.mem_cons_of_mem b hc)⟩

theorem Before.laid (h : Before found (a :: as) (b :: bs)) (ha : Aligned shift1 (a :: as))
    (hb : Aligned shift2 (b :: bs)) : Before (laid ours theirs a b found) (a :: as) (b :: bs) := by
  have hboth := MergeRegion.start_ofBoth a b
  unfold Chronicle.laid
  split
  · exact h
  · apply Before.push h
    intro r hr
    cases List.mem_singleton.mp hr
    exact ⟨start2_le_of_aligned ha hboth.1, start2_le_of_aligned hb hboth.2⟩

/-- Two regions that meet are in a conflict together, unless they are alike. -/
theorem holds_laid (h : Before found (a :: as) (b :: bs)) (hdiffer : sameHunk ours theirs a b = false) :
    ∃ r ∈ laid ours theirs a b found, r.Holds a.start2 b.start2 a.end2 b.end2 := by
  have hstart := MergeRegion.start_ofBoth a b
  have hstop := MergeRegion.stop_ofBoth a b
  unfold laid
  rw [hdiffer]
  apply MergeRegion.Holds.pushed ⟨rfl, hstart.1, hstart.2, hstop.1, hstop.2⟩
  intro r hr
  exact ⟨(h r hr).1 a List.mem_cons_self, (h r hr).2 b List.mem_cons_self⟩

/-- Two regions that meet when it is their turn are in a conflict together in the end. -/
theorem overlay_meets_head (fuel : Nat) (ha : Aligned shift1 (a :: as)) (hb : Aligned shift2 (b :: bs))
    (hbefore : Before found (a :: as) (b :: bs)) (hmeets : a.Meets b) (hdiffer : sameHunk ours theirs a b = false) :
    ∃ r ∈ overlay ours theirs (fuel + 1) (a :: as) (b :: bs) shift1 shift2 found,
      r.Holds a.start2 b.start2 a.end2 b.end2 := by
  have hours : ∀ c ∈ as, (a.end2 : Int) ≤ c.end2 :=
    fun c hc => end2_le_of_aligned ha c (List.mem_cons_of_mem a hc)
  have htheirs : ∀ c ∈ bs, (b.end2 : Int) ≤ c.end2 :=
    fun c hc => end2_le_of_aligned hb c (List.mem_cons_of_mem b hc)
  have hlaid := holds_laid hbefore hdiffer
  rw [overlay_of_meets hmeets]
  split
  · -- only the region of our side is done with
    rename_i hab
    apply overlay_holds fuel ha.2.2 hb hlaid
    · exact .done hours (end1_le_of_aligned hb (Nat.le_of_lt hab)) (Int.le_refl _)
    · exact .kept hb ha ⟨hmeets.2, hmeets.1⟩
  · rename_i hba
    split
    · -- only the region of their side is done with
      rename_i hba
      apply overlay_holds fuel ha hb.2.2 hlaid
      · exact .kept ha hb hmeets
      · exact .done htheirs (end1_le_of_aligned ha (Nat.le_of_lt hba)) (Int.le_refl _)
    · -- both are done with
      rename_i hab
      have hb' := end1_le_of_aligned hb (Nat.not_lt.mp hab)
      have ha' := end1_le_of_aligned ha (Nat.not_lt.mp hba)
      apply overlay_holds fuel ha.2.2 hb.2.2 hlaid
      · exact .done hours (fun c hc => hb' c (List.mem_cons_of_mem b hc)) (Int.le_refl _)
      · exact .done htheirs (fun c hc => ha' c (List.mem_cons_of_mem a hc)) (Int.le_refl _)

/-- **Where both sides changed lines of the base that overlap or touch, there is a conflict**, which takes
in the lines of both, unless both made the same of the same lines. By induction on the regions that are
left: regions that meet are both there until they are laid over each other. -/
theorem overlay_meets (fuel : Nat) (ha : Aligned shift1 as) (hb : Aligned shift2 bs)
    (hfuel : as.length + bs.length ≤ fuel) (hbefore : Before found as bs) {h k : Hunk} (hh : h ∈ as) (hk : k ∈ bs)
    (hmeets : h.Meets k) (hdiffer : sameHunk ours theirs h k = false) :
    ∃ r ∈ overlay ours theirs fuel as bs shift1 shift2 found,
      r.Holds h.start2 k.start2 h.end2 k.end2 := by
  induction fuel generalizing as bs shift1 shift2 found with
  | zero =>
    have hpos := List.length_pos_of_mem hh
    omega
  | succ fuel ih =>
    match as, bs with
    | [], _ => cases hh
    | _, [] => cases hk
    | a :: as, b :: bs =>
      have hshift1 : a.shiftBefore = shift1 := ha.1
      have hshift2 : b.shiftBefore = shift2 := hb.1
      simp only [Hunk.shiftBefore] at hshift1 hshift2
      rw [List.length_cons, List.length_cons] at hfuel
      by_cases hlt : a.end1 < b.start1
      · -- the first region of our side meets none of the other
        have hh' : h ∈ as := by
          rcases List.mem_cons.mp hh with rfl | hh
          · exact absurd hmeets.2 (Nat.not_le.mpr (lt_start1_of_aligned hb hlt k hk))
          · exact hh
        rw [overlay_of_lt hb hlt]
        refine ih ha.2.2 hb (by simp only [List.length_cons]; omega) ?_ hh' hk
        apply hbefore.ofOurs ha
        apply start2_le_of_aligned hb
        simp only [Hunk.end1] at hlt
        omega
      · by_cases hlt' : b.end1 < a.start1
        · have hk' : k ∈ bs := by
            rcases List.mem_cons.mp hk with rfl | hk
            · exact absurd hmeets.1 (Nat.not_le.mpr (lt_start1_of_aligned ha hlt' h hh))
            · exact hk
          rw [overlay_of_gt ha hlt hlt']
          refine ih ha hb.2.2 (by simp only [List.length_cons]; omega) ?_ hh hk'
          apply hbefore.ofTheirs hb
          apply start2_le_of_aligned ha
          simp only [Hunk.end1] at hlt'
          omega
        · have hmeets' : a.Meets b := ⟨Nat.not_lt.mp hlt', Nat.not_lt.mp hlt⟩
          have hlaid : Before (laid ours theirs a b found) (a :: as) (b :: bs) := hbefore.laid ha hb
          by_cases hboth : h = a ∧ k = b
          · obtain ⟨rfl, rfl⟩ := hboth
            exact overlay_meets_head fuel ha hb hbefore hmeets hdiffer
          · -- a region that is done with is not the one that is to meet another
            have hours : a.end1 ≤ b.end1 → h ∈ as := by
              intro hab
              rcases List.mem_cons.mp hh with rfl | hh
              · rcases List.mem_cons.mp hk with rfl | hk
                · exact absurd ⟨rfl, rfl⟩ hboth
                · exact absurd hmeets (not_meets_of_aligned hb hab hk)
              · exact hh
            have htheirs : b.end1 ≤ a.end1 → k ∈ bs := by
              intro hba
              rcases List.mem_cons.mp hk with rfl | hk
              · rcases List.mem_cons.mp hh with rfl | hh
                · exact absurd ⟨rfl, rfl⟩ hboth
                · exact absurd ⟨hmeets.2, hmeets.1⟩ (not_meets_of_aligned ha hba hh)
              · exact hk
            have has := List.subset_cons_self a as
            have hbs := List.subset_cons_self b bs
            rw [overlay_of_meets hmeets']
            split
            · rename_i hab
              have hsmaller := hlaid.subset has (List.Subset.refl (b :: bs))
              exact ih ha.2.2 hb (by simp only [List.length_cons]; omega) hsmaller
                (hours (Nat.le_of_lt hab)) hk
            · rename_i hba
              split
              · rename_i hba
                have hsmaller := hlaid.subset (List.Subset.refl (a :: as)) hbs
                exact ih ha hb.2.2 (by simp only [List.length_cons]; omega) hsmaller hh
                  (htheirs (Nat.le_of_lt hba))
              · rename_i hab
                exact ih ha.2.2 hb.2.2 (by omega) (hlaid.subset has hbs) (hours (Nat.not_lt.mp hab))
                  (htheirs (Nat.not_lt.mp hba))

/-! ## The merged text -/

/-- The regions of a merge of two texts that come from one base, in order. -/
def mergeRegions (base ours theirs : String) : List MergeRegion :=
  let as := hunks (lines base) (lines ours)
  let bs := hunks (lines base) (lines theirs)
  (overlay (lines ours) (lines theirs) (as.length + bs.length) as bs 0 0 []).reverse

theorem mergeLines_favor (side : Side) (base ours theirs : String) :
    mergeLines (some side) base ours theirs =
      ⟨String.join (assemble (some side) (lines ours) (lines theirs) 0 (mergeRegions base ours theirs)), false⟩ :=
  rfl

/-- A region stands in the text with its lines, and our side goes on behind it. -/
theorem assemble_append (favor : Option Side) (ours theirs : Array String) (i : Int) (earlier : List MergeRegion)
    (r : MergeRegion) (later : List MergeRegion) :
    ∃ before, assemble favor ours theirs i (earlier ++ r :: later) =
      before ++ r.lines favor ours theirs ++ assemble favor ours theirs (r.start1 + r.size1) later := by
  induction earlier generalizing i with
  | nil => exact ⟨excerpt ours i (r.start1 - i), rfl⟩
  | cons first earlier ih =>
    obtain ⟨before, hbefore⟩ := ih (first.start1 + first.size1)
    refine ⟨excerpt ours i (first.start1 - i) ++ first.lines favor ours theirs ++ before, ?_⟩
    rw [List.cons_append, assemble, hbefore]
    simp only [List.append_assoc]

/-- Whether a merged text has the lines of theirs wherever both sides changed lines of the base that
overlap or touch, each in its own way: those of a region that takes in the changed lines of both sides.
Our lines go on behind that region. -/
def PrefersTheirs (base ours theirs merged : String) : Prop :=
  ∀ h ∈ hunks (lines base) (lines ours), ∀ k ∈ hunks (lines base) (lines theirs),
    h.Meets k → sameHunk (lines ours) (lines theirs) h k = false →
    ∃ r : MergeRegion, r.Holds h.start2 k.start2 h.end2 k.end2 ∧ ∃ before later,
      merged = String.join before ++ String.join (excerpt (lines theirs) r.start2 r.size2) ++
        String.join (assemble (some .theirs) (lines ours) (lines theirs) (r.start1 + r.size1) later)

/-- **Where both sides changed overlapping lines, a merge that lets theirs win has the lines of theirs.** -/
theorem mergeLines_prefersTheirs (base ours theirs : String) :
    PrefersTheirs base ours theirs (mergeLines (some .theirs) base ours theirs).text := by
  intro h hh k hk hmeets hdiffer
  have hnone : Before [] (hunks (lines base) (lines ours)) (hunks (lines base) (lines theirs)) :=
    fun r hr => absurd hr List.not_mem_nil
  obtain ⟨r, hr, hholds⟩ := overlay_meets _ (hunks_aligned _ _) (hunks_aligned _ _) (Nat.le_refl _) hnone
    hh hk hmeets hdiffer
  have hmem : r ∈ mergeRegions base ours theirs := List.mem_reverse.mpr hr
  obtain ⟨earlier, later, hregions⟩ := List.append_of_mem hmem
  obtain ⟨before, htext⟩ :=
    assemble_append (some .theirs) (lines ours) (lines theirs) 0 earlier r later
  have hlines : r.lines (some .theirs) (lines ours) (lines theirs) =
      excerpt (lines theirs) r.start2 r.size2 := by
    simp only [MergeRegion.lines, hholds.source]
  refine ⟨r, hholds, before, later, ?_⟩
  rw [mergeLines_favor, hregions, htext, hlines, String.join_append, String.join_append]

end Chronicle
