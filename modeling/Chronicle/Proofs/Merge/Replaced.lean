import Chronicle.Proofs.Merge.Regions
import Mathlib.Data.List.GetD
import Mathlib.Tactic.ByContra

/-!
# Texts that replace the same lines

Two texts may differ in that some lines of one were replaced by others, where neither text has a line of
what the other has in its place (`Diff.Swap`). Then nothing is left to compare between what both share
before and after, and they differ in this one region (`Diff.Swap.hunks_eq`). **If both sides of a merge
replaced the same lines, the merge that theirs win is the text of theirs** (`mergeLines_replaced`).
-/

namespace Chronicle

namespace Diff

/-- Two texts share what comes before and after some lines, which the other text does not have. -/
structure Swap (a b : Array String) (head old new tail : List String) : Prop where
  left : a.toList = head ++ (old ++ tail)
  right : b.toList = head ++ (new ++ tail)
  gone : ∀ line ∈ old, line ∉ b.toList
  fresh : ∀ line ∈ new, line ∉ a.toList

variable {a b : Array String} {head old new tail : List String}

theorem Swap.symm (h : Swap a b head old new tail) : Swap b a head new old tail :=
  ⟨h.right, h.left, h.fresh, h.gone⟩

/-! ## Lines -/

theorem lineAt_eq (a : Array String) (i : Nat) : lineAt a i = a.toList.getD i "" := by
  simp [lineAt]

theorem lineAt_mem {i : Nat} (hi : i < a.size) : lineAt a i ∈ a.toList := by
  simp [lineAt, hi]

theorem Swap.size (h : Swap a b head old new tail) : a.size = head.length + (old.length + tail.length) := by
  rw [← Array.length_toList, h.left, List.length_append, List.length_append]

theorem Swap.lineAt_head (h : Swap a b head old new tail) {i : Nat} (hi : i < head.length) :
    lineAt a i = head.getD i "" := by
  rw [lineAt_eq, h.left, List.getD_append _ _ _ _ hi]

theorem Swap.lineAt_old (h : Swap a b head old new tail) {i : Nat} (hi : i < old.length) :
    lineAt a (head.length + i) = old.getD i "" := by
  rw [lineAt_eq, h.left, List.getD_append_right _ _ _ _ (Nat.le_add_right _ _), Nat.add_sub_cancel_left,
    List.getD_append _ _ _ _ hi]

theorem Swap.lineAt_tail (h : Swap a b head old new tail) (i : Nat) :
    lineAt a (head.length + (old.length + i)) = tail.getD i "" := by
  rw [lineAt_eq, h.left, List.getD_append_right _ _ _ _ (Nat.le_add_right _ _), Nat.add_sub_cancel_left,
    List.getD_append_right _ _ _ _ (Nat.le_add_right _ _), Nat.add_sub_cancel_left]

theorem Swap.old_mem (h : Swap a b head old new tail) {i : Nat} (hi : i < old.length) :
    lineAt a (head.length + i) ∈ old := by
  rw [h.lineAt_old hi, List.getD_eq_getElem _ _ hi]
  exact List.getElem_mem hi

/-- A line that is replaced is not one of the other text. -/
theorem Swap.lineAt_ne (h : Swap a b head old new tail) {i j : Nat} (hi : i < old.length) (hj : j < b.size) :
    lineAt a (head.length + i) ≠ lineAt b j := by
  intro heq
  exact h.gone _ (h.old_mem hi) (heq ▸ lineAt_mem hj)

/-! ## What both texts share -/

theorem Swap.ne_behind_head (h : Swap a b head old new tail) (hsome : old ≠ [] ∨ new ≠ [])
    (ha : head.length < a.size) (hb : head.length < b.size) :
    lineAt a head.length ≠ lineAt b head.length := by
  rcases hsome with hold | hnew
  · exact h.lineAt_ne (List.length_pos_iff.mpr hold) hb
  · exact (h.symm.lineAt_ne (List.length_pos_iff.mpr hnew) ha).symm

theorem Swap.commonStart_eq (h : Swap a b head old new tail) (hsome : old ≠ [] ∨ new ≠ []) {i : Nat}
    (hi : i ≤ head.length) : commonStart a b i = head.length := by
  have ha := h.size
  have hb := h.symm.size
  induction i using commonStart.induct a b with
  | case1 i hlt heq ih =>
    -- lines that are alike are lines of the head
    have hne : i ≠ head.length := by
      rintro rfl
      exact h.ne_behind_head hsome hlt.1 hlt.2 (beq_iff_eq.mp heq)
    rw [commonStart, dif_pos hlt, if_pos heq]
    exact ih (by omega)
  | case2 i hlt hne =>
    rw [commonStart, dif_pos hlt, if_neg hne]
    rcases Nat.lt_or_eq_of_le hi with hi | hi
    · rw [h.lineAt_head hi, h.symm.lineAt_head hi] at hne
      exact absurd (beq_self_eq_true _) hne
    · exact hi
  | case3 i hge =>
    rw [commonStart, dif_neg hge]
    omega

theorem Swap.commonEnd_eq (h : Swap a b head old new tail) (k found : Nat) (hk : found + k = tail.length) :
    commonEnd a b (k + min old.length new.length) found = tail.length := by
  have ha := h.size
  have hb := h.symm.size
  induction k generalizing found with
  | zero =>
    rw [Nat.zero_add]
    cases hroom : min old.length new.length with
    | zero => exact hk
    | succ room =>
      have hold : old.length - 1 < old.length := by omega
      have hlast : a.size - 1 - found = head.length + (old.length - 1) := by omega
      have hne := h.lineAt_ne hold (j := b.size - 1 - found) (by omega)
      rw [commonEnd, hlast, if_neg (by simpa using hne)]
      exact hk
  | succ k ih =>
    have hroom : k + 1 + min old.length new.length = k + min old.length new.length + 1 := by omega
    have hleft : a.size - 1 - found = head.length + (old.length + k) := by omega
    have hright : b.size - 1 - found = head.length + (new.length + k) := by omega
    rw [hroom, commonEnd, hleft, hright, h.lineAt_tail, h.symm.lineAt_tail, if_pos (beq_self_eq_true _)]
    exact ih _ (by omega)

/-! ## Lines without a match -/

theorem frequency_eq_never {other : Array String} {line : String} (h : line ∉ other.toList) (limit : Nat) :
    frequency other limit line = .never := by
  have hcount (lines : List String) (hl : line ∉ lines) (n : Nat) :
      lines.foldl (fun n l => if l == line then n + 1 else n) n = n := by
    induction lines generalizing n with
    | nil => rfl
    | cons l rest ih =>
      obtain ⟨hl, hrest⟩ := List.ne_and_not_mem_of_not_mem_cons hl
      rw [List.foldl_cons, if_neg (by simpa using hl.symm)]
      exact ih hrest n
  unfold frequency
  rw [← Array.foldl_toList, hcount _ h]
  rfl

theorem compared_never (before : List Frequency) {freqs : List Frequency} (h : ∀ f ∈ freqs, f = .never) (i : Nat) :
    compared before freqs i = [] := by
  induction freqs generalizing before i with
  | nil => rfl
  | cons f rest ih =>
    rw [h f List.mem_cons_self, compared]
    exact ih _ (fun g hg => h g (List.mem_cons_of_mem f hg)) _

theorem Swap.candidates_eq (h : Swap a b head old new tail) :
    candidates a b head.length (a.size - tail.length) = #[] := by
  have hsize : a.size - tail.length - head.length = old.length := by
    have ha := h.size
    omega
  have hlines : (a.toList.drop head.length).take (a.size - tail.length - head.length) = old := by
    rw [hsize, h.left, List.drop_left, List.take_left]
  unfold candidates
  dsimp only
  rw [hlines, compared_never]
  intro f hf
  obtain ⟨line, hline, rfl⟩ := List.mem_map.mp hf
  exact frequency_eq_never (h.gone line hline) _

/-! ## Marks -/

/-- The lines from `low` to before `high` are marked, and no others. -/
def Marked (m : Marks) (low high : Nat) : Prop := ∀ i, m.get i = (decide (low ≤ i) && decide (i < high))

theorem markMissing_marked {size low high : Nat} (h : high ≤ size) : Marked (markMissing size low high #[]) low high := by
  intro i
  by_cases hi : i < size
  · simp [markMissing, Marks.get, hi]
  · have hge : ¬ i < high := by omega
    simp [markMissing, Marks.get, hi, hge]

theorem size_markMissing (size low high : Nat) (kept : Array Nat) : (markMissing size low high kept).size = size := by
  simp [markMissing]

theorem Swap.marks_eq (h : Swap a b head old new tail) (hsome : old ≠ [] ∨ new ≠ []) :
    marks a b = (markMissing a.size head.length (a.size - tail.length) #[],
      markMissing b.size head.length (b.size - tail.length) #[]) := by
  have ha := h.size
  have hb := h.symm.size
  have hroom : min a.size b.size - head.length = tail.length + min old.length new.length := by omega
  unfold marks
  dsimp only
  rw [h.commonStart_eq hsome (Nat.zero_le _), hroom, h.commonEnd_eq _ _ (Nat.zero_add _), h.candidates_eq,
    h.symm.candidates_eq]
  simp [unmatched, Box.raise, Box.sink]

variable {m n : Marks} {low high high1 high2 : Nat}

theorem Marked.get_of_lt (hm : Marked m low high) {i : Nat} (h : i < low) : m.get i = false := by
  rw [hm]
  simp only [Bool.and_eq_false_iff, decide_eq_false_iff_not]
  omega

theorem Marked.get_of_ge (hm : Marked m low high) {i : Nat} (h : high ≤ i) : m.get i = false := by
  rw [hm]
  simp only [Bool.and_eq_false_iff, decide_eq_false_iff_not]
  omega

theorem Marked.endOfRun_of_lt (hm : Marked m low high) {i : Nat} (hlow : low ≤ i) (hhigh : i < high) :
    endOfRun m i = high := by
  obtain ⟨hle, hstop, hrun⟩ := endOfRun_spec m i
  rw [hm] at hstop
  -- the line at the end is not marked, and all lines before it are
  by_contra hne
  rcases Nat.lt_or_gt_of_ne hne with hlt | hgt
  · have hin : low ≤ endOfRun m i := Nat.le_trans hlow hle
    simp [hin, hlt] at hstop
  · have hmark := hrun high (Nat.le_of_lt hhigh) hgt
    rw [hm] at hmark
    simp at hmark

theorem endOfRun_of_not {i : Nat} (h : m.get i = false) : endOfRun m i = i := by
  obtain ⟨hle, _, hrun⟩ := endOfRun_spec m i
  by_contra hne
  have hmark := hrun i (Nat.le_refl i) (by omega)
  rw [h] at hmark
  cases hmark

theorem Marked.endOfRun_low (hm : Marked m low high) (hle : low ≤ high) : endOfRun m low = high := by
  rcases Nat.lt_or_eq_of_le hle with hlt | rfl
  · exact hm.endOfRun_of_lt (Nat.le_refl _) hlt
  · apply endOfRun_of_not
    rw [hm]
    simp

/-! ## Settling -/

/-- A region between lines that differ from those at its ends is not moved. -/
theorem Slide.place_eq {s : Slide} {other : Marks} {size fuel : Nat}
    (hup : 0 < s.own.start → lineAt a (s.own.start - 1) ≠ lineAt a (s.own.stop - 1))
    (hdown : s.own.stop < a.size → lineAt a s.own.start ≠ lineAt a s.own.stop) :
    s.place a other size (fuel + 1) = { s with met := s.faces } := by
  have hup' : s.up a other = none := by
    unfold Slide.up
    refine if_neg ?_
    simp only [Bool.and_eq_true, decide_eq_true_eq, beq_iff_eq, not_and]
    exact hup
  have htop : s.top a other (a.size + 1) = { s with met := s.faces } := by
    rw [Slide.top, hup']
  have hdown' : ({ s with met := s.faces } : Slide).down a other size = none := by
    unfold Slide.down
    refine if_neg ?_
    simp only [Bool.and_eq_true, decide_eq_true_eq, beq_iff_eq, not_and]
    exact hdown
  have hbottom : ({ s with met := s.faces } : Slide).bottom a other size (a.size + 1) =
      { s with met := s.faces } := by
    rw [Slide.bottom, hdown']
  rw [Slide.place, htop, hbottom]
  simp

section

variable {other : Marks} {size : Nat} {s : Slide} (hm : Marked m low high)
  (hup : low < high → 0 < low → lineAt a (low - 1) ≠ lineAt a (high - 1))
  (hdown : low < high → high < a.size → lineAt a low ≠ lineAt a high)
  (hstop : s.own.stop = endOfRun m s.own.start) (hbefore : s.own.start = 0 ∨ m.get (s.own.start - 1) = false)

include hm hup hdown hstop hbefore

theorem Marked.place_eq (hlt : s.own.start < s.own.stop) :
    s.place a other size (a.size + 1) = { s with met := s.faces } := by
  have hmark : m.get s.own.start = true :=
    (endOfRun_spec m s.own.start).2.2 _ (Nat.le_refl _) (hstop ▸ hlt)
  rw [hm] at hmark
  simp only [Bool.and_eq_true, decide_eq_true_eq] at hmark
  -- a marked line behind one that is not marked is the first of all
  have hstart : s.own.start = low := by
    rcases hbefore with hzero | hmark'
    · omega
    · rw [hm] at hmark'
      simp only [Bool.and_eq_false_iff, decide_eq_false_iff_not] at hmark'
      omega
  have hhigh : s.own.stop = high := hstop.trans (hm.endOfRun_of_lt hmark.1 hmark.2)
  apply Slide.place_eq
  · rw [hstart, hhigh]
    exact hup (Nat.lt_of_le_of_lt hmark.1 hmark.2)
  · rw [hstart, hhigh]
    exact hdown (Nat.lt_of_le_of_lt hmark.1 hmark.2)

/-- Where the one region that is marked cannot be moved, nothing is. By induction on the regions. -/
theorem Marked.placeAll_eq (hmarks : s.marks = m) (fuel : Nat) : placeAll a other size fuel s = m := by
  induction fuel generalizing s with
  | zero => exact hmarks
  | succ fuel ih =>
    obtain ⟨met, hplaced⟩ : ∃ met, (if s.own.start < s.own.stop then s.place a other size (a.size + 1) else s) =
        { s with met } := by
      split
      · rename_i hlt
        exact ⟨s.faces, hm.place_eq hup hdown hstop hbefore hlt⟩
      · exact ⟨s.met, rfl⟩
    rw [placeAll]
    simp only [hplaced]
    split
    · rename_i own facing hnext _
      rw [Group.next] at hnext
      split at hnext
      · cases hnext
      · cases hnext
        refine ih (hmarks ▸ rfl) ?_ hmarks
        right
        simp only [Nat.add_sub_cancel, hstop]
        exact (endOfRun_spec m s.own.start).2.1
    · exact hmarks

end

theorem Marked.settle_eq {other : Marks} (hm : Marked m low high)
    (hup : low < high → 0 < low → lineAt a (low - 1) ≠ lineAt a (high - 1))
    (hdown : low < high → high < a.size → lineAt a low ≠ lineAt a high) : settle a m b other = m :=
  hm.placeAll_eq hup hdown rfl (.inl rfl) rfl _

/-! ## The one region -/

theorem Marked.hunksFrom_nil (hm : Marked m low high1) (hn : Marked n low high2) (fuel : Nat) {i j : Nat}
    (hi : high1 ≤ i) (hj : high2 ≤ j) : hunksFrom m n fuel i j = [] := by
  induction fuel generalizing i j with
  | zero => rfl
  | succ fuel ih =>
    rw [hunksFrom, hm.get_of_ge hi, hn.get_of_ge hj]
    split
    · rfl
    · exact ih (by omega) (by omega)

theorem Marked.hunksFrom_eq (hm : Marked m low high1) (hn : Marked n low high2) (h1 : low ≤ high1) (h2 : low ≤ high2)
    (hsome : low < high1 ∨ low < high2) (hsize1 : high1 ≤ m.size) (hsize2 : high2 ≤ n.size) {fuel i : Nat}
    (hi : i ≤ low) (hfuel : low < i + fuel) :
    hunksFrom m n fuel i i = [⟨low, high1 - low, low, high2 - low⟩] := by
  induction fuel generalizing i with
  | zero => omega
  | succ fuel ih =>
    have hin : (m.size ≤ i && n.size ≤ i) = false := by
      simp only [Bool.and_eq_false_iff, decide_eq_false_iff_not]
      omega
    rcases Nat.lt_or_eq_of_le hi with hlt | rfl
    · rw [hunksFrom, hin, hm.get_of_lt hlt, hn.get_of_lt hlt]
      exact ih (by omega) (by omega)
    · have hmark : (m.get i || n.get i) = true := by
        rw [hm, hn]
        simpa using hsome
      rw [hunksFrom, hin, hmark, hm.endOfRun_low h1, hn.endOfRun_low h2]
      simp only [Bool.false_eq_true, if_false, if_true]
      rw [hm.hunksFrom_nil hn fuel (Nat.le_refl _) (Nat.le_refl _)]

/-- The marks of a text that has some lines replaced are not moved. -/
theorem Swap.settle_eq (h : Swap a b head old new tail) (other : Marks) :
    settle a (markMissing a.size head.length (a.size - tail.length) #[]) b other =
      markMissing a.size head.length (a.size - tail.length) #[] := by
  have ha := h.size
  have hb := h.symm.size
  have hmarked : Marked (markMissing a.size head.length (a.size - tail.length) #[]) head.length
      (a.size - tail.length) := markMissing_marked (Nat.sub_le _ _)
  have hhigh : a.size - tail.length = head.length + old.length := by omega
  rw [hhigh] at hmarked ⊢
  -- the text does not go on at either end with a line that was replaced
  apply hmarked.settle_eq
  · intro hlt hlow
    have hlast : head.length + old.length - 1 = head.length + (old.length - 1) := by omega
    have hleft : lineAt a (head.length - 1) = lineAt b (head.length - 1) := by
      rw [h.lineAt_head (by omega), h.symm.lineAt_head (by omega)]
    rw [hleft, hlast]
    exact (h.lineAt_ne (by omega) (by omega)).symm
  · intro hlt hin
    have hright : lineAt a (head.length + old.length) = lineAt b (head.length + (new.length + 0)) := by
      rw [h.symm.lineAt_tail]
      exact h.lineAt_tail 0
    rw [hright]
    exact h.lineAt_ne (i := 0) (by omega) (by omega)

/-- **Texts that have some lines replaced differ in these.** -/
theorem Swap.hunks_eq (h : Swap a b head old new tail) (hsome : old ≠ [] ∨ new ≠ []) :
    hunks a b = [⟨head.length, old.length, head.length, new.length⟩] := by
  have ha := h.size
  have hb := h.symm.size
  have hold : a.size - tail.length - head.length = old.length := by omega
  have hnew : b.size - tail.length - head.length = new.length := by omega
  have hpos : 0 < old.length ∨ 0 < new.length :=
    hsome.imp List.length_pos_iff.mpr List.length_pos_iff.mpr
  unfold hunks
  rw [h.marks_eq hsome]
  dsimp only
  rw [h.settle_eq, h.symm.settle_eq, Marked.hunksFrom_eq (markMissing_marked (Nat.sub_le _ _))
    (markMissing_marked (Nat.sub_le _ _)), hold, hnew]
  all_goals
    try rw [size_markMissing]
    omega

/-! ## Joining lines -/

theorem flatten_splitLines (cs : List Char) : (splitLines cs).flatten = cs := by
  induction cs using splitLines.induct with
  | case1 => rfl
  | case2 rest ih => rw [splitLines, List.flatten_cons, ih, List.singleton_append]
  | case3 c rest hne hnil ih =>
    rw [splitLines, hnil]
    · rw [hnil] at ih
      rw [← ih]
      rfl
    · exact hne
  | case4 c rest hne line others hcons ih =>
    rw [splitLines, hcons]
    · rw [hcons] at ih
      rw [← ih]
      rfl
    · exact hne

theorem join_lines (text : String) : String.join (lines text).toList = text := by
  apply String.toList_inj.mp
  have htoList : String.toList ∘ String.ofList = id := funext fun cs => String.toList_ofList
  rw [String.toList_join, lines, List.toList_toArray, List.flatMap_def, List.map_map, htoList, List.map_id,
    flatten_splitLines]

theorem excerpt_eq (a : Array String) (start size : Nat) :
    excerpt a start size = (a.toList.drop start).take size := by
  unfold excerpt
  rw [Array.toList_extract, List.extract_eq_take_drop]
  congr 1
  omega

theorem excerpt_rest (a : Array String) {i : Nat} (hi : i ≤ a.size) :
    excerpt a i (a.size - i) = a.toList.drop i := by
  rw [← Int.ofNat_sub hi]
  refine (excerpt_eq a i (a.size - i)).trans (List.take_of_length_le ?_)
  exact Nat.le_of_eq (by rw [List.length_drop, Array.length_toList])

end Diff

/-! ## Merging -/

open Diff

/-- Two regions that meet and end together are laid over each other, and nothing is left. -/
theorem overlay_pair {ours theirs : Array String} {a b : Hunk} {shift1 shift2 : Int} (hmeets : a.Meets b)
    (hend : a.end1 = b.end1) : overlay ours theirs 2 [a] [b] shift1 shift2 [] = laid ours theirs a b [] := by
  rw [overlay_of_meets hmeets, hend, if_neg (Nat.lt_irrefl _), if_neg (Nat.lt_irrefl _)]
  rfl

/-- Two regions that replace the same lines are one conflict in their place. -/
theorem ofBoth_eq (start size size1 size2 : Nat) :
    MergeRegion.ofBoth ⟨start, size, start, size1⟩ ⟨start, size, start, size2⟩ =
      ⟨none, start, size1, start, size2⟩ := by
  simp only [MergeRegion.ofBoth, MergeRegion.mk.injEq, true_and]
  omega

section

variable {base ours theirs : String} {head old mine new tail : List String}
  (h : Swap (lines base) (lines ours) head old mine tail) (h' : Swap (lines base) (lines theirs) head old new tail)

include h h'

/-- What replaces the same lines alike is the same. -/
theorem eq_of_sameHunk
    (hsame : sameHunk (lines ours) (lines theirs) ⟨head.length, old.length, head.length, mine.length⟩
      ⟨head.length, old.length, head.length, new.length⟩ = true) : ours = theirs := by
  simp only [sameHunk, Bool.and_eq_true, beq_iff_eq, List.all_eq_true, List.mem_range] at hsame
  obtain ⟨⟨_, hlength⟩, hlines⟩ := hsame
  have hnew : mine = new := by
    apply List.ext_getElem hlength
    intro i hi hi'
    have hline := hlines i hi
    rw [h.symm.lineAt_old hi, h'.symm.lineAt_old hi', List.getD_eq_getElem _ _ hi,
      List.getD_eq_getElem _ _ hi'] at hline
    exact hline
  rw [← join_lines ours, ← join_lines theirs, h.right, h'.right, hnew]

/-- **Where both sides replaced the same lines of the base, none of which they kept, by lines that it does
not have, a merge that lets theirs win comes to the text of theirs.** -/
theorem mergeLines_replaced (hsome : old ≠ [] ∨ mine ≠ [] ∧ new ≠ []) :
    (mergeLines (some .theirs) base ours theirs).text = theirs := by
  have hours := h.hunks_eq (hsome.imp_right (·.1))
  have htheirs := h'.hunks_eq (hsome.imp_right (·.2))
  have hregions : mergeRegions base ours theirs =
      (laid (lines ours) (lines theirs) ⟨head.length, old.length, head.length, mine.length⟩
        ⟨head.length, old.length, head.length, new.length⟩ []).reverse := by
    unfold mergeRegions
    dsimp only
    rw [hours, htheirs]
    exact congrArg List.reverse (overlay_pair ⟨Nat.le_add_right _ _, Nat.le_add_right _ _⟩ rfl)
  rw [mergeLines_favor, hregions]
  unfold laid
  split
  · -- both made the same of the lines
    rename_i hsame
    have hall : excerpt (lines ours) 0 ((lines ours).size - 0) = (lines ours).toList.drop 0 :=
      excerpt_rest (lines ours) (Nat.zero_le _)
    rw [← eq_of_sameHunk h h' hsame]
    dsimp only [List.reverse_nil, assemble]
    rw [hall, List.drop_zero, join_lines]
  · -- one conflict, between what all three share
    have hhead : excerpt (lines ours) 0 (head.length - 0) = head := by
      have hexcerpt := excerpt_eq (lines ours) 0 head.length
      rw [h.right, List.drop_zero, List.take_left] at hexcerpt
      rw [Int.sub_zero]
      exact hexcerpt
    have hnew : excerpt (lines theirs) head.length new.length = new := by
      rw [excerpt_eq, h'.right, List.drop_left, List.take_left]
    have htail : excerpt (lines ours) (head.length + mine.length) ((lines ours).size - (head.length + mine.length)) =
        tail := by
      have hsize := h.symm.size
      have hexcerpt := excerpt_rest (lines ours) (i := head.length + mine.length) (by omega)
      rw [h.right, ← List.append_assoc, List.drop_left' List.length_append] at hexcerpt
      exact hexcerpt
    rw [ofBoth_eq, MergeRegion.push, List.reverse_singleton]
    dsimp only [assemble, MergeRegion.lines]
    rw [hhead, hnew, htail, List.append_assoc, ← h'.right, join_lines]

end

/-- What a text is in which theirs won: the text of theirs where one of the texts is none, and where both
sides replaced the same lines; and the lines of theirs where both changed lines that overlap or touch. -/
structure FavorsTheirs (base ours theirs merged : String) : Prop where
  binary : isBinary base = true ∨ isBinary ours = true ∨ isBinary theirs = true → merged = theirs
  replaced : ∀ head old mine new tail, Swap (lines base) (lines ours) head old mine tail →
    Swap (lines base) (lines theirs) head old new tail → old ≠ [] ∨ mine ≠ [] ∧ new ≠ [] → merged = theirs
  overlapping : isBinary base = false → isBinary ours = false → isBinary theirs = false →
    PrefersTheirs base ours theirs merged

theorem mergeTexts_favorsTheirs (base ours theirs : String) : ∃ m,
    mergeTexts (some .theirs) base ours theirs = some m ∧ m.isOpen = false ∧
      FavorsTheirs base ours theirs m.text := by
  unfold mergeTexts
  split
  · rename_i hbinary
    refine ⟨_, rfl, rfl, fun _ => rfl, fun _ _ _ _ _ _ _ _ => rfl, ?_⟩
    intro hbase hours htheirs
    simp [hbase, hours, htheirs] at hbinary
  · rename_i hbinary
    refine ⟨_, rfl, rfl, ?_, ?_, fun _ _ _ => mergeLines_prefersTheirs base ours theirs⟩
    · intro hsome
      exact absurd (by simpa [or_assoc] using hsome) hbinary
    · intro head old mine new tail h h' hsome
      exact mergeLines_replaced h h' hsome

end Chronicle
