import Chronicle.FileTree

/-!
# Paths above paths

One path lies above another when it is a proper beginning of it. The places on the way to a path
(`Path.parents`) are the paths above it without the start (`Path.mem_parents`), and what a map of paths
holds is told by its view alone: which paths have a value (`PathMap.mem_paths`), and whether one below a
given one has (`PathMap.hasBelow_iff`). A path is `Path.Proper` if its text tells it from all others.
-/

namespace Chronicle

namespace Path

variable {p q d e : Path}

/-- A path leads away from the start, by names without a slash. -/
structure Proper (p : Path) : Prop where
  ne_nil : p ≠ []
  names : ∀ s ∈ p, '/' ∉ s.toList

theorem above_iff : Path.above p q = true ↔ p <+: q ∧ p.length < q.length := by
  simp [Path.above]

theorem above_of_prefix_ne (h : p <+: q) (hne : p ≠ q) : Path.above p q = true := by
  rw [above_iff]
  refine ⟨h, ?_⟩
  have hle : p.length ≤ q.length := h.length_le
  have hlt : p.length ≠ q.length := fun heq => hne (h.eq_of_length heq)
  omega

theorem above_trans (hpq : Path.above p q = true) (hqd : Path.above q d = true) :
    Path.above p d = true := by
  rw [above_iff] at *
  exact ⟨hpq.1.trans hqd.1, Nat.lt_trans hpq.2 hqd.2⟩

/-- What lies below a path is named from there. -/
theorem above_iff_append : Path.above p q = true ↔ ∃ names, q = p ++ names ∧ names ≠ [] := by
  rw [above_iff]
  constructor
  · rintro ⟨⟨names, rfl⟩, hlt⟩
    refine ⟨names, rfl, ?_⟩
    rintro rfl
    simp at hlt
  · rintro ⟨names, rfl, hne⟩
    have hpos : 0 < names.length := List.length_pos_iff.mpr hne
    exact ⟨List.prefix_append _ _, by simpa using hpos⟩

theorem above_append (hq : q ≠ []) (p : Path) : Path.above p (p ++ q) = true :=
  above_iff_append.mpr ⟨q, rfl, hq⟩

/-- The places on the way to a path are those above it. -/
theorem mem_parents : d ∈ Path.parents p ↔ d ≠ [] ∧ Path.above d p = true := by
  induction p generalizing d with
  | nil => simp [Path.parents, Path.above]
  | cons s rest ih =>
    cases rest with
    | nil =>
      simp only [Path.parents, List.not_mem_nil, false_iff, above_iff, List.length_singleton, not_and]
      intro hd _
      have hpos : 0 < d.length := List.length_pos_iff.mpr hd
      omega
    | cons s' rest =>
      simp only [Path.parents, List.mem_cons, List.mem_map]
      constructor
      · rintro (rfl | ⟨e, he, rfl⟩)
        · simp [above_iff]
        · have habove := above_iff.mp (ih.mp he).2
          simpa [above_iff] using habove
      · rintro ⟨hne, habove⟩
        obtain ⟨hpre, hlen⟩ := above_iff.mp habove
        cases d with
        | nil => exact absurd rfl hne
        | cons x e =>
          obtain ⟨rfl, hpre'⟩ := List.cons_prefix_cons.mp hpre
          by_cases he : e = []
          · exact .inl (he ▸ rfl)
          · refine .inr ⟨e, ih.mpr ⟨he, above_iff.mpr ⟨hpre', ?_⟩⟩, rfl⟩
            simpa using hlen

theorem mem_parents_trans (hd : d ∈ Path.parents e) (he : e ∈ Path.parents p) : d ∈ Path.parents p := by
  rw [mem_parents] at *
  exact ⟨hd.1, above_trans hd.2 he.2⟩

theorem not_mem_parents_self (p : Path) : p ∉ Path.parents p := by
  rw [mem_parents, above_iff]
  rintro ⟨_, _, hlt⟩
  exact Nat.lt_irrefl _ hlt

/-- On the way to a name in a directory lie that directory and what is on the way to it. -/
theorem mem_parents_concat {s : String} (h : d ∈ Path.parents (p ++ [s])) :
    d = p ∨ d ∈ Path.parents p := by
  obtain ⟨hne, habove⟩ := mem_parents.mp h
  obtain ⟨hpre, hlen⟩ := above_iff.mp habove
  rcases List.prefix_concat_iff.mp hpre with rfl | hpre
  · exact absurd hlen (Nat.lt_irrefl _)
  · by_cases heq : d = p
    · exact .inl heq
    · exact .inr (mem_parents.mpr ⟨hne, above_of_prefix_ne hpre heq⟩)

theorem mem_sorted {ps : List Path} : p ∈ Path.sorted ps ↔ p ∈ ps := by
  unfold Path.sorted
  rw [List.mem_mergeSort, List.mem_eraseDups]

theorem nodup_eraseDups (ps : List Path) : ps.eraseDups.Nodup := by
  induction h : ps.length using Nat.strongRecOn generalizing ps with
  | ind n ih =>
    cases ps with
    | nil => exact List.nodup_nil
    | cons p rest =>
      rw [List.eraseDups_cons, List.nodup_cons]
      refine ⟨?_, ih _ ?_ _ rfl⟩
      · simp [List.mem_eraseDups]
      · rw [← h]
        exact Nat.lt_succ_of_le (List.length_filter_le _ rest)

theorem nodup_sorted (ps : List Path) : (Path.sorted ps).Nodup := by
  unfold Path.sorted
  rw [(List.mergeSort_perm _ _).nodup_iff]
  exact nodup_eraseDups ps

theorem sorted_swap {p q : Path} (hne : p ≠ q) (hle : Path.le p q = false) : Path.sorted [p, q] = [q, p] := by
  have hdups : [p, q].eraseDups = [p, q] := by simp [List.eraseDups_cons, Ne.symm hne]
  rw [Path.sorted, hdups]
  simp [List.mergeSort, hle]

end Path

namespace PathMap

variable {α : Type} (m : PathMap α) (p q : Path)

theorem mem_paths {m : PathMap α} {p : Path} : p ∈ m.paths ↔ m.has p = true := by
  simp only [paths, has, get?, List.lookup_isSome_iff, List.mem_map, beq_iff_eq]
  constructor
  · rintro ⟨e, he, rfl⟩
    exact ⟨e, he, rfl⟩
  · rintro ⟨e, he, rfl⟩
    exact ⟨e, he, rfl⟩

theorem hasBelow_iff {m : PathMap α} {p : Path} :
    m.hasBelow p = true ↔ ∃ q, m.has q = true ∧ Path.above p q = true := by
  simp only [← mem_paths, paths, hasBelow, List.any_eq_true, List.mem_map]
  constructor
  · rintro ⟨e, he, habove⟩
    exact ⟨e.1, ⟨e, he, rfl⟩, habove⟩
  · rintro ⟨_, ⟨e, he, rfl⟩, habove⟩
    exact ⟨e, he, habove⟩

@[simp] theorem has_insert (a : α) : (m.insert p a).has q = (q == p || m.has q) := by
  unfold has
  rw [get?_insert]
  by_cases h : q = p
  · simp [h]
  · simp [h, beq_eq_false_iff_ne.mpr h]

@[simp] theorem has_restrict (keep : Path → Bool) : (m.restrict keep).has q = (keep q && m.has q) := by
  unfold has
  rw [get?_restrict]
  cases keep q <;> rfl

/-- A value at `p` takes the place of those above and below it. -/
theorem get?_displace (a : α) : (m.displace p a).get? q =
    if q = p then some a
    else if Path.above p q || Path.above q p then none
    else m.get? q := by
  unfold displace
  rw [get?_insert, get?_restrict]
  by_cases h : q = p
  · rw [if_pos h, if_pos h]
  · rw [if_neg h, if_neg h]
    cases Path.above p q <;> cases Path.above q p <;> rfl

end PathMap

end Chronicle
