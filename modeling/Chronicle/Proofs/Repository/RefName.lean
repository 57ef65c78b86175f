import Chronicle.Repository.RefName

/-!
# Names of references, read again

The segments of a text and the text that segments make are each other's inverse, as long as no segment
holds a slash (`segments_intercalate`, `intercalate_segments`). So the name that a text stands for is the
name of a reference as it stands (`RefName.normal?_normal?`), and **a branch is found again under what is
left of its full name** (`RefName.within?_branches`).
-/

namespace Chronicle

/-! ## Segments -/

theorem pieces_slash (rest : List Char) : pieces ('/' :: rest) = [] :: pieces rest := rfl

theorem pieces_cons {c : Char} (hc : c ≠ '/') (rest : List Char) :
    pieces (c :: rest) = if pieces rest = [] then [[c]] else (pieces rest).modifyHead (c :: ·) := by
  rw [pieces.eq_3 _ _ hc]
  cases pieces rest <;> rfl

theorem pieces_eq_splitOn (cs : List Char) : pieces cs = List.splitOn '/' cs := by
  induction cs with
  | nil => rfl
  | cons c rest ih =>
    have hne : pieces rest ≠ [] := by
      rw [ih]
      exact List.splitOn_ne_nil '/' rest
    rw [List.splitOn_eq_splitOnP, List.splitOnP_cons_eq_if_modifyHead, ← List.splitOn_eq_splitOnP, ← ih]
    by_cases hc : c = '/'
    · rw [hc, pieces_slash]
      rfl
    · rw [pieces_cons hc, if_neg hne, beq_eq_false_iff_ne.mpr hc]
      rfl

theorem slash_not_mem_pieces {cs piece : List Char} (h : piece ∈ pieces cs) : '/' ∉ piece := by
  induction cs generalizing piece with
  | nil =>
    rw [List.mem_singleton.mp h]
    exact List.not_mem_nil
  | cons c rest ih =>
    by_cases hc : c = '/'
    · rw [hc, pieces_slash] at h
      rcases List.mem_cons.mp h with rfl | hlater
      · exact List.not_mem_nil
      · exact ih hlater
    · rw [pieces_cons hc] at h
      rcases hrest : pieces rest with _ | ⟨first, others⟩
      · rw [hrest] at h
        rw [List.mem_singleton.mp h, List.mem_singleton]
        exact Ne.symm hc
      · rw [hrest] at h ih
        rcases List.mem_cons.mp h with rfl | hlater
        · rw [List.mem_cons, not_or]
          exact ⟨Ne.symm hc, ih List.mem_cons_self⟩
        · exact ih (List.mem_cons_of_mem first hlater)

theorem slash_not_mem_segments {text s : String} (h : s ∈ segments text) : '/' ∉ s.toList := by
  obtain ⟨piece, hpiece, rfl⟩ := List.mem_map.mp h
  rw [String.toList_ofList]
  exact slash_not_mem_pieces hpiece

theorem toList_slash : ("/" : String).toList = ['/'] := rfl

/-- The segments of a text make it up. -/
theorem intercalate_segments (text : String) : "/".intercalate (segments text) = text := by
  have hpieces : (segments text).map String.toList = pieces text.toList := by
    simp [segments, Function.comp_def]
  rw [← String.toList_inj, String.toList_intercalate, hpieces, pieces_eq_splitOn, toList_slash,
    List.intercalate_splitOn]

/-- What is made of segments has these segments. -/
theorem segments_intercalate {names : List String} (hne : names ≠ [])
    (hnames : ∀ s ∈ names, '/' ∉ s.toList) : segments ("/".intercalate names) = names := by
  have hsplit : List.splitOn '/' (['/'].intercalate (names.map String.toList)) = names.map String.toList := by
    apply List.splitOn_intercalate
    · intro cs hcs
      obtain ⟨s, hs, rfl⟩ := List.mem_map.mp hcs
      exact hnames s hs
    · simpa using hne
  rw [segments, String.toList_intercalate, toList_slash, pieces_eq_splitOn, hsplit, List.map_map]
  simp [Function.comp_def]

theorem segments_ne_nil (text : String) : segments text ≠ [] := by
  rw [segments, pieces_eq_splitOn, Ne, List.map_eq_nil_iff]
  exact List.splitOn_ne_nil '/' _

/-- Only a text that begins with a slash has a segment before it. -/
theorem startsWith_slash {text : String} (h : text.startsWith "/" = true) : "" ∈ segments text := by
  obtain ⟨rest, hrest⟩ := String.startsWith_string_iff.mp h
  rw [toList_slash, List.singleton_append] at hrest
  rw [segments, ← hrest, pieces_slash]
  exact List.mem_cons_self

theorem endsWith_iff (text : String) (c : Char) :
    text.endsWith (String.singleton c) = true ↔ text.toList.getLast? = some c := by
  rw [String.endsWith_eq_endsWith_toSlice, String.Slice.endsWith_string_iff, String.toList_singleton,
    List.singleton_suffix_iff_getLast?_eq_some, String.copy_toSlice]

/-- A text ends as its last segment does, if that is not empty. -/
theorem getLast?_of_segments {text s : String} {init : List String} (h : segments text = init ++ [s])
    (hs : s ≠ "") : text.toList.getLast? = s.toList.getLast? := by
  have hne : s.toList ≠ [] := by simpa using hs
  have htext := intercalate_segments text
  rw [h] at htext
  by_cases hinit : init = []
  · rw [hinit, List.nil_append, String.intercalate_singleton] at htext
    rw [htext]
  · rw [String.intercalate_append_of_ne_nil hinit (List.cons_ne_nil s []), String.intercalate_singleton]
      at htext
    rw [← htext, String.toList_append, List.getLast?_append, List.getLast?_eq_some_getLast hne,
      Option.some_or]

/-- A text of several segments that does not end in a slash ends in a segment. -/
theorem last_segment_ne {text s : String} {init : List String} (h : segments text = init ++ [s])
    (hinit : init ≠ []) (hend : text.endsWith "/" = false) : s ≠ "" := by
  rintro rfl
  have htext := intercalate_segments text
  rw [h, String.intercalate_append_of_ne_nil hinit (List.cons_ne_nil "" []), String.intercalate_singleton,
    String.append_empty] at htext
  have hlast : text.endsWith (String.singleton '/') = true := by
    rw [endsWith_iff, ← htext, String.toList_append, toList_slash]
    exact List.getLast?_concat
  rw [show ("/" : String) = String.singleton '/' from rfl, hlast] at hend
  cases hend

/-! ## Names -/

namespace RefName

/-- Whether the first of the segments of a name may be the first one. -/
def leads : List String → Bool
  | [] => false
  | [s] => isCapitals s
  | s :: _ => !isCapitals s

/-- The name that a text stands for is made of its segments that are not empty. -/
theorem normal?_eq_some {text name : String} : normal? text = some name ↔
    text.startsWith "/" = false ∧ text.endsWith "/" = false ∧ text.endsWith "." = false ∧
      (segments text).all segmentOk = true ∧ leads ((segments text).filter (· != "")) = true ∧
      "/".intercalate ((segments text).filter (· != "")) = name := by
  unfold normal?
  dsimp only
  generalize (segments text).filter (· != "") = named
  rcases named with _ | ⟨first, _ | ⟨second, rest⟩⟩
  · simp [leads]
  · simp [leads, String.intercalate_singleton, and_assoc]
  · simp [leads, and_assoc]

theorem segments_of_normal? {text name : String} (h : normal? text = some name) :
    segments name = (segments text).filter (· != "") := by
  obtain ⟨_, _, _, _, hleads, hname⟩ := normal?_eq_some.mp h
  rw [← hname]
  apply segments_intercalate
  · intro hnil
    rw [hnil] at hleads
    cases hleads
  · intro s hs
    exact slash_not_mem_segments (List.mem_filter.mp hs).1

theorem mem_segments_of_normal? {text name s : String} (h : normal? text = some name)
    (hs : s ∈ segments name) : s ∈ segments text ∧ s ≠ "" := by
  rw [segments_of_normal? h, List.mem_filter, bne_iff_ne] at hs
  exact hs

/-- A name stands for itself. -/
theorem normal?_normal? {text name : String} (h : normal? text = some name) :
    normal? name = some name := by
  obtain ⟨_, hslash, hdot, hok, hleads, hname⟩ := normal?_eq_some.mp h
  have hsegments := segments_of_normal? h
  have hfilter : (segments name).filter (· != "") = segments name :=
    List.filter_eq_self.mpr fun s hs => bne_iff_ne.mpr (mem_segments_of_normal? h hs).2
  rw [← hsegments] at hleads hname
  -- the text and its name have the same last segment
  obtain ⟨init, last, htext⟩ : ∃ init last, segments text = init ++ [last] :=
    ⟨_, _, (List.dropLast_concat_getLast (segments_ne_nil text)).symm⟩
  have hlast : last ≠ "" := by
    by_cases hinit : init = []
    · rintro rfl
      rw [hsegments, htext, hinit] at hleads
      cases hleads
    · exact last_segment_ne htext hinit hslash
  have hsame : segments name = init.filter (· != "") ++ [last] := by
    have hkeep : [last].filter (· != "") = [last] := by simp [hlast]
    rw [hsegments, htext, List.filter_append, hkeep]
  have hends : name.toList.getLast? = text.toList.getLast? :=
    (getLast?_of_segments hsame hlast).trans (getLast?_of_segments htext hlast).symm
  have hend (c : Char) : name.endsWith (String.singleton c) = text.endsWith (String.singleton c) := by
    rw [Bool.eq_iff_iff, endsWith_iff, endsWith_iff, hends]
  refine normal?_eq_some.mpr ⟨?_, (hend '/').trans hslash, (hend '.').trans hdot, ?_, ?_, ?_⟩
  · apply Bool.eq_false_iff.mpr
    intro hstart
    exact (mem_segments_of_normal? h (startsWith_slash hstart)).2 rfl
  · rw [List.all_eq_true]
    intro s hs
    exact List.all_eq_true.mp hok s (mem_segments_of_normal? h hs).1
  · rw [hfilter]
    exact hleads
  · rw [hfilter, hname]

theorem eq_append_of_without? {group name short : String} (h : without? group name = some short) :
    name = group ++ short := by
  unfold without? at h
  split at h
  · rename_i hpre
    obtain ⟨rest, hrest⟩ := List.isPrefixOf_iff_prefix.mp hpre
    cases h
    rw [← String.toList_inj, String.toList_append, String.toList_ofList, ← hrest, ← String.length_toList,
      List.drop_left]
  · cases h

/-- A branch is found under what is left of its full name. -/
theorem within?_branches {text name short : String} (h : normal? text = some name)
    (hshort : without? branches name = some short) : within? branches short = some name := by
  have hfull : name = branches ++ short := eq_append_of_without? hshort
  have hname := normal?_normal? h
  have hhead : short.toList.dropWhile (· == '/') = short.toList := by
    cases hchars : short.toList with
    | nil => rfl
    | cons c rest =>
      apply List.dropWhile_cons_of_neg
      intro hc
      -- there would be nothing between two slashes of the name
      have hsegments : "" ∈ segments name := by
        rw [segments, hfull, String.toList_append, hchars, beq_iff_eq.mp hc]
        exact List.mem_cons_of_mem "refs" (List.mem_cons_of_mem "heads" List.mem_cons_self)
      exact (mem_segments_of_normal? h hsegments).2 rfl
  rw [within?, hhead, String.ofList_toList, ← hfull, hname]

end RefName

end Chronicle
