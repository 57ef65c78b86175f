import Chronicle.Generate
import Chronicle.Proofs.FileTree.Sound
import Chronicle.Proofs.Repository.RefName
import Mathlib.Data.List.TakeWhile

/-!
# Texts joined to the text of a directory

A text that leads inside a directory is put behind the text of the directory (`Path.join`) and the whole
is read as a path. The segments of the whole end with those of the text (`segments_join`), so **it leads
from the directory on as the text does by itself** (`Site.Target.ofText_join`), and it ends as the text
does (`FileTree.ending_join`).
-/

namespace Chronicle

/-- A text that goes on from where another one leads, with a slash between them where there is none. A
text that leads from the root goes on from nowhere. -/
def Path.join (base text : String) : String :=
  if isAbsolute text then text
  else if base.isEmpty || base.endsWith "/" then base ++ text
  else base ++ "/" ++ text

/-! ## Segments -/

theorem pieces_append_slash (before after : List Char) :
    pieces (before ++ '/' :: after) = pieces before ++ pieces after := by
  induction before with
  | nil => rfl
  | cons c rest ih =>
    have hne : pieces rest ≠ [] := by
      rw [pieces_eq_splitOn]
      exact List.splitOn_ne_nil '/' rest
    rw [List.cons_append]
    by_cases hc : c = '/'
    · rw [hc, pieces_slash, pieces_slash, ih, List.cons_append]
    · have hne' : pieces (rest ++ '/' :: after) ≠ [] := by
        rw [ih]
        exact List.append_ne_nil_of_left_ne_nil hne _
      rw [pieces_cons hc, pieces_cons hc, if_neg hne, if_neg hne', ih]
      obtain ⟨piece, others, hpieces⟩ := List.exists_cons_of_ne_nil hne
      rw [hpieces]
      rfl

theorem segments_append_slash (before after : String) :
    segments (before ++ "/" ++ after) = segments before ++ segments after := by
  have htext : (before ++ "/" ++ after).toList = before.toList ++ '/' :: after.toList := by
    simp [toList_slash]
  rw [segments, htext, pieces_append_slash, List.map_append]
  rfl

/-- Which text leads from the root is told by its first character. -/
theorem Path.isAbsolute_iff {text : String} : Path.isAbsolute text = true ↔ text.toList.head? = some '/' := by
  rw [isAbsolute, String.startsWith_string_iff, toList_slash]
  cases text.toList with
  | nil => simp
  | cons c rest => simp [eq_comm]

/-- In front of the segments of the text are those of the directory, up to what does not count. -/
theorem segments_join (base : String) {text : String} (h : Path.isAbsolute text = false) :
    ∃ front, segments (Path.join base text) = front ++ segments text ∧
      front.filter (fun s => s != "" && s != ".") = Path.normal base := by
  unfold Path.join
  rw [h]
  by_cases hempty : base = ""
  · refine ⟨[], ?_, ?_⟩
    · simp [hempty]
    · rw [hempty]
      rfl
  · by_cases hslash : base.endsWith "/" = true
    · -- the text of the directory ends with the slash between them
      have hlast : base.toList.getLast? = some '/' := (endsWith_iff base '/').mp hslash
      obtain ⟨front, hfront⟩ := List.getLast?_eq_some_iff.mp hlast
      have hbase : base = String.ofList front ++ "/" := by
        rw [← String.toList_inj, hfront, String.toList_append, String.toList_ofList, toList_slash]
      refine ⟨segments (String.ofList front), ?_, ?_⟩
      · simp only [hslash, Bool.or_true, if_true, Bool.false_eq_true, if_false]
        rw [hbase, segments_append_slash]
      · have hsegments : segments base = segments (String.ofList front) ++ [""] := by
          have happend := segments_append_slash (String.ofList front) ""
          rw [String.append_empty, ← hbase] at happend
          exact happend
        rw [Path.normal, hsegments, List.filter_append]
        simp
    · refine ⟨segments base, ?_, rfl⟩
      have hisEmpty : base.isEmpty = false := by simpa [String.isEmpty_iff] using hempty
      simp only [hisEmpty, Bool.eq_false_iff.mpr hslash, Bool.or_self, Bool.false_eq_true, if_false]
      exact segments_append_slash base text

theorem Path.normal_join (base : String) {text : String} (h : Path.isAbsolute text = false) :
    Path.normal (Path.join base text) = Path.normal base ++ Path.normal text := by
  obtain ⟨front, hsegments, hfront⟩ := segments_join base h
  rw [Path.normal, hsegments, List.filter_append, hfront]
  rfl

theorem Path.isAbsolute_join (base : String) {text : String} (h : Path.isAbsolute text = false) :
    Path.isAbsolute (Path.join base text) = Path.isAbsolute base := by
  unfold Path.join
  rw [h]
  by_cases hempty : base = ""
  · have hnone : Path.isAbsolute "" = false := by
      rw [Bool.eq_false_iff, Ne, isAbsolute_iff]
      simp
    rw [hempty, hnone]
    simpa using h
  · have hhead (more : String) : (base ++ more).toList.head? = base.toList.head? := by
      obtain ⟨c, rest, hbase⟩ := List.exists_cons_of_ne_nil (l := base.toList) (by simpa using hempty)
      rw [String.toList_append, hbase]
      rfl
    have hsame (more : String) : Path.isAbsolute (base ++ more) = Path.isAbsolute base := by
      rw [Bool.eq_iff_iff, isAbsolute_iff, isAbsolute_iff, hhead]
    split
    · rename_i hfalse
      cases hfalse
    · split
      · exact hsame text
      · rw [String.append_assoc]
        exact hsame _

/-! ## Where a joined text leads -/

/-- Names that do not lead back lead on. -/
theorem Path.settled_append {names : Path} (hnames : ∀ s ∈ names, s ≠ "..") (p : Path) :
    Path.settled (p ++ names) = Path.settled p ++ names := by
  rw [settled, List.foldl_append]
  show names.foldl _ (Path.settled p) = _
  generalize Path.settled p = here
  induction names generalizing here with
  | nil => rw [List.foldl_nil, List.append_nil]
  | cons s rest ih =>
    obtain ⟨hs, hrest⟩ := List.forall_mem_cons.mp hnames
    rw [List.foldl_cons, if_neg (by simpa using hs), ih hrest, List.append_assoc, List.singleton_append]

/-- Names that do not lead back lead where they say. -/
theorem Path.settled_eq {names : Path} (hnames : ∀ s ∈ names, s ≠ "..") : Path.settled names = names :=
  settled_append hnames []

theorem Site.Target.way_join (here : Site.Target) (base : String) {text : String}
    (h : Path.isAbsolute text = false) : (Site.Target.ofText here (Path.join base text)).way =
      (Site.Target.ofText here base).way ++ Path.normal text := by
  simp only [Site.Target.ofText, Path.isAbsolute_join base h, Path.normal_join base h]
  split
  · rfl
  · rw [List.append_assoc]

/-- **A joined text leads below the directory**, to where the text by itself leads from there. -/
theorem Site.Target.ofText_join (here : Site.Target) (base : String) {text : String}
    (hin : FileTree.isInside text = true) : (Site.Target.ofText here (Path.join base text)).dir =
      (Site.Target.ofText here base).dir ++ Path.normal text := by
  have habsolute : Path.isAbsolute text = false := (FileTree.isInside_iff.mp hin).2.1
  rw [dir, way_join here base habsolute]
  exact Path.settled_append (FileTree.ne_up_of_isInside hin) _

namespace FileTree

/-- What leads inside begins with a segment that is not empty. -/
theorem head_segments_ne {text : String} (hin : isInside text = true) :
    ∃ s others, segments text = s :: others ∧ s ≠ "" := by
  obtain ⟨hne, habsolute, _⟩ := isInside_iff.mp hin
  obtain ⟨c, rest, htext⟩ := List.exists_cons_of_ne_nil (l := text.toList) (by simpa using hne)
  have hc : c ≠ '/' := by
    rintro rfl
    rw [Path.isAbsolute_iff.mpr (by rw [htext]; rfl)] at habsolute
    cases habsolute
  rw [segments, htext, pieces_cons hc]
  cases pieces rest with
  | nil => exact ⟨_, _, rfl, by simp⟩
  | cons piece others => exact ⟨_, _, rfl, by simp⟩

/-- How a text ends is told by its segments from the last one that is not empty on, and there is one. -/
theorem ending_join (base : String) {text : String} (hin : isInside text = true) :
    ending (Path.join base text) = ending text := by
  obtain ⟨front, hsegments, _⟩ := segments_join base (isInside_iff.mp hin).2.1
  obtain ⟨s, others, htext, hs⟩ := head_segments_ne hin
  have hlast : (front ++ segments text).getLast? = (segments text).getLast? := by
    rw [List.getLast?_append, htext, List.getLast?_eq_some_getLast (List.cons_ne_nil s others), Option.some_or]
  have hsome : (segments text).reverse.dropWhile (· == "") ≠ [] := by
    rw [Ne, List.dropWhile_eq_nil_iff]
    intro hall
    exact hs (by simpa using hall s (by simp [htext]))
  obtain ⟨x, more, hmore⟩ := List.exists_cons_of_ne_nil hsome
  have hwhole : (front ++ segments text).reverse.dropWhile (· == "") = x :: (more ++ front.reverse) := by
    rw [List.reverse_append, List.dropWhile_append, hmore]
    rfl
  rw [ending, ending, hsegments, hlast, hwhole, hmore]
  by_cases hx : x = "."
  · subst hx
    rfl
  · simp [hx]

end FileTree

end Chronicle
