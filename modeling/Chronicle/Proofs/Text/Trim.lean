import Chronicle.Text.Blank
import Mathlib.Data.List.TakeWhile

/-!
# What trimming leaves

`Text.trimChars` is characterised by two facts. What it leaves has no blank character at either end
(`Text.Trimmed`), and the text is that with blanks around it (`Text.trimChars_split`). Blanks that are put
around a text therefore change nothing (`Text.trimChars_padded`), and what is trimmed already stays as it is
(`Text.Trimmed.trimChars_eq`).
-/

namespace Chronicle.Text

variable {cs before after : List Char}

/-- Nothing but blank characters. -/
def Blanks (cs : List Char) : Prop := ∀ c ∈ cs, blank c = true

instance (cs : List Char) : Decidable (Blanks cs) := decidable_of_iff _ List.all_eq_true

/-- No blank character at either end. -/
structure Trimmed (cs : List Char) : Prop where
  first : ∀ c, cs.head? = some c → blank c = false
  last : ∀ c, cs.getLast? = some c → blank c = false

theorem trimmed_iff : (cs.head?.all (!blank ·) && cs.getLast?.all (!blank ·)) = true ↔ Trimmed cs := by
  rw [Bool.and_eq_true, Option.all_eq_true, Option.all_eq_true]
  simp only [Bool.not_eq_true']
  exact ⟨fun h => ⟨h.1, h.2⟩, fun h => ⟨h.first, h.last⟩⟩

instance (cs : List Char) : Decidable (Trimmed cs) := decidable_of_iff _ trimmed_iff

theorem Blanks.nil : Blanks [] := fun _ hc => absurd hc List.not_mem_nil

theorem Blanks.append (hbefore : Blanks before) (hafter : Blanks after) : Blanks (before ++ after) :=
  List.forall_mem_append.mpr ⟨hbefore, hafter⟩

theorem allBlank_iff (s : String) : allBlank s = true ↔ Blanks s.toList := by
  simp [allBlank, Blanks]

theorem Trimmed.nil : Trimmed [] := ⟨by simp, by simp⟩

/-! ## The end of a text -/

theorem dropBlankEnd_append (hafter : Blanks after) : dropBlankEnd (cs ++ after) = dropBlankEnd cs := by
  induction cs with
  | nil => rw [List.nil_append, (dropBlankEnd_eq_nil_iff after).mpr hafter, dropBlankEnd]
  | cons c rest ih => rw [List.cons_append, dropBlankEnd, ih, dropBlankEnd]

/-- Only blanks are dropped. -/
theorem dropBlankEnd_split (cs : List Char) : ∃ after, Blanks after ∧ cs = dropBlankEnd cs ++ after := by
  induction cs with
  | nil => exact ⟨[], Blanks.nil, rfl⟩
  | cons c rest ih =>
    obtain ⟨after, hafter, hrest⟩ := ih
    rw [dropBlankEnd]
    cases hkept : dropBlankEnd rest with
    | cons d kept => exact ⟨after, hafter, by rw [hkept] at hrest; rw [List.cons_append, ← hrest]⟩
    | nil =>
      rw [hkept, List.nil_append] at hrest
      by_cases hc : blank c
      · exact ⟨c :: rest, List.forall_mem_cons.mpr ⟨hc, hrest ▸ hafter⟩, by simp [hc]⟩
      · exact ⟨rest, hrest ▸ hafter, by simp [hc]⟩

theorem dropBlankEnd_eq_self (hlast : ∀ c, cs.getLast? = some c → blank c = false) :
    dropBlankEnd cs = cs := by
  obtain ⟨after, hafter, hcs⟩ := dropBlankEnd_split cs
  cases hend : after.getLast? with
  | none => rwa [List.getLast?_eq_none_iff.mp hend, List.append_nil, eq_comm] at hcs
  | some c =>
    have hc : cs.getLast? = some c := by rw [hcs, List.getLast?_append, hend, Option.some_or]
    have hblank : blank c = true := hafter c (List.mem_of_getLast? hend)
    rw [hlast c hc] at hblank
    cases hblank

/-! ## Both ends -/

theorem trimmed_trimChars (cs : List Char) : Trimmed (trimChars cs) := by
  refine ⟨fun c hc => ?_, dropBlankEnd_getLast _⟩
  obtain ⟨after, _, hsplit⟩ := dropBlankEnd_split (cs.dropWhile blank)
  have hhead : (cs.dropWhile blank).head? = some c := by
    rw [hsplit, List.head?_append, show (dropBlankEnd (cs.dropWhile blank)).head? = some c from hc,
      Option.some_or]
  have hnot := List.head?_dropWhile_not blank cs
  rwa [hhead] at hnot

/-- A text is what trimming leaves, with blanks around it; before it stand all blanks there are. -/
theorem trimChars_split (cs : List Char) :
    ∃ after, Blanks after ∧ cs = cs.takeWhile blank ++ trimChars cs ++ after := by
  obtain ⟨after, hafter, hsplit⟩ := dropBlankEnd_split (cs.dropWhile blank)
  refine ⟨after, hafter, ?_⟩
  rw [List.append_assoc, trimChars, ← hsplit, List.takeWhile_append_dropWhile]

theorem trimChars_padded (cs : List Char) (hbefore : Blanks before) (hafter : Blanks after) :
    trimChars (before ++ cs ++ after) = trimChars cs := by
  have hall : after.dropWhile blank = [] := List.dropWhile_eq_nil_iff.mpr hafter
  rw [trimChars, List.append_assoc, List.dropWhile_append_of_pos hbefore, List.dropWhile_append, trimChars]
  cases hempty : (cs.dropWhile blank).isEmpty with
  | true => rw [if_pos rfl, hall, List.isEmpty_iff.mp hempty]
  | false => exact dropBlankEnd_append hafter

theorem Trimmed.trimChars_eq (h : Trimmed cs) : trimChars cs = cs := by
  have hhead : cs.dropWhile blank = cs := by
    cases cs with
    | nil => rfl
    | cons c rest => rw [List.dropWhile_cons_of_neg (by simp [h.first c rfl])]
  rw [trimChars, hhead, dropBlankEnd_eq_self h.last]

theorem trimChars_of_blanks (h : Blanks cs) : trimChars cs = [] := by
  have hpadded := trimChars_padded [] Blanks.nil h
  rwa [List.nil_append, Trimmed.nil.trimChars_eq] at hpadded

/-- What begins and ends with trimmed texts that are not empty is trimmed. -/
theorem Trimmed.append {last : List Char} (hcs : Trimmed cs) (hlast : Trimmed last) (hcsne : cs ≠ [])
    (hlastne : last ≠ []) (middle : List Char) : Trimmed (cs ++ middle ++ last) := by
  obtain ⟨c, hc⟩ := Option.ne_none_iff_exists'.mp (mt List.head?_eq_none_iff.mp hcsne)
  obtain ⟨d, hd⟩ := Option.ne_none_iff_exists'.mp (mt List.getLast?_eq_none_iff.mp hlastne)
  constructor
  · simpa [hc] using hcs.first c hc
  · simpa [List.getLast?_append, hd] using hlast.last d hd

/-- What is left is blank only where nothing is left. -/
theorem allBlank_trim (s : String) : allBlank (trim s) = (trim s).isEmpty := by
  have htrimmed := trimmed_trimChars s.toList
  rw [Bool.eq_iff_iff, allBlank_iff, String.isEmpty_iff, trim, String.toList_ofList]
  constructor
  · intro hblanks
    rw [← htrimmed.trimChars_eq, trimChars_of_blanks hblanks]
  · intro hnil
    rw [String.ofList_eq_empty_iff] at hnil
    rw [hnil]
    exact Blanks.nil

end Chronicle.Text
