/-!
# Blank characters and trimming

`Char.isBlank` is the Unicode property `White_Space`. `trim` removes blank characters at both ends
of a text and nothing inside it; `IsBlank` says that nothing is left.
-/

namespace Chronicle.Text

/-- The code points with the Unicode property `White_Space`. -/
def blankCode (n : Nat) : Bool :=
  (0x09 ≤ n && n ≤ 0x0D) || n == 0x20 || n == 0x85 || n == 0xA0 || n == 0x1680
    || (0x2000 ≤ n && n ≤ 0x200A) || n == 0x2028 || n == 0x2029 || n == 0x202F
    || n == 0x205F || n == 0x3000

/-- A blank character. -/
def blank (c : Char) : Bool := blankCode c.toNat

/-- The characters up to the last one that is not blank. -/
def dropBlankEnd : List Char → List Char
  | [] => []
  | c :: rest =>
    match dropBlankEnd rest with
    | [] => if blank c then [] else [c]
    | kept => c :: kept

/-- The characters without the blank ones at either end. -/
def trimChars (cs : List Char) : List Char := dropBlankEnd (cs.dropWhile blank)

/-- A text without the blank characters at either end. -/
def trim (s : String) : String := String.ofList (trimChars s.toList)

/-- Nothing but blank characters. -/
def allBlank (s : String) : Bool := s.toList.all blank

/-! ## What trimming keeps -/

theorem dropBlankEnd_eq_nil_iff (cs : List Char) : dropBlankEnd cs = [] ↔ ∀ c ∈ cs, blank c = true := by
  induction cs with
  | nil => simp [dropBlankEnd]
  | cons c rest ih =>
    unfold dropBlankEnd
    cases h : dropBlankEnd rest with
    | nil =>
      have hrest := ih.mp h
      by_cases hc : blank c <;> simp [hc]
      exact hrest
    | cons d kept =>
      have : ¬ ∀ x ∈ rest, blank x = true := fun hx => by simp [ih.mpr hx] at h
      simp only [List.mem_cons, forall_eq_or_imp, reduceCtorEq, false_iff]
      exact fun hx => this hx.2

/-- What is kept never ends in a blank character. -/
theorem dropBlankEnd_getLast (cs : List Char) (c : Char) (h : (dropBlankEnd cs).getLast? = some c) :
    blank c = false := by
  induction cs with
  | nil => simp [dropBlankEnd] at h
  | cons d rest ih =>
    unfold dropBlankEnd at h
    cases hr : dropBlankEnd rest with
    | nil =>
      rw [hr] at h
      by_cases hd : blank d
      · simp [hd] at h
      · simp only [hd] at h
        simp at h
        subst h
        simpa using hd
    | cons e kept =>
      rw [hr] at h ih
      apply ih
      simpa using h

end Chronicle.Text
