import Chronicle.CommandLine.Options
import Chronicle.Proofs.Outcome

/-!
# Words that ask for a run

`Options.Reads` spells out what the words of a command line are when they ask for a run: one option after
the other, each within what the options before it allow. That is what the reader accepts
(`Options.readFrom_eq_ok_iff`), and whatever is to be known about the words of a run is shown by induction
on it. **A run can be turned into a dry run by one more word in front** (`Options.read_dry`).
-/

namespace Chronicle

open Outcome

namespace Options

/-- Words that ask, behind words that chose `o`, for a run with the options `o'`. -/
inductive Reads : Options → List String → Options → Prop
  | done {o : Options} (hcheck : o.check = .ok (.generate o)) : Reads o [] o
  | dashes {o : Options} {word : String} (hword : Word.read word = .ok .dashes)
      (hcheck : o.check = .ok (.generate o)) : Reads o [word] o
  | json {o o' : Options} {word : String} {rest : List String} (hword : Word.read word = .ok (.switch .json))
      (hnew : o.json = false) (hrest : Reads { o with json := true } rest o') : Reads o (word :: rest) o'
  | quiet {o o' : Options} {word : String} {rest : List String} (hword : Word.read word = .ok (.switch .quiet))
      (hnew : o.quiet = false) (hrest : Reads { o with quiet := true } rest o') : Reads o (word :: rest) o'
  | dryRun {o o' : Options} {word : String} {rest : List String} (hword : Word.read word = .ok (.switch .dryRun))
      (hnew : o.dryRun = false) (hrest : Reads { o with dryRun := true } rest o') : Reads o (word :: rest) o'
  /-- A setting with its value in the same word. -/
  | setting {o next o' : Options} {word value : String} {s : Setting} {rest : List String}
      (hword : Word.read word = .ok (.setting s (some value))) (hset : o.set s value = .ok next)
      (hrest : Reads next rest o') : Reads o (word :: rest) o'
  /-- A setting with its value in the next word. -/
  | settingApart {o next o' : Options} {word value : String} {s : Setting} {rest : List String}
      (hword : Word.read word = .ok (.setting s none)) (hvalue : Word.looksLikeOption value = false)
      (hset : o.set s value = .ok next) (hrest : Reads next rest o') : Reads o (word :: value :: rest) o'

variable {o o' : Options} {words : List String}

theorem eq_of_check {i : Invocation} (h : o.check = .ok i) : i = .generate o := by
  unfold check at h
  split at h
  · cases h
  · cases h
    rfl

theorem turnOn_eq_ok_iff {s : Switch} {given on : Bool} : turnOn s given = .ok on ↔ given = false ∧ on = true := by
  cases given <;> simp [turnOn, eq_comm]

/-- By induction on the number of words; one case for each kind of word. -/
theorem Reads.of_readFrom {n : Nat} (hn : words.length ≤ n) (h : readFrom o words = .ok (.generate o')) :
    Reads o words o' := by
  induction n generalizing o words with
  | zero =>
    obtain rfl := List.length_eq_zero_iff.mp (Nat.le_zero.mp hn)
    unfold readFrom at h
    cases eq_of_check h
    exact .done h
  | succ n ih =>
    cases words with
    | nil =>
      unfold readFrom at h
      cases eq_of_check h
      exact .done h
    | cons word rest =>
      have hrest : rest.length ≤ n := Nat.le_of_succ_le_succ hn
      unfold readFrom at h
      obtain ⟨w, hword, h⟩ := bind_eq_ok.mp h
      cases w with
      | switch s =>
        cases s with
        | help | version => cases h
        | json =>
          obtain ⟨on, hon, h⟩ := bind_eq_ok.mp h
          obtain ⟨hnew, rfl⟩ := turnOn_eq_ok_iff.mp hon
          exact .json hword hnew (ih hrest h)
        | quiet =>
          obtain ⟨on, hon, h⟩ := bind_eq_ok.mp h
          obtain ⟨hnew, rfl⟩ := turnOn_eq_ok_iff.mp hon
          exact .quiet hword hnew (ih hrest h)
        | dryRun =>
          obtain ⟨on, hon, h⟩ := bind_eq_ok.mp h
          obtain ⟨hnew, rfl⟩ := turnOn_eq_ok_iff.mp hon
          exact .dryRun hword hnew (ih hrest h)
      | setting s value =>
        cases value with
        | some value =>
          obtain ⟨next, hset, h⟩ := bind_eq_ok.mp h
          exact .setting hword hset (ih hrest h)
        | none =>
          cases rest with
          | nil => cases h
          | cons value rest =>
            dsimp only at h
            split at h
            · cases h
            · -- two words are read at once, so the induction is not on the words
              rename_i hvalue
              obtain ⟨next, hset, h⟩ := bind_eq_ok.mp h
              exact .settingApart hword (Bool.eq_false_iff.mpr hvalue) hset (ih (Nat.le_of_succ_le hrest) h)
      | dashes =>
        cases rest with
        | nil =>
          cases eq_of_check h
          exact .dashes hword h
        | cons other rest => cases h

theorem Reads.readFrom (h : Reads o words o') : readFrom o words = .ok (.generate o') := by
  induction h with
  | done hcheck =>
    unfold Options.readFrom
    exact hcheck
  | dashes hword hcheck =>
    unfold Options.readFrom
    rw [hword]
    exact hcheck
  | json hword hnew _ ih | quiet hword hnew _ ih | dryRun hword hnew _ ih =>
    unfold Options.readFrom
    rw [hword, hnew]
    exact ih
  | setting hword hset _ ih =>
    unfold Options.readFrom
    rw [hword, ok_bind]
    dsimp only
    rw [hset]
    exact ih
  | settingApart hword hvalue hset _ ih =>
    unfold Options.readFrom
    rw [hword, ok_bind]
    dsimp only
    rw [hvalue, hset]
    exact ih

theorem readFrom_eq_ok_iff : readFrom o words = .ok (.generate o') ↔ Reads o words o' :=
  ⟨Reads.of_readFrom (Nat.le_refl _), Reads.readFrom⟩

/-! ## Dry runs -/

/-- The same choices, but nothing is carried out. -/
def dry (o : Options) : Options := { o with dryRun := true }

theorem dryRun_of_set {s : Setting} {value : String} {next : Options} (h : o.set s value = .ok next) :
    next.dryRun = o.dryRun := by
  cases s <;>
  · obtain ⟨_, _, h⟩ := bind_eq_ok.mp h
    cases h
    rfl

theorem set_dry {s : Setting} {value : String} {next : Options} (h : o.set s value = .ok next) :
    o.dry.set s value = .ok next.dry := by
  cases s <;>
  · obtain ⟨given, hgiven, h⟩ := bind_eq_ok.mp h
    cases h
    exact bind_eq_ok.mpr ⟨given, hgiven, rfl⟩

theorem check_dry (h : o.check = .ok (.generate o)) : o.dry.check = .ok (.generate o.dry) := by
  unfold check at h ⊢
  split at h
  · cases h
  · rename_i hboth
    exact if_neg hboth

/-- A switch that is turned on stays on. -/
theorem Reads.dryRun_of_dryRun (h : Reads o words o') (hdry : o.dryRun = true) : o'.dryRun = true := by
  induction h with
  | done _ | dashes _ _ => exact hdry
  | json _ _ _ ih | quiet _ _ _ ih => exact ih hdry
  | dryRun _ _ _ ih => exact ih rfl
  | setting _ hset _ ih | settingApart _ _ hset _ ih => exact ih ((dryRun_of_set hset).trans hdry)

/-- None of the words is about dry runs, so they may as well follow the one that is. -/
theorem Reads.dry (h : Reads o words o') (hreal : o'.dryRun = false) : Reads o.dry words o'.dry := by
  induction h with
  | done hcheck => exact .done (check_dry hcheck)
  | dashes hword hcheck => exact .dashes hword (check_dry hcheck)
  | json hword hnew _ ih => exact .json hword hnew (ih hreal)
  | quiet hword hnew _ ih => exact .quiet hword hnew (ih hreal)
  | dryRun hword _ hrest _ =>
    -- such a word would have made a dry run of it
    rw [hrest.dryRun_of_dryRun rfl] at hreal
    cases hreal
  | setting hword hset _ ih => exact .setting hword (set_dry hset) (ih hreal)
  | settingApart hword hvalue hset _ ih => exact .settingApart hword hvalue (set_dry hset) (ih hreal)

/-- **One more word makes a run a dry run.** -/
theorem read_dry (h : read words = .ok (.generate o)) (hreal : o.dryRun = false) :
    read ("--dry-run" :: words) = .ok (.generate o.dry) := by
  have hwords : Reads {} words o := readFrom_eq_ok_iff.mp h
  exact readFrom_eq_ok_iff.mpr (.dryRun rfl rfl (hwords.dry hreal))

end Options

end Chronicle
