import Chronicle.Path

/-!
# Maps from paths

A `PathMap` gives at most one value to a path. Its view is `get?`: `get?_insert` and `get?_erase` say
what the operations do to it, and two maps with the same view stand for the same thing.
-/

namespace Chronicle

/-- Values at paths, the one set last in front. -/
structure PathMap (α : Type) where
  entries : List (Path × α) := []
  deriving DecidableEq

namespace PathMap

variable {α : Type}

/-- The value at a path. -/
def get? (m : PathMap α) (p : Path) : Option α := m.entries.lookup p

/-- Whether there is a value at a path. -/
def has (m : PathMap α) (p : Path) : Bool := (m.get? p).isSome

/-- The paths with a value. -/
def paths (m : PathMap α) : List Path := m.entries.map (·.1)

/-- Keeps the values at the paths that `keep` accepts. -/
def restrict (m : PathMap α) (keep : Path → Bool) : PathMap α := ⟨m.entries.filter fun e => keep e.1⟩

/-- Takes the value at a path away. -/
def erase (m : PathMap α) (p : Path) : PathMap α := m.restrict (· != p)

/-- Sets the value at a path. -/
def insert (m : PathMap α) (p : Path) (a : α) : PathMap α := ⟨(p, a) :: (m.erase p).entries⟩

/-- Whether there is a value below a path. -/
def hasBelow (m : PathMap α) (p : Path) : Bool := m.entries.any fun e => Path.above p e.1

/-- Keeps the values that have none below them. -/
def lowest (m : PathMap α) : PathMap α := m.restrict fun p => !m.hasBelow p

/-- Sets the value at a path and takes away those that could not stand beside it in one tree. -/
def displace (m : PathMap α) (p : Path) (a : α) : PathMap α :=
  (m.restrict fun q => !Path.above p q && !Path.above q p).insert p a

theorem get?_restrict (m : PathMap α) (keep : Path → Bool) (p : Path) :
    (m.restrict keep).get? p = if keep p then m.get? p else none := by
  obtain ⟨entries⟩ := m
  simp only [restrict, get?]
  induction entries with
  | nil => simp
  | cons e rest ih =>
    obtain ⟨q, a⟩ := e
    by_cases hp : p = q
    · subst hp
      by_cases hk : keep p <;> simp [hk, ih]
    · have hb : (p == q) = false := by simpa using hp
      by_cases hk : keep q <;> simp [hk, List.lookup_cons, hb, ih]

theorem get?_erase (m : PathMap α) (p q : Path) :
    (m.erase p).get? q = if q = p then none else m.get? q := by
  simp [erase, get?_restrict]

theorem get?_insert (m : PathMap α) (p q : Path) (a : α) :
    (m.insert p a).get? q = if q = p then some a else m.get? q := by
  by_cases h : q = p
  · subst h
    simp [insert, get?]
  · have hb : (q == p) = false := by simpa using h
    have he := get?_erase m p q
    simp only [get?, if_neg h] at he
    simp [insert, get?, List.lookup_cons, hb, h, he]

end PathMap

end Chronicle
