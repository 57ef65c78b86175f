import Chronicle.Proofs.Outcome
import Chronicle.Replay.Basic

/-!
# Replaying keeps what every call keeps

Steps that follow one another (`Steps.runOn_bind`), and what they keep of a state (`Steps.Keeps`). A
property that no call on a backend destroys is still there after commands were replayed, wherever they
ended (`replay_keeps`).
-/

namespace Chronicle

namespace Steps

variable {σ ε α β : Type}

/-- The second of two steps starts from the state that the first one leaves, if that one answers. -/
theorem runOn_bind (s : σ) (x : Steps σ ε α) (f : α → Steps σ ε β) :
    runOn s (x >>= f) =
      match runOn s x with
      | (.ok a, s') => runOn s' (f a)
      | (.error e, s') => (.error e, s') := by
  show (ExceptT.bindCont f (runOn s x).1 : StateM σ (Except ε β)) (runOn s x).2 = _
  rcases runOn s x with ⟨a | e, s'⟩ <;> rfl

theorem runOn_discard (s : σ) (x : Steps σ ε α) :
    runOn s (discard x) = ((runOn s x).1.map fun _ => (), (runOn s x).2) := by
  rw [show discard x = x >>= fun _ => pure () from rfl, runOn_bind]
  rcases runOn s x with ⟨a | e, s'⟩ <;> rfl

/-- Steps that answer, answer one after the other. -/
theorem bind_of_ok {s s' : σ} {x : Steps σ ε α} {f : α → Steps σ ε β} {b : β}
    (h : runOn s (x >>= f) = (.ok b, s')) :
    ∃ a mid, runOn s x = (.ok a, mid) ∧ runOn mid (f a) = (.ok b, s') := by
  rw [runOn_bind] at h
  rcases hx : runOn s x with ⟨e | a, mid⟩
  · rw [hx] at h
    cases h
  · rw [hx] at h
    exact ⟨a, mid, rfl, h⟩

theorem discard_of_ok {s s' : σ} {x : Steps σ ε α} {u : Unit} (h : runOn s (discard x) = (.ok u, s')) :
    ∃ a, runOn s x = (.ok a, s') := by
  obtain ⟨a, mid, hx, hlast⟩ := bind_of_ok h
  cases hlast
  exact ⟨a, hx⟩

/-- Steps that answer nothing of interest are done when the first is done and then the second. -/
theorem runOn_discard_seq {s s' : σ} {x : Steps σ ε α} {y : Steps σ ε β}
    (h : runOn s (do discard x; discard y) = (.ok (), s')) :
    ∃ a b mid, runOn s x = (.ok a, mid) ∧ runOn mid y = (.ok b, s') := by
  obtain ⟨_, mid, hx, hy⟩ := bind_of_ok h
  obtain ⟨a, ha⟩ := discard_of_ok hx
  obtain ⟨b, hb⟩ := discard_of_ok hy
  exact ⟨a, b, mid, ha, hb⟩

/-- Whether some steps leave a property alone, however they end. -/
def Keeps (P : σ → Prop) (x : Steps σ ε α) : Prop := ∀ s, P s → P (runOn s x).2

variable {P : σ → Prop}

theorem Keeps.pure (a : α) : Keeps P (pure a : Steps σ ε α) := fun _ hs => hs

theorem Keeps.bind {x : Steps σ ε α} {f : α → Steps σ ε β} (hx : Keeps P x)
    (hf : ∀ a, Keeps P (f a)) : Keeps P (x >>= f) := by
  intro s hs
  have hmid := hx s hs
  rw [runOn_bind]
  rcases hrun : runOn s x with ⟨a | e, s'⟩
  · rw [hrun] at hmid
    exact hmid
  · rw [hrun] at hmid
    exact hf _ s' hmid

theorem Keeps.discard {x : Steps σ ε α} (hx : Keeps P x) : Keeps P (discard x) := by
  intro s hs
  rw [runOn_discard]
  exact hx s hs

end Steps

open Steps

variable {σ ε : Type} {b : Backend σ ε} {P : σ → Prop}

theorem Command.replay_keeps (hcall : ∀ c, Keeps P (b.call c)) (c : Command) :
    Keeps P (c.replay b) := by
  cases c with
  -- staging and committing, and the three calls of a merge; all others are one call
  | commit info => exact (hcall _).discard.bind fun _ => (hcall _).discard
  | merge theirs info =>
    exact (hcall _).bind fun _ => (hcall _).discard.bind fun _ => (hcall _).discard
  | tag name note => cases note <;> exact (hcall _).discard
  | init _ => exact (hcall _).discard
  | branch _ => exact (hcall _).discard
  | checkout _ => exact (hcall _).discard
  | createFile _ _ => exact (hcall _).discard
  | changeContent _ _ => exact (hcall _).discard
  | add _ => exact (hcall _).discard
  | appendContent _ _ _ => exact (hcall _).discard

/-- By induction on the commands: what every call keeps, all of them keep together. -/
theorem replay_keeps (hcall : ∀ c, Keeps P (b.call c)) (cs : List Command) : Keeps P (replay b cs) := by
  induction cs with
  | nil => exact .pure ()
  | cons c rest ih => exact (Command.replay_keeps hcall c).bind fun _ => ih

end Chronicle
