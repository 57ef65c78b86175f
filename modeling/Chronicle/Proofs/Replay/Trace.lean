import Chronicle.Proofs.Replay.Basic
import Chronicle.Replay.Recorder

/-!
# The calls that replaying makes

What a command asks of a backend is a row of calls (`Command.calls`); one of them, the checkout that
ends a merge, names the branch that the backend was on when the merge began. Put behind each other,
these rows are the script of a list of commands (`Backend.script`). Calls are played in order, up to
and with the first one that fails (`Backend.Plays`).

**Replaying commands plays their script, on every backend** (`Backend.replay_plays_script`): a backend
that lists the calls made on it (`Backend.listed`) lists just those that the script has up to the first
failure, and replaying ends as that call did. What comes next in a script is settled by the answers so
far (`Backend.script_causal`), and so two backends that answer alike are asked alike.
-/

namespace Chronicle

open Steps

variable {σ ε σ' ε' : Type}

/-! ## What commands ask for -/

/-- The calls of a command, where `branch` is the branch that is checked out when it begins. -/
def Command.calls (branch : Option String) : Command → List Call
  | init defaultBranch => [.init defaultBranch]
  | commit info => [.stage .all, .commit info]
  | Command.branch name => [.createBranch name]
  | checkout reference => [.checkout reference]
  | merge theirs info =>
    [.currentBranch, .merge theirs info false .theirs, .checkout (branch.getD "HEAD")]
  | tag name none => [.tag name]
  | tag name (some info) => [.annotatedTag name info]
  | createFile file content | changeContent file content => [.writeFile file content]
  | add paths => [.stage paths]
  | appendContent file content newLine =>
    [.appendFile file (if newLine then "\n" ++ content else content)]

namespace Backend

/-- The branch that a backend says it is on. -/
def branch (b : Backend σ ε) (s : σ) : Option String := ((b.answer .currentBranch s).1.toOption).join

/-- The state that some calls leave, made one after the other whatever they answer. -/
def leave (b : Backend σ ε) (calls : List Call) (s : σ) : σ :=
  calls.foldl (fun s c => (b.answer c s).2) s

/-- The calls of some commands, in order, if all of them are made. -/
def script (b : Backend σ ε) : List Command → σ → List Call
  | [], _ => []
  | c :: rest, s => c.calls (b.branch s) ++ b.script rest (b.leave (c.calls (b.branch s)) s)

/-- Playing calls in order from a state: which of them are made, how that ends and in which state. The
first call that fails is the last one made, and its error and the state it leaves are what remains. -/
inductive Plays (b : Backend σ ε) : σ → List Call → List Call → Except ε Unit → σ → Prop
  | done (s : σ) : Plays b s [] [] (.ok ()) s
  | failed {s s' : σ} {c : Call} {e : ε} (rest : List Call) (h : b.answer c s = (.error e, s')) :
      Plays b s (c :: rest) [c] (.error e) s'
  | answered {s mid s' : σ} {c : Call} {a : Option String} {rest made : List Call}
      {result : Except ε Unit} (h : b.answer c s = (.ok a, mid))
      (hrest : Plays b mid rest made result s') : Plays b s (c :: rest) (c :: made) result s'

/-- What a backend answers to calls in a row; nothing stands for a call that fails. -/
def replies (b : Backend σ ε) : List Call → σ → List (Option (Option String))
  | [], _ => []
  | c :: rest, s => (b.answer c s).1.toOption :: b.replies rest (b.answer c s).2

/-- A backend that lists the calls made on it, those that fail included. -/
def listed (b : Backend σ ε) : Backend (σ × List Call) ε where
  answer c s := ((b.answer c s.1).1, (b.answer c s.1).2, s.2 ++ [c])

/-- The calls that replaying commands makes. -/
def made (b : Backend σ ε) (cs : List Command) (s : σ) : List Call :=
  ((replay b.listed cs).runOn (s, [])).2.2

/-! ## Replaying plays the script -/

/-- Makes calls in order and looks at no answer. -/
def callAll (b : Backend σ ε) : List Call → Steps σ ε Unit
  | [] => pure ()
  | c :: rest => do
    discard (b.call c)
    b.callAll rest

variable {b : Backend σ ε} {b' : Backend σ' ε'} {s : σ} {s' : σ'}

theorem runOn_call (b : Backend σ ε) (c : Call) (s : σ) : runOn s (b.call c) = b.answer c s := rfl

theorem runOn_callAll_cons (c : Call) (rest : List Call) :
    runOn s (b.callAll (c :: rest)) =
      match b.answer c s with
      | (.ok _, mid) => runOn mid (b.callAll rest)
      | (.error e, mid) => (.error e, mid) := by
  rw [callAll, runOn_bind, runOn_discard, runOn_call]
  rcases b.answer c s with ⟨e | a, mid⟩ <;> rfl

theorem runOn_callAll_append (first second : List Call) :
    runOn s (b.callAll (first ++ second)) =
      match runOn s (b.callAll first) with
      | (.ok (), mid) => runOn mid (b.callAll second)
      | (.error e, mid) => (.error e, mid) := by
  induction first generalizing s with
  | nil => rfl
  | cons c rest ih =>
    rw [List.cons_append, runOn_callAll_cons, runOn_callAll_cons]
    rcases b.answer c s with ⟨e | a, mid⟩
    · rfl
    · exact ih

/-- Calls that all answer leave the state that they leave in any case. -/
theorem leave_of_runOn_callAll {calls : List Call} {mid : σ}
    (h : runOn s (b.callAll calls) = (.ok (), mid)) : b.leave calls s = mid := by
  induction calls generalizing s with
  | nil =>
    cases h
    rfl
  | cons c rest ih =>
    rw [runOn_callAll_cons] at h
    rcases hc : b.answer c s with ⟨e | a, next⟩
    · rw [hc] at h
      cases h
    · rw [hc] at h
      show b.leave rest (b.answer c s).2 = mid
      rw [hc]
      exact ih h

/-- A command makes its calls. Only a merge looks at an answer, at that of its first call. -/
theorem runOn_replay_command (b : Backend σ ε) (c : Command) (s : σ) :
    runOn s (c.replay b) = runOn s (b.callAll (c.calls (b.branch s))) := by
  have hone (call : Call) : runOn s (discard (b.call call)) = runOn s (b.callAll [call]) := by
    rw [runOn_callAll_cons, runOn_discard, runOn_call]
    rcases b.answer call s with ⟨e | a, mid⟩ <;> rfl
  cases c with
  | commit info =>
    simp only [Command.replay, Command.calls, runOn_bind, runOn_discard, runOn_call, runOn_callAll_cons]
    rcases b.answer (.stage .all) s with ⟨e | a, mid⟩
    · rfl
    · simp only [Except.map]
      rcases b.answer (.commit info) mid with ⟨e | a, last⟩ <;> rfl
  | merge theirs info =>
    simp only [Command.replay, Command.calls, runOn_bind, runOn_discard, runOn_call,
      runOn_callAll_cons, branch, mergePolicy]
    rcases b.answer .currentBranch s with ⟨e | current, mid⟩
    · rfl
    · simp only [Except.toOption, Option.join_some]
      rcases b.answer (.merge theirs info false .theirs) mid with ⟨e | a, next⟩
      · rfl
      · simp only [Except.map]
        rcases b.answer (.checkout (current.getD "HEAD")) next with ⟨e | a, last⟩ <;> rfl
  | tag name note =>
    cases note with
    | none => exact hone (.tag name)
    | some info => exact hone (.annotatedTag name info)
  | init defaultBranch => exact hone (.init defaultBranch)
  | branch name => exact hone (.createBranch name)
  | checkout reference => exact hone (.checkout reference)
  | createFile file content => exact hone (.writeFile file content)
  | changeContent file content => exact hone (.writeFile file content)
  | add paths => exact hone (.stage paths)
  | appendContent file content newLine => exact hone (.appendFile file (appended content newLine))

/-- By induction on the commands: each starts in the state that the calls before it have left. -/
theorem runOn_replay (b : Backend σ ε) (cs : List Command) (s : σ) :
    runOn s (replay b cs) = runOn s (b.callAll (b.script cs s)) := by
  induction cs generalizing s with
  | nil => rfl
  | cons c rest ih =>
    rw [replay, runOn_bind, runOn_replay_command, script, runOn_callAll_append]
    rcases hc : runOn s (b.callAll (c.calls (b.branch s))) with ⟨e | a, mid⟩
    · rfl
    · rw [leave_of_runOn_callAll hc]
      exact ih mid

theorem leave_listed (calls : List Call) (log : List Call) :
    b.listed.leave calls (s, log) = (b.leave calls s, log ++ calls) := by
  induction calls generalizing s log with
  | nil => rw [List.append_nil]; rfl
  | cons c rest ih =>
    show b.listed.leave rest ((b.answer c s).2, log ++ [c]) = _
    rw [ih, List.append_assoc]
    rfl

/-- Listing calls does not change what is asked. -/
theorem script_listed (cs : List Command) (log : List Call) :
    b.listed.script cs (s, log) = b.script cs s := by
  induction cs generalizing s log with
  | nil => rfl
  | cons c rest ih =>
    show c.calls (b.branch s) ++ b.listed.script rest (b.listed.leave _ (s, log)) = _
    rw [leave_listed, ih]
    rfl

/-- Calls are made up to and with the first that fails, and are listed as they are made. -/
theorem callAll_plays (b : Backend σ ε) (calls : List Call) (s : σ) (log : List Call) :
    ∃ made result last, b.Plays s calls made result last ∧
      runOn s (b.callAll calls) = (result, last) ∧
      runOn (s, log) (b.listed.callAll calls) = (result, last, log ++ made) := by
  induction calls generalizing s log with
  | nil => exact ⟨[], .ok (), s, .done s, rfl, by rw [List.append_nil]; rfl⟩
  | cons c rest ih =>
    have hlisted : b.listed.answer c (s, log) = ((b.answer c s).1, (b.answer c s).2, log ++ [c]) := rfl
    rw [runOn_callAll_cons, runOn_callAll_cons, hlisted]
    rcases hc : b.answer c s with ⟨e | a, mid⟩
    · exact ⟨[c], .error e, mid, .failed rest hc, rfl, rfl⟩
    · obtain ⟨made, result, last, hplays, hrun, hlist⟩ := ih mid (log ++ [c])
      refine ⟨c :: made, result, last, .answered hc hplays, hrun, ?_⟩
      rw [List.append_assoc] at hlist
      exact hlist

theorem replay_plays (b : Backend σ ε) (cs : List Command) (s : σ) (log : List Call) :
    ∃ made result last, b.Plays s (b.script cs s) made result last ∧
      (replay b cs).runOn s = (result, last) ∧
      (replay b.listed cs).runOn (s, log) = (result, last, log ++ made) := by
  rw [runOn_replay, runOn_replay, script_listed]
  exact callAll_plays b (b.script cs s) s log

theorem plays_made (b : Backend σ ε) (cs : List Command) (s : σ) :
    b.Plays s (b.script cs s) (b.made cs s) ((replay b cs).runOn s).1 ((replay b cs).runOn s).2 := by
  obtain ⟨made, result, last, hplays, hrun, hlist⟩ := replay_plays b cs s []
  rw [Backend.made, hrun, hlist]
  exact hplays

/-! ## Two backends -/

theorem replies_append (first second : List Call) :
    b.replies (first ++ second) s = b.replies first s ++ b.replies second (b.leave first s) := by
  induction first generalizing s with
  | nil => rfl
  | cons c rest ih =>
    show _ :: b.replies (rest ++ second) _ = _
    rw [ih]
    rfl

theorem length_replies (calls : List Call) : (b.replies calls s).length = calls.length := by
  induction calls generalizing s with
  | nil => rfl
  | cons c rest ih => exact congrArg Nat.succ ih

theorem calls_ne_nil (c : Command) (branch : Option String) : c.calls branch ≠ [] := by
  cases c with
  | tag name note => cases note <;> exact List.cons_ne_nil _ _
  | _ => exact List.cons_ne_nil _ _

/-- Whatever is asked for a command is settled by the answer to the first of its calls. -/
theorem calls_eq_of_replies {c : Command} {first : List Call}
    (hpre : first <+: c.calls (b.branch s)) (hfirst : first ≠ [])
    (hreplies : b'.replies first s' = b.replies first s) :
    c.calls (b'.branch s') = c.calls (b.branch s) := by
  cases c with
  | merge theirs info =>
    -- the first of the calls asks for the branch
    obtain ⟨head, rest, rfl⟩ := List.exists_cons_of_ne_nil hfirst
    obtain ⟨rfl, _⟩ := List.cons_prefix_cons.mp hpre
    have hbranch : (b'.answer .currentBranch s').1.toOption = (b.answer .currentBranch s).1.toOption :=
      (List.cons_eq_cons.mp hreplies).1
    unfold branch
    rw [hbranch]
  | tag name note => cases note <;> rfl
  | _ => rfl

/-- The first call of a command depends on nothing. -/
theorem prefix_calls {c : Command} {call : Call} (branch branch' : Option String)
    (hpre : [call] <+: c.calls branch) : [call] <+: c.calls branch' := by
  cases c with
  | merge theirs info =>
    obtain ⟨rfl, _⟩ := List.cons_prefix_cons.mp hpre
    exact List.prefix_append _ _
  | tag name note => cases note <;> exact hpre
  | _ => exact hpre

/-- **Scripts are causal**: what is asked next is settled by the answers so far, on whichever backend. -/
theorem script_causal {cs : List Command} {first : List Call} {call : Call}
    (hpre : first ++ [call] <+: b.script cs s) (hreplies : b'.replies first s' = b.replies first s) :
    first ++ [call] <+: b'.script cs s' := by
  induction cs generalizing s s' first with
  | nil => exact absurd (List.prefix_nil.mp hpre) (by simp)
  | cons c rest ih =>
    rw [script] at hpre
    have hhead := List.prefix_append (c.calls (b.branch s))
      (b.script rest (b.leave (c.calls (b.branch s)) s))
    rw [script]
    rcases Nat.lt_or_ge first.length (c.calls (b.branch s)).length with hlt | hge
    · -- the call is one of the first command
      have hwithin : first ++ [call] <+: c.calls (b.branch s) :=
        List.prefix_of_prefix_length_le hpre hhead (by rw [List.length_append]; exact hlt)
      by_cases hfirst : first = []
      · subst hfirst
        exact (prefix_calls _ _ hwithin).trans (List.prefix_append _ _)
      · rw [calls_eq_of_replies ((List.prefix_append _ _).trans hwithin) hfirst hreplies]
        exact hwithin.trans (List.prefix_append _ _)
    · -- all of the first command has been answered
      obtain ⟨later, rfl⟩ :=
        List.prefix_of_prefix_length_le hhead ((List.prefix_append first [call]).trans hpre) hge
      rw [replies_append, replies_append] at hreplies
      obtain ⟨hnow, hlater⟩ := List.append_inj hreplies (by rw [length_replies, length_replies])
      rw [calls_eq_of_replies List.prefix_rfl (calls_ne_nil c _) hnow]
      rw [List.append_assoc, List.prefix_append_right_inj] at hpre ⊢
      exact ih hpre hlater

/-- Where playing calls fails, all calls but the last were answered, and they head the script. -/
theorem Plays.of_error {calls made : List Call} {e : ε} {last : σ}
    (h : b.Plays s calls made (.error e) last) :
    ∃ before call, made = before ++ [call] ∧ made <+: calls ∧
      ∀ reply ∈ b.replies before s, reply.isSome := by
  generalize hresult : (Except.error e : Except ε Unit) = result at h
  induction h with
  | done s => cases hresult
  | failed rest h => exact ⟨[], _, rfl, List.prefix_append [_] rest, by simp [replies]⟩
  | @answered s mid last c a rest made result h hrest ih =>
    obtain ⟨before, call, rfl, hpre, hsome⟩ := ih hresult
    refine ⟨c :: before, call, rfl, List.cons_prefix_cons.mpr ⟨rfl, hpre⟩, ?_⟩
    intro reply hreply
    rw [replies, h] at hreply
    rcases List.mem_cons.mp hreply with rfl | hlater
    · rfl
    · exact hsome reply hlater

/-- A call is made when all calls before it are answered. -/
theorem Plays.prefix_made {calls made before : List Call} {call : Call} {result : Except ε Unit}
    {last : σ} (h : b.Plays s calls made result last) (hpre : before ++ [call] <+: calls)
    (hsome : ∀ reply ∈ b.replies before s, reply.isSome) : before ++ [call] <+: made := by
  induction h generalizing before with
  | done s => exact absurd (List.prefix_nil.mp hpre) (by simp)
  | failed rest h =>
    cases before with
    | nil =>
      obtain ⟨rfl, _⟩ := List.cons_prefix_cons.mp hpre
      exact List.prefix_rfl
    | cons head before =>
      -- the call that fails would be one of those that are answered
      obtain ⟨rfl, _⟩ := List.cons_prefix_cons.mp hpre
      have hhead := hsome _ (List.mem_cons_self ..)
      rw [h] at hhead
      cases hhead
  | answered h hrest ih =>
    cases before with
    | nil =>
      obtain ⟨rfl, _⟩ := List.cons_prefix_cons.mp hpre
      exact List.prefix_append [_] _
    | cons head before =>
      obtain ⟨rfl, hlater⟩ := List.cons_prefix_cons.mp hpre
      refine List.cons_prefix_cons.mpr ⟨rfl, ih hlater ?_⟩
      intro reply hreply
      refine hsome reply (List.mem_cons_of_mem _ ?_)
      rw [h]
      exact hreply

/-- The calls of a run that fails are the first ones of any run that is answered alike until then. -/
theorem made_eq_take {cs : List Command} {e : ε} (hfail : ((replay b cs).runOn s).1 = .error e)
    (halike : b'.replies (b.made cs s).dropLast s' = b.replies (b.made cs s).dropLast s) :
    b.made cs s = (b'.made cs s').take (b.made cs s).length := by
  have hplays := plays_made b cs s
  rw [hfail] at hplays
  obtain ⟨before, call, hmade, hpre, hsome⟩ := hplays.of_error
  rw [hmade, List.dropLast_concat] at halike
  rw [hmade] at hpre ⊢
  have hother : before ++ [call] <+: b'.script cs s' := script_causal hpre halike
  exact List.prefix_iff_eq_take.mp ((plays_made b' cs s').prefix_made hother (halike ▸ hsome))

/-- Playing calls ends with an error if and only if the last one that is made fails with it. -/
theorem Plays.error_iff {calls made : List Call} {result : Except ε Unit} {last : σ} {e : ε}
    (h : b.Plays s calls made result last) :
    result = .error e ↔ ∃ before c, made = before ++ [c] ∧ (b.answer c (b.leave before s)).1 = .error e := by
  induction h with
  | done s => simp
  | @failed s mid c e' rest hfail =>
    constructor
    · rintro ⟨⟩
      exact ⟨[], c, rfl, congrArg Prod.fst hfail⟩
    · rintro ⟨before, c', hmade, herror⟩
      cases before with
      | nil =>
        cases hmade
        rw [leave, List.foldl_nil, hfail] at herror
        cases herror
        rfl
      | cons d before => simp at hmade
  | @answered s mid last c a rest made result hok hrest ih =>
    rw [ih]
    constructor
    · rintro ⟨before, c', rfl, herror⟩
      refine ⟨c :: before, c', rfl, ?_⟩
      rw [leave, List.foldl_cons, hok]
      exact herror
    · rintro ⟨before, c', hmade, herror⟩
      cases before with
      | nil =>
        -- the first call is answered
        obtain ⟨rfl, rfl⟩ := List.cons_eq_cons.mp hmade
        rw [leave, List.foldl_nil, hok] at herror
        cases herror
      | cons d before =>
        obtain ⟨rfl, rfl⟩ := List.cons_eq_cons.mp hmade
        rw [leave, List.foldl_cons, hok] at herror
        exact ⟨before, c', rfl, herror⟩

/-- Replaying commands ends with the error of the last call that is made. -/
theorem replay_error_iff (b : Backend σ ε) (cs : List Command) (s : σ) {e : ε} :
    ((replay b cs).runOn s).1 = .error e ↔
      ∃ before c, b.made cs s = before ++ [c] ∧ (b.answer c (b.leave before s)).1 = .error e :=
  (plays_made b cs s).error_iff

/-- More commands are played if those before them succeed. -/
theorem runOn_replay_append (cs ds : List Command) :
    (replay b (cs ++ ds)).runOn s =
      match (replay b cs).runOn s with
      | (.ok _, mid) => (replay b ds).runOn mid
      | (.error e, mid) => (.error e, mid) := by
  induction cs generalizing s with
  | nil => rfl
  | cons c rest ih =>
    rw [List.cons_append, replay, replay, runOn_bind, runOn_bind]
    rcases runOn s (c.replay b) with ⟨e | a, mid⟩
    · rfl
    · exact ih

/-- **Replaying commands plays their script**, on every backend: the calls of one command after the
other are made, up to and with the first that fails, and replaying ends with the error of that call in
the state it leaves. So commands are played after others if these succeed, and a backend that fails is
asked what any other is asked first that answers alike until then. -/
theorem replay_plays_script (b : Backend σ ε) :
    (∀ cs s log, ∃ made result last, b.Plays s (b.script cs s) made result last ∧
      (replay b cs).runOn s = (result, last) ∧
      (replay b.listed cs).runOn (s, log) = (result, last, log ++ made)) ∧
    (∀ cs ds s, (replay b (cs ++ ds)).runOn s =
      match (replay b cs).runOn s with
      | (.ok _, mid) => (replay b ds).runOn mid
      | (.error e, mid) => (.error e, mid)) ∧
    (∀ cs s e, ((replay b cs).runOn s).1 = .error e →
      ∀ (σ' ε' : Type) (b' : Backend σ' ε') (s' : σ'),
        b'.replies (b.made cs s).dropLast s' = b.replies (b.made cs s).dropLast s →
        b.made cs s = (b'.made cs s').take (b.made cs s).length) :=
  ⟨replay_plays b, fun cs ds _ => runOn_replay_append cs ds,
    fun _ _ _ hfail _ _ _ _ halike => made_eq_take hfail halike⟩

/-- A recorder that fails its fourth call, the merge, is asked what one is asked first that fails none. -/
theorem merge_cut_short :
    ((replay ({ failAt := some 4 } : Recorder).backend
        [.commit ⟨"one", "a", "b"⟩, .merge "x" ⟨"two", "a", "b"⟩]).runOn {}).1 = .error "merge" ∧
      ({ failAt := some 4 } : Recorder).backend.made
          [.commit ⟨"one", "a", "b"⟩, .merge "x" ⟨"two", "a", "b"⟩] {} =
        (({} : Recorder).backend.made
          [.commit ⟨"one", "a", "b"⟩, .merge "x" ⟨"two", "a", "b"⟩] {}).take 4 :=
  ⟨rfl, (replay_plays_script ({ failAt := some 4 } : Recorder).backend).2.2
    [.commit ⟨"one", "a", "b"⟩, .merge "x" ⟨"two", "a", "b"⟩] {} "merge" rfl
    Recording String ({} : Recorder).backend {} rfl⟩

end Backend

end Chronicle
