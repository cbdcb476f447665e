/-!
# MessengerClient.Lib.Runs

A system that moves by actions, its runs in which every action meets a condition, and
the induction over them.
-/

namespace MessengerClient

/-- Where runs start, and what an action may lead to. -/
structure System (State Action : Type) where
  init : State → Prop
  step : State → Action → State → Prop

namespace System

variable {State Action : Type} (sys : System State Action)

/-- The states of the runs in which every action meets `ok` where it is taken. -/
inductive Reached (ok : State → Action → Prop) : State → Prop where
  | init {s : State} : sys.init s → Reached ok s
  | step {s s' : State} {a : Action} : Reached ok s → ok s a → sys.step s a s' → Reached ok s'

/-- The same steps from one state on. -/
def startingAt (s : State) : System State Action := { sys with init := (· = s) }

/-- The states of all runs. -/
def Reachable : State → Prop := sys.Reached fun _ _ => True

variable {sys} {ok : State → Action → Prop} {Inv : State → Prop} {s : State}

/-- **What holds at the start and is kept by every step holds in every state.** -/
theorem Reached.invariant (h : sys.Reached ok s) (hinit : ∀ s, sys.init s → Inv s)
    (hstep : ∀ s a s', Inv s → ok s a → sys.step s a s' → Inv s') : Inv s := by
  induction h with
  | init h => exact hinit _ h
  | step _ hok hs ih => exact hstep _ _ _ ih hok hs

theorem Reachable.invariant (h : sys.Reachable s) (hinit : ∀ s, sys.init s → Inv s)
    (hstep : ∀ s a s', Inv s → sys.step s a s' → Inv s') : Inv s :=
  Reached.invariant h hinit fun s a s' hs _ => hstep s a s' hs

/-- What holds in one state and is kept by every step holds in every state after it. -/
theorem Reached.after (Inv : State → Prop) {s₀ : State} (h : (sys.startingAt s₀).Reached ok s)
    (hinit : Inv s₀)
    (hstep : ∀ s a s', Inv s → ok s a → sys.step s a s' → Inv s') : Inv s :=
  Reached.invariant h (fun _ hs => hs ▸ hinit) hstep

theorem Reached.reachable (h : sys.Reached ok s) : sys.Reachable s := by
  induction h with
  | init h => exact Reached.init h
  | step _ _ hs ih => exact Reached.step ih trivial hs

/-- Where given actions lead, of a system whose steps a function takes. -/
theorem Reachable.foldlM {next : State → Action → Option State} {actions : List Action}
    {s' : State} (h : sys.Reachable s)
    (hnext : ∀ s a s', next s a = some s' → sys.step s a s')
    (hrun : actions.foldlM next s = some s') : sys.Reachable s' := by
  induction actions generalizing s with
  | nil =>
      cases hrun
      exact h
  | cons a actions ih =>
      rw [List.foldlM_cons] at hrun
      obtain ⟨middle, hmiddle, hrun⟩ := Option.bind_eq_some_iff.mp hrun
      exact ih (h.step trivial (hnext _ _ _ hmiddle)) hrun

end System

end MessengerClient
