import MessengerClient.Lib.Coroutines

/-!
# MessengerClient.Lib.Interrupted

A coroutine alone, whose operations end as their environment chooses, and which may be
stopped at any of them.

`Keeps` is the judgement that a condition holds at every await, so wherever the coroutine is
stopped, and that a second one holds where it returns.
-/

namespace MessengerClient

namespace Coroutine

variable {Op : Type} {Answer : Op → Type} {Error α β State Choice : Type}
  (perform : (op : Op) → Choice → State → Answer op × State)
  (ok : Op → Choice → State → Prop)

/-! ## Runs -/

/-- From one await to the next. -/
def advance : Coroutine Op Answer Error α × State → Choice →
    Option (Coroutine Op Answer Error α × State)
  | (.await op resume, s), c => some (resume (perform op c s).1, (perform op c s).2)
  | (.done _, _), _ => none
  | (.raise _, _), _ => none

/-- The runs of a coroutine from one state, each of which may end at any await. -/
def alone (t : Coroutine Op Answer Error α) (s : State) :
    System (Coroutine Op Answer Error α × State) Choice where
  init c := c = (t, s)
  step c choice c' := advance perform c choice = some c'

/-- A condition on the choices at the awaits. -/
def Chooses (c : Coroutine Op Answer Error α × State) (choice : Choice) : Prop :=
  ∀ op resume, c.1 = .await op resume → ok op choice c.2

/-! ## The judgement -/

/-- `P` holds at every await, whatever is chosen that a condition allows, and `Q` at the
end. -/
def Keeps (P : State → Prop) (Q : α → State → Prop) :
    Coroutine Op Answer Error α → State → Prop
  | .done a, s => P s ∧ Q a s
  | .raise _, s => P s
  | .await op resume, s =>
      P s ∧ ∀ c, ok op c s → (resume (perform op c s).1).Keeps P Q (perform op c s).2

variable {perform ok} {P : State → Prop} {Q : α → State → Prop} {R : β → State → Prop}
  {t : Coroutine Op Answer Error α} {s : State}

theorem Keeps.now (h : t.Keeps perform ok P Q s) : P s := by
  cases t with
  | done a => exact h.1
  | raise e => exact h
  | await op resume => exact h.1

/-- **What is kept holds wherever the coroutine is stopped.** -/
theorem Keeps.reached {c : Coroutine Op Answer Error α × State} (h : t.Keeps perform ok P Q s)
    (hreached : (alone perform t s).Reached (Chooses ok) c) : P c.2 := by
  have hkeeps : c.1.Keeps perform ok P Q c.2 := by
    induction hreached with
    | init hinit =>
        obtain rfl := hinit
        exact h
    | @step c c' choice _ hok hstep ih =>
        obtain ⟨t, s⟩ := c
        cases t with
        | done a => cases hstep
        | raise e => cases hstep
        | await op resume =>
            obtain rfl := Option.some.inj hstep
            exact ih.2 choice (hok op resume rfl)
  exact hkeeps.now

/-! ## Rules -/

theorem Keeps.done {a : α} (hP : P s) (hQ : Q a s) :
    (done a : Coroutine Op Answer Error α).Keeps perform ok P Q s := ⟨hP, hQ⟩

theorem Keeps.bind {f : α → Coroutine Op Answer Error β} (h : t.Keeps perform ok P Q s)
    (hf : ∀ a s', Q a s' → (f a).Keeps perform ok P R s') :
    (t >>= f).Keeps perform ok P R s := by
  induction t generalizing s with
  | done a => exact hf a s h.2
  | raise e => exact h
  | await op resume ih => exact ⟨h.1, fun c hc => ih _ (h.2 c hc)⟩

theorem Keeps.execute {op : Op} {Q : Answer op → State → Prop} (hnow : P s)
    (hop : ∀ c, ok op c s → P (perform op c s).2 ∧ Q (perform op c s).1 (perform op c s).2) :
    (execute op : Coroutine Op Answer Error _).Keeps perform ok P Q s :=
  ⟨hnow, hop⟩

end Coroutine

end MessengerClient
