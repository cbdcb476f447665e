import MessengerClient.Lib.Runs

/-!
# MessengerClient.Lib.Coroutines

Coroutines that share a state and take turns at their awaits.

A coroutine goes from one await to the next at once, so what the others do to the shared
state happens only while it waits.  `Every` speaks of all the operations a coroutine can
come to, `run` is a coroutine alone, and `interleaved` is the system in which any number
of them is started and resumed in any order.
-/

namespace MessengerClient

/-- A coroutine that has returned, that has raised, or that waits for an operation. -/
inductive Coroutine (Op : Type) (Answer : Op → Type) (Error Result : Type) where
  | done (result : Result)
  | raise (error : Error)
  | await (op : Op) (resume : Answer op → Coroutine Op Answer Error Result)

namespace Coroutine

variable {Op : Type} {Answer : Op → Type} {Error α β : Type}

def bind : Coroutine Op Answer Error α → (α → Coroutine Op Answer Error β) →
    Coroutine Op Answer Error β
  | .done a, f => f a
  | .raise e, _ => .raise e
  | .await op resume, f => .await op fun answer => (resume answer).bind f

instance : Monad (Coroutine Op Answer Error) where
  pure := done
  bind := bind

/-- Waits for one operation. -/
def execute (op : Op) : Coroutine Op Answer Error (Answer op) := .await op .done

def fromExcept : Except Error α → Coroutine Op Answer Error α
  | .ok a => .done a
  | .error e => .raise e

@[simp] theorem done_bind (a : α) (f : α → Coroutine Op Answer Error β) :
    (done a >>= f) = f a := rfl

@[simp] theorem raise_bind (e : Error) (f : α → Coroutine Op Answer Error β) :
    (raise e >>= f) = raise e := rfl

@[simp] theorem await_bind (op : Op) (resume : Answer op → Coroutine Op Answer Error α)
    (f : α → Coroutine Op Answer Error β) :
    (await op resume >>= f) = await op fun answer => resume answer >>= f := rfl

@[simp] theorem pure_eq (a : α) : (pure a : Coroutine Op Answer Error α) = done a := rfl

/-! ## The operations of a coroutine -/

/-- Every operation it comes to, whatever it is answered, meets a condition. -/
def Every (P : Op → Prop) : Coroutine Op Answer Error α → Prop
  | .done _ => True
  | .raise _ => True
  | .await op resume => P op ∧ ∀ answer, (resume answer).Every P

variable {P : Op → Prop}

@[simp] theorem every_done (a : α) : (done a : Coroutine Op Answer Error α).Every P := trivial

@[simp] theorem every_raise (e : Error) : (raise e : Coroutine Op Answer Error α).Every P :=
  trivial

theorem Every.bind {t : Coroutine Op Answer Error α} {f : α → Coroutine Op Answer Error β}
    (h : t.Every P) (hf : ∀ a, (f a).Every P) : (t >>= f).Every P := by
  induction t with
  | done a => exact hf a
  | raise e => trivial
  | await op resume ih => exact ⟨h.1, fun answer => ih answer (h.2 answer)⟩

/-! ## A coroutine alone -/

variable {State : Type} (perform : (op : Op) → State → Answer op × State)

/-- The coroutine from its first to its last await, with no other in between. -/
def run : Coroutine Op Answer Error α → State → Except Error α × State
  | .done a, s => (.ok a, s)
  | .raise e, s => (.error e, s)
  | .await op resume, s => (resume (perform op s).1).run (perform op s).2

@[simp] theorem run_done (a : α) (s : State) :
    (done a : Coroutine Op Answer Error α).run perform s = (.ok a, s) := rfl

@[simp] theorem run_raise (e : Error) (s : State) :
    (raise e : Coroutine Op Answer Error α).run perform s = (.error e, s) := rfl

@[simp] theorem run_execute (op : Op) (s : State) :
    (execute op : Coroutine Op Answer Error _).run perform s =
      (.ok (perform op s).1, (perform op s).2) := rfl

@[simp] theorem run_fromExcept (r : Except Error α) (s : State) :
    (fromExcept r : Coroutine Op Answer Error α).run perform s = (r, s) := by
  cases r <;> rfl

theorem run_bind (t : Coroutine Op Answer Error α) (f : α → Coroutine Op Answer Error β)
    (s : State) :
    (t >>= f).run perform s =
      match t.run perform s with
      | (.ok a, s') => (f a).run perform s'
      | (.error e, s') => (.error e, s') := by
  induction t generalizing s with
  | done a => rfl
  | raise e => rfl
  | await op resume ih => exact ih _ _

/-- What every operation keeps, the coroutine keeps. -/
theorem run_invariant {perform} (Inv : State → Prop)
    (hperform : ∀ (op : Op) (s : State), Inv s → Inv (perform op s).2)
    (t : Coroutine Op Answer Error α) {s : State} (h : Inv s) : Inv (t.run perform s).2 := by
  induction t generalizing s with
  | done a => exact h
  | raise e => exact h
  | await op resume ih => exact ih _ (hperform op s h)

end Coroutine

/-! ## Taking turns -/

/-- A shared state and the coroutines of the requests that were started. -/
structure Pool (State Request Op : Type) (Answer : Op → Type) (Error Result : Type) where
  shared : State
  tasks : List (Request × Coroutine Op Answer Error Result) := []

/-- A request comes in, or the operation that a task waits for is done. -/
inductive Turn (Request : Type) where
  | start (req : Request)
  | resume (i : Nat)

namespace Pool

variable {State Request Op : Type} {Answer : Op → Type} {Error α : Type}
  (body : Request → Coroutine Op Answer Error α)
  (perform : (op : Op) → State → Answer op × State)

def next (pool : Pool State Request Op Answer Error α) :
    Turn Request → Option (Pool State Request Op Answer Error α)
  | .start req => some { pool with tasks := pool.tasks ++ [(req, body req)] }
  | .resume i =>
      match pool.tasks[i]? with
      | some (req, .await op resume) =>
          some {
            shared := (perform op pool.shared).2
            tasks := pool.tasks.set i (req, resume (perform op pool.shared).1) }
      | _ => none

/-- Any number of requests, interleaved at their awaits in any order. -/
def interleaved (init : State → Prop) :
    System (Pool State Request Op Answer Error α) (Turn Request) where
  init pool := init pool.shared ∧ pool.tasks = []
  step pool turn pool' := pool.next body perform turn = some pool'

/-- A condition on the operation that a turn does, where it is done. -/
def Allows (ok : State → Request → Op → Prop) (pool : Pool State Request Op Answer Error α) :
    Turn Request → Prop
  | .start _ => True
  | .resume i => ∀ req op resume, pool.tasks[i]? = some (req, .await op resume) →
      ok pool.shared req op

variable {body perform} {pool pool' : Pool State Request Op Answer Error α}
  {turn : Turn Request} {init : State → Prop} {ok : State → Request → Op → Prop}

/-- **What a turn does**: it starts a request, or does the operation of one task. -/
theorem next_cases (h : pool.next body perform turn = some pool') :
    (∃ req, turn = .start req ∧
        pool' = { pool with tasks := pool.tasks ++ [(req, body req)] }) ∨
      ∃ i req op resume, turn = .resume i ∧ pool.tasks[i]? = some (req, .await op resume) ∧
        pool' = {
          shared := (perform op pool.shared).2
          tasks := pool.tasks.set i (req, resume (perform op pool.shared).1) } := by
  cases turn with
  | start req => exact .inl ⟨req, rfl, (Option.some.inj h).symm⟩
  | resume i =>
      simp only [next] at h
      split at h
      · next req op resume htask =>
          exact .inr ⟨i, req, op, resume, rfl, htask, (Option.some.inj h).symm⟩
      · cases h

variable {P : Request → Op → Prop}

/-- The operations that tasks come to are those of their requests. -/
def Awaits (P : Request → Op → Prop) (pool : Pool State Request Op Answer Error α) : Prop :=
  ∀ task ∈ pool.tasks, task.2.Every (P task.1)

theorem Awaits.next (hbody : ∀ req, (body req).Every (P req)) (h : pool.Awaits P)
    (hnext : pool.next body perform turn = some pool') : pool'.Awaits P := by
  intro task htask
  rcases next_cases hnext with ⟨req, -, rfl⟩ | ⟨i, req, op, resume, -, hi, rfl⟩
  · cases List.mem_append.mp htask with
    | inl hold => exact h task hold
    | inr hnew =>
        rw [List.mem_singleton.mp hnew]
        exact hbody req
  · cases List.mem_or_eq_of_mem_set htask with
    | inl hold => exact h task hold
    | inr hnew =>
        rw [hnew]
        exact (h _ (List.mem_of_getElem? hi)).2 _

/-- A request that no other interrupts: what it does alone, a run of turns does too. -/
theorem reachable_run (req : Request)
    (h : (interleaved body perform init).Reachable pool) :
    ∃ pool', (interleaved body perform init).Reachable pool' ∧
      pool'.shared = ((body req).run perform pool.shared).2 := by
  have hlast (t : Coroutine Op Answer Error α) (s : State)
      (ht : (interleaved body perform init).Reachable ⟨s, pool.tasks ++ [(req, t)]⟩) :
      ∃ pool', (interleaved body perform init).Reachable pool' ∧
        pool'.shared = (t.run perform s).2 := by
    induction t generalizing s with
    | done a => exact ⟨_, ht, rfl⟩
    | raise e => exact ⟨_, ht, rfl⟩
    | await op resume ih =>
        refine ih _ _ (ht.step (a := .resume pool.tasks.length) trivial ?_)
        simp [interleaved, next]
  exact hlast (body req) pool.shared (h.step (a := .start req) trivial rfl)

/-! ## Runs that are given -/

/-- The pool after some turns. -/
def after (body : Request → Coroutine Op Answer Error α)
    (perform : (op : Op) → State → Answer op × State)
    (pool : Pool State Request Op Answer Error α) (turns : List (Turn Request)) :
    Option (Pool State Request Op Answer Error α) :=
  turns.foldlM (·.next body perform ·) pool

end Pool

end MessengerClient
