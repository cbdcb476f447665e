import MessengerClient.Lib.Descending
import MessengerClient.Lib.Moves
import MessengerClient.Lib.Runs
import Mathlib

/-!
# MessengerClient.DownloadManagerMtproto.Queue

`DownloadManagerMtproto::Queue`, the tasks that wait for requests to one data center, of
`storage/download_manager_mtproto.cpp`.

The place of a task is looked for while its old priority still stands, and the task is rotated to
it from either side.  Whichever way it goes, it comes behind those with a greater priority and
before all others (`enqueue_placed`).
-/

namespace MessengerClient

namespace Storage

namespace DownloadManagerMtproto

variable {Task : Type}

structure Enqueued (Task : Type) where
  task : Task
  priority : Int := 0
deriving DecidableEq, Repr

namespace Queue

variable (tasks : List (Enqueued Task))

def enqueue [DecidableEq Task] (task : Task) (priority : Int) : List (Enqueued Task) :=
  let position := tasks.findIdx (·.priority ≤ priority)
  let i := tasks.findIdx (·.task = task)
  let tasks := if i < tasks.length then tasks.modify i fun e => { e with priority := priority }
    else tasks ++ [⟨task, priority⟩]
  if position < i then rotateAt tasks position i (i + 1)
  else if position > i + 1 then rotateAt tasks i (i + 1) position
  else tasks

def remove [DecidableEq Task] (task : Task) : List (Enqueued Task) := tasks.filter (·.task ≠ task)

/-- The loop of `resetGeneration`; `none` is a failed `Assert`. -/
def resetFrom : List (Enqueued Task) → Option (List (Enqueued Task))
  | [] => some []
  | task :: rest =>
    if task.priority ≠ 0 then
      if task.priority = -1 then some (task :: rest) else none
    else
      (resetFrom rest).map ({ task with priority := -1 } :: ·)

def resetGeneration : Option (List (Enqueued Task)) :=
  let from_ := tasks.findIdx (·.priority = 0)
  (resetFrom (tasks.drop from_)).map (tasks.take from_ ++ ·)

/-- `readyToRequest` is asked of each task. -/
def nextTask (readyToRequest : Task → Bool) (onlyHighestPriority : Bool) : Option Task :=
  tasks.head?.bind fun front =>
    let till := if onlyHighestPriority && front.priority > 0 then
        tasks.takeWhile (·.priority = front.priority)
      else tasks
    (till.find? (readyToRequest ·.task)).map (·.task)

variable {tasks} {task : Task} {priority : Int} {one : Enqueued Task}
  {before after : List (Enqueued Task)}

/-! ## Order -/

/-- The tasks wait once each, in the order of their priorities. -/
structure Ordered (tasks : List (Enqueued Task)) : Prop where
  nodup : (tasks.map Enqueued.task).Nodup
  descending : Descending Enqueued.priority tasks
  bound : ∀ e ∈ tasks, -1 ≤ e.priority

/-- The tasks with a greater priority, and the others. -/
theorem exists_split (hsorted : Descending Enqueued.priority tasks) (task : Task) (priority : Int) :
    ∃ front back, tasks = front ++ back ∧ (∀ e ∈ front, priority < e.priority) ∧
      (∀ e ∈ back, e.priority ≤ priority) ∧
      tasks.findIdx (·.priority ≤ priority) = front.length := by
  refine ⟨tasks.takeWhile (priority < ·.priority), tasks.dropWhile (priority < ·.priority),
    List.takeWhile_append_dropWhile.symm, fun e he => ?_, fun e he => ?_,
    findIdx_not_greater tasks priority⟩
  · simpa using List.mem_takeWhile_imp he
  · exact @Descending.le_of_mem_dropWhile _ _ _ _ ⟨task, priority⟩ _ hsorted _ he

/-- Of tasks that wait once, one stands between others. -/
theorem exists_waiting (hnodup : (tasks.map Enqueued.task).Nodup)
    (hmem : task ∈ tasks.map Enqueued.task) :
    ∃ before one after, tasks = before ++ one :: after ∧ one.task = task ∧
      (∀ e ∈ before, e.task ≠ task) ∧ ∀ e ∈ after, e.task ≠ task := by
  obtain ⟨one, hone, rfl⟩ := List.mem_map.mp hmem
  obtain ⟨before, after, rfl⟩ := List.append_of_mem hone
  rw [List.map_append, List.map_cons] at hnodup
  obtain ⟨-, hafter, hbefore⟩ := List.nodup_append.mp hnodup
  refine ⟨before, one, after, rfl, rfl, fun e he => ?_, fun e he heq => ?_⟩
  · exact hbefore _ (List.mem_map_of_mem he) _ List.mem_cons_self
  · exact (List.nodup_cons.mp hafter).1 (heq ▸ List.mem_map_of_mem he)

/-! ## A new generation -/

/-- What becomes of a task in `resetGeneration`. -/
def lowered (e : Enqueued Task) : Enqueued Task :=
  if e.priority = 0 then { e with priority := -1 } else e

theorem map_lowered_task : (tasks.map lowered).map Enqueued.task = tasks.map Enqueued.task := by
  rw [List.map_map]
  refine List.map_congr_left fun e _ => ?_
  simp only [Function.comp_apply, lowered]
  split <;> rfl

theorem lowered_of_ne {e : Enqueued Task} (h : e.priority ≠ 0) : lowered e = e := if_neg h

theorem map_lowered_of_ne (h : ∀ e ∈ tasks, e.priority ≠ 0) : tasks.map lowered = tasks := by
  rw [List.map_congr_left fun e he => lowered_of_ne (h e he), List.map_id'']
  exact fun _ => rfl

theorem lowered_mono {e f : Enqueued Task} (_ : -1 ≤ e.priority)
    (hle : e.priority ≤ f.priority) : (lowered e).priority ≤ (lowered f).priority := by
  grind [lowered]

/-- From the first zero on, each is zero or, after the zeros, minus one. -/
theorem resetFrom_eq (hsorted : Descending Enqueued.priority tasks)
    (hbound : ∀ e ∈ tasks, -1 ≤ e.priority) (hnone : ∀ e ∈ tasks, e.priority ≤ 0) :
    resetFrom tasks = some (tasks.map lowered) := by
  induction tasks with
  | nil => rfl
  | cons e rest ih =>
    obtain ⟨he, hrest⟩ := List.pairwise_cons.mp hsorted
    obtain ⟨hbe, hbrest⟩ := List.forall_mem_cons.mp hbound
    obtain ⟨hne, hnrest⟩ := List.forall_mem_cons.mp hnone
    rw [resetFrom, List.map_cons]
    by_cases hzero : e.priority = 0
    · rw [if_neg (not_not.mpr hzero), ih hrest hbrest hnrest, lowered, if_pos hzero]
      rfl
    · -- the loop stops, and none is zero after it
      have hlast : e.priority = -1 := by omega
      have hsame : rest.map lowered = rest := map_lowered_of_ne fun f hf => by
        have := he f hf
        omega
      rw [if_pos hzero, if_pos hlast, lowered_of_ne hzero, hsame]

/-- **A new generation** lowers every zero, and its `Assert` does not fail. -/
theorem resetGeneration_eq (hsorted : Descending Enqueued.priority tasks)
    (hbound : ∀ e ∈ tasks, -1 ≤ e.priority) :
    resetGeneration tasks = some (tasks.map lowered) := by
  by_cases hzero : ∃ e ∈ tasks, decide (e.priority = 0) = true
  · obtain ⟨before, one, after, rfl, hbefore, hone⟩ := exists_first hzero
    have hone := of_decide_eq_true hone
    have hbefore := fun e he => of_decide_eq_false (hbefore e he)
    obtain ⟨-, hsortedAfter, -⟩ := descending_append.mp hsorted
    have hnone : ∀ e ∈ one :: after, e.priority ≤ 0 := List.forall_mem_cons.mpr
      ⟨hone.le, fun e he => ((List.pairwise_cons.mp hsortedAfter).1 e he).trans hone.le⟩
    rw [resetGeneration, findIdx_append_cons (fun e he => decide_eq_false (hbefore e he))
      (decide_eq_true hone), List.drop_left, List.take_left,
      resetFrom_eq hsortedAfter (fun e he => hbound e (List.mem_append_right _ he)) hnone,
      List.map_append, map_lowered_of_ne hbefore]
    rfl
  · have hnone : ∀ e ∈ tasks, e.priority ≠ 0 :=
      fun e he heq => hzero ⟨e, he, decide_eq_true heq⟩
    rw [resetGeneration, findIdx_of_none fun e he => decide_eq_false (hnone e he),
      List.drop_length, List.take_length, map_lowered_of_ne hnone]
    simp [resetFrom]

theorem Ordered.lowered (h : Ordered tasks) : Ordered (tasks.map lowered) where
  nodup := by
    rw [map_lowered_task]
    exact h.nodup
  descending := List.pairwise_map.mpr <|
    List.Pairwise.imp_of_mem (fun _ hf hle => lowered_mono (h.bound _ hf) hle) h.descending
  bound := by
    refine List.forall_mem_map.mpr fun e he => ?_
    have := h.bound e he
    rw [Queue.lowered]
    split
    · exact le_rfl
    · exact this

/-! ## The next task -/

/-- **The task that is taken** is ready, and no ready one has a greater priority. -/
theorem nextTask_highest {readyToRequest : Task → Bool} {onlyHighestPriority : Bool}
    (hsorted : Descending Enqueued.priority tasks)
    (h : nextTask tasks readyToRequest onlyHighestPriority = some task) :
    readyToRequest task = true ∧ ∃ one ∈ tasks, one.task = task ∧
      ∀ e ∈ tasks, readyToRequest e.task = true → e.priority ≤ one.priority := by
  obtain ⟨front, -, h⟩ := Option.bind_eq_some_iff.mp h
  obtain ⟨one, hfind, rfl⟩ := Option.map_eq_some_iff.mp h
  have htill : (if onlyHighestPriority && front.priority > 0 then
      tasks.takeWhile (·.priority = front.priority) else tasks) <+: tasks := by
    split
    · exact List.takeWhile_prefix _
    · exact List.prefix_rfl
  obtain ⟨hready, before, after, hsplit, hbefore⟩ := List.find?_eq_some_iff_append.mp hfind
  obtain ⟨rest, rfl⟩ := hsplit ▸ htill
  refine ⟨hready, one, by simp, rfl, fun e he hreadye => ?_⟩
  rw [List.append_assoc] at he hsorted
  obtain he | he := List.mem_append.mp he
  · have := hbefore e he
    simp [hreadye] at this
  · obtain ⟨-, hsorted, -⟩ := descending_append.mp hsorted
    obtain rfl | he := List.mem_cons.mp he
    · exact le_rfl
    · exact (List.pairwise_cons.mp hsorted).1 e he

variable [DecidableEq Task]

/-! ## Enqueueing -/

/-- Those without the task. -/
theorem remove_append (hbefore : ∀ e ∈ before, e.task ≠ task) (hafter : ∀ e ∈ after, e.task ≠ task)
    (hone : one.task = task) : remove (before ++ one :: after) task = before ++ after := by
  rw [remove, List.filter_append, List.filter_cons_of_neg (by simpa using hone),
    List.filter_eq_self.mpr fun e he => decide_eq_true (hbefore e he),
    List.filter_eq_self.mpr fun e he => decide_eq_true (hafter e he)]

/-- What is said of the result: the task stands behind those with a greater priority, and before
the others. -/
def Placed (tasks tasks' : List (Enqueued Task)) (task : Task) (priority : Int) : Prop :=
  ∃ front back, tasks' = front ++ ⟨task, priority⟩ :: back ∧
    front ++ back = remove tasks task ∧
    (∀ e ∈ front, priority < e.priority) ∧ ∀ e ∈ back, e.priority ≤ priority

/-- A new task comes from the end. -/
theorem enqueue_new (hsorted : Descending Enqueued.priority tasks)
    (hnew : ∀ e ∈ tasks, e.task ≠ task) :
    Placed tasks (enqueue tasks task priority) task priority := by
  obtain ⟨front, back, rfl, hfront, hback, hposition⟩ := exists_split hsorted task priority
  have hi : (front ++ back).findIdx (·.task = task) = (front ++ back).length :=
    findIdx_of_none fun e he => decide_eq_false (hnew e he)
  refine ⟨front, back, ?_, ?_, hfront, hback⟩
  · rw [enqueue, hposition, hi, if_neg (lt_irrefl _), List.length_append, List.append_assoc]
    cases back with
    | nil =>
      rw [List.length_nil, Nat.add_zero, if_neg (lt_irrefl _), if_neg (by omega)]
      rfl
    | cons e back =>
      rw [if_pos (by rw [List.length_cons]; omega), rotateAt_back, List.append_nil]
  · exact (List.filter_eq_self.mpr fun e he => decide_eq_true (hnew e he)).symm

/-- A task that waits already comes from its place. -/
theorem enqueue_old (hsorted : Descending Enqueued.priority (before ++ one :: after))
    (hone : one.task = task) (hbefore : ∀ e ∈ before, e.task ≠ task)
    (hafter : ∀ e ∈ after, e.task ≠ task) :
    Placed (before ++ one :: after) (enqueue (before ++ one :: after) task priority)
      task priority := by
  have hi : (before ++ one :: after).findIdx (·.task = task) = before.length :=
    findIdx_append_cons (fun e he => decide_eq_false (hbefore e he)) (decide_eq_true hone)
  have hinside : before.length < (before ++ one :: after).length := by simp
  have hmodify : (before ++ one :: after).modify before.length
      (fun e => { e with priority := priority }) = before ++ ⟨task, priority⟩ :: after := by
    rw [List.modify_eq_take_cons_drop hinside, List.take_left, ← List.drop_drop, List.drop_left,
      List.drop_one, List.tail_cons, ← hone]
    simp
  obtain ⟨hsortedBefore, hsortedAfter, hcross⟩ := descending_append.mp hsorted
  obtain ⟨hleAfter, hsortedAfter⟩ := List.pairwise_cons.mp hsortedAfter
  rw [Placed, remove_append hbefore hafter hone, enqueue, hi, if_pos hinside, hmodify]
  by_cases hup : one.priority ≤ priority
  · -- the task goes back, before those that are not greater
    obtain ⟨front, back, rfl, hfront, hback, -⟩ := exists_split hsortedBefore task priority
    have hposition : (front ++ back ++ one :: after).findIdx (·.priority ≤ priority) =
        front.length := by
      rw [List.append_assoc]
      refine findIdx_split (fun e he => decide_eq_false (not_le.mpr (hfront e he))) fun e he => ?_
      obtain he | he := List.mem_append.mp he
      · exact decide_eq_true (hback e he)
      · obtain rfl | he := List.mem_cons.mp he
        · exact decide_eq_true hup
        · exact decide_eq_true ((hleAfter e he).trans hup)
    refine ⟨front, back ++ after, ?_, (List.append_assoc ..).symm, hfront, fun e he => ?_⟩
    · rw [hposition, List.length_append, List.append_assoc]
      cases back with
      | nil =>
        rw [List.length_nil, Nat.add_zero, if_neg (lt_irrefl _), if_neg (by omega)]
        rfl
      | cons e back => rw [if_pos (by rw [List.length_cons]; omega), rotateAt_back]
    · obtain he | he := List.mem_append.mp he
      · exact hback e he
      · exact (hleAfter e he).trans hup
  · -- the task goes on, behind those that are greater
    have hdown := not_le.mp hup
    obtain ⟨front, back, rfl, hfront, hback, -⟩ := exists_split hsortedAfter task priority
    have hgreater : ∀ e ∈ before ++ one :: front, priority < e.priority := by
      intro e he
      obtain he | he := List.mem_append.mp he
      · exact hdown.trans_le (hcross e he one List.mem_cons_self)
      · obtain rfl | he := List.mem_cons.mp he
        · exact hdown
        · exact hfront e he
    have hposition : (before ++ one :: (front ++ back)).findIdx (·.priority ≤ priority) =
        before.length + 1 + front.length := by
      rw [← List.cons_append, ← List.append_assoc,
        findIdx_split (fun e he => decide_eq_false (not_le.mpr (hgreater e he)))
          fun e he => decide_eq_true (hback e he), List.length_append, List.length_cons]
      omega
    refine ⟨before ++ front, back, ?_, List.append_assoc .., fun e he => ?_, hback⟩
    · rw [hposition, if_neg (by omega), List.append_assoc]
      cases front with
      | nil =>
        rw [List.length_nil, if_neg (by omega)]
        rfl
      | cons e front => rw [if_pos (by rw [List.length_cons]; omega), rotateAt_forth]
    · obtain he | he := List.mem_append.mp he
      · exact hgreater e (List.mem_append_left _ he)
      · exact hfront e he

theorem enqueue_placed (hsorted : Descending Enqueued.priority tasks)
    (hnodup : (tasks.map Enqueued.task).Nodup) (task : Task) (priority : Int) :
    Placed tasks (enqueue tasks task priority) task priority := by
  by_cases hmem : task ∈ tasks.map Enqueued.task
  · obtain ⟨before, one, after, rfl, hone, hbefore, hafter⟩ := exists_waiting hnodup hmem
    exact enqueue_old hsorted hone hbefore hafter
  · exact enqueue_new hsorted fun e he heq => hmem (heq ▸ List.mem_map_of_mem he)

theorem mem_map_remove {other : Task} :
    other ∈ (remove tasks task).map Enqueued.task ↔
      other ≠ task ∧ other ∈ tasks.map Enqueued.task := by
  simp only [remove, List.mem_map, List.mem_filter, decide_eq_true_eq]
  constructor
  · rintro ⟨e, ⟨he, hne⟩, rfl⟩
    exact ⟨hne, e, he, rfl⟩
  · rintro ⟨hne, e, he, rfl⟩
    exact ⟨e, ⟨he, hne⟩, rfl⟩

theorem Ordered.remove (h : Ordered tasks) (task : Task) : Ordered (remove tasks task) where
  nodup := h.nodup.sublist (List.filter_sublist.map _)
  descending := h.descending.sublist List.filter_sublist
  bound e he := h.bound e (List.mem_of_mem_filter he)

/-- A task in its place is one more of those in order. -/
theorem Placed.ordered {tasks' : List (Enqueued Task)} (h : Placed tasks tasks' task priority)
    (hordered : Ordered tasks) (hpriority : -1 ≤ priority) : Ordered tasks' := by
  obtain ⟨front, back, rfl, hothers, hfront, hback⟩ := h
  have hrest := hordered.remove task
  have hnew : task ∉ (front ++ back).map Enqueued.task := by
    rw [hothers, mem_map_remove]
    exact fun hmem => hmem.1 rfl
  rw [← hothers] at hrest
  refine ⟨?_, ?_, fun e he => ?_⟩
  · have hperm : (front ++ ⟨task, priority⟩ :: back).map Enqueued.task |>.Perm
        (task :: (front ++ back).map Enqueued.task) := List.perm_middle.map Enqueued.task
    exact hperm.nodup_iff.mpr (List.nodup_cons.mpr ⟨hnew, hrest.nodup⟩)
  · exact hrest.descending.insert (fun e he => (hfront e he).le) hback
  · obtain rfl | he := List.mem_cons.mp (List.perm_middle.mem_iff.mp he)
    · exact hpriority
    · exact hrest.bound e he

theorem Placed.mem_map {tasks' : List (Enqueued Task)} (h : Placed tasks tasks' task priority)
    {other : Task} :
    other ∈ tasks'.map Enqueued.task ↔ other = task ∨ other ∈ tasks.map Enqueued.task := by
  obtain ⟨front, back, rfl, hothers, -⟩ := h
  rw [(List.perm_middle.map Enqueued.task).mem_iff, List.map_cons, List.mem_cons, hothers,
    mem_map_remove]
  grind

/-! ## Runs -/

inductive Action (Task : Type) where
  | enqueue (task : Task) (priority : Int)
  | remove (task : Task)
  | resetGeneration

/-- Tasks are enqueued with priorities that are not negative. -/
def Action.Allowed : Action Task → Prop
  | .enqueue _ priority => 0 ≤ priority
  | _ => True

/-- The queue, and the tasks that were enqueued and not removed since. -/
structure State (Task : Type) where
  tasks : List (Enqueued Task)
  queued : Finset Task

def act (s : State Task) : Action Task → Option (State Task)
  | .enqueue task priority => some ⟨enqueue s.tasks task priority, insert task s.queued⟩
  | .remove task => some ⟨remove s.tasks task, s.queued.erase task⟩
  | .resetGeneration => (resetGeneration s.tasks).map fun tasks => ⟨tasks, s.queued⟩

variable (Task) in
def queues : System (State Task) (Action Task) where
  init s := s = ⟨[], ∅⟩
  step s a s' := act s a = some s'

/-- The tasks of a queue in order are those that wait. -/
structure Waiting (s : State Task) : Prop where
  ordered : Ordered s.tasks
  mem_iff (task : Task) : task ∈ s.tasks.map Enqueued.task ↔ task ∈ s.queued

variable {s : State Task} {a : Action Task}

theorem Waiting.act (h : Waiting s) (ha : a.Allowed) : ∃ s', act s a = some s' ∧ Waiting s' := by
  obtain ⟨hordered, hmem⟩ := h
  cases a with
  | enqueue task priority =>
    have hplaced := enqueue_placed hordered.descending hordered.nodup task priority
    have hpriority : (-1 : Int) ≤ priority := le_trans (by decide) (show 0 ≤ priority from ha)
    refine ⟨_, rfl, hplaced.ordered hordered hpriority, fun other => ?_⟩
    rw [hplaced.mem_map, hmem, Finset.mem_insert]
  | remove task =>
    refine ⟨_, rfl, hordered.remove task, fun other => ?_⟩
    rw [mem_map_remove, hmem, Finset.mem_erase]
  | resetGeneration =>
    refine ⟨⟨s.tasks.map lowered, s.queued⟩, ?_, hordered.lowered, fun other => ?_⟩
    · rw [Queue.act, resetGeneration_eq hordered.descending hordered.bound]
      rfl
    · rw [map_lowered_task, hmem]

theorem waiting_of_reached (h : (queues Task).Reached (fun _ a => a.Allowed) s) : Waiting s := by
  refine h.invariant (fun s hs => ?_) fun s a s' hs ha hstep => ?_
  · subst hs
    exact ⟨⟨List.nodup_nil, List.Pairwise.nil, by simp⟩, by simp⟩
  · obtain ⟨s'', hact, hdone⟩ := hs.act ha
    exact Option.some.inj (hact.symm.trans hstep) ▸ hdone

/-- **The queue stays ordered.**  Every task that waits is in it once, its priorities do not
increase, a task that is enqueued becomes the first of its priority while all others stay as they
were, and no `Assert` fails. -/
theorem queue_ordered (h : (queues Task).Reached (fun _ a => a.Allowed) s) :
    (s.tasks.map Enqueued.task).Nodup ∧
      (∀ task, task ∈ s.tasks.map Enqueued.task ↔ task ∈ s.queued) ∧
      Descending Enqueued.priority s.tasks ∧
      (∀ task priority, 0 ≤ priority →
        Placed s.tasks (enqueue s.tasks task priority) task priority) ∧
      (∀ task, (remove s.tasks task).map Enqueued.task =
        (s.tasks.map Enqueued.task).filter (· ≠ task)) ∧
      ∃ tasks', resetGeneration s.tasks = some tasks' ∧
        tasks'.map Enqueued.task = s.tasks.map Enqueued.task := by
  obtain ⟨hordered, hmem⟩ := waiting_of_reached h
  refine ⟨hordered.nodup, hmem, hordered.descending, fun task priority _ => ?_, fun task => ?_, ?_⟩
  · exact enqueue_placed hordered.descending hordered.nodup task priority
  · rw [List.filter_map]
    rfl
  · exact ⟨_, resetGeneration_eq hordered.descending hordered.bound, map_lowered_task⟩

/-- A task of zero priority goes back behind another one. -/
theorem queue_ordered_two :
    ∃ s : State Nat, s.tasks = [⟨2, 0⟩, ⟨1, 0⟩] ∧
      Placed s.tasks (enqueue s.tasks 1 5) 1 5 ∧
      ∃ tasks', resetGeneration s.tasks = some tasks' ∧ tasks'.map Enqueued.task = [2, 1] := by
  have hreached : (queues Nat).Reached (fun _ a => a.Allowed) ⟨[⟨2, 0⟩, ⟨1, 0⟩], {2, 1}⟩ :=
    .step (a := .enqueue 2 0) (.step (a := .enqueue 1 0) (.init rfl) le_rfl rfl) le_rfl rfl
  obtain ⟨-, -, -, henqueue, -, hreset⟩ := queue_ordered hreached
  exact ⟨_, rfl, henqueue 1 5 (by decide), hreset⟩

end Queue

end DownloadManagerMtproto

end Storage

end MessengerClient
