import MessengerClient.PtsWaiter

/-!
# MessengerClient.PtsWaiter.Step

What one call of `updateAndApply` does to a waiter, said once: the timer calls
never touch the numbers or the queues, a flush hands over exactly the waiting
payloads, and `updateAndApplyWith_cases` / `updateAndApply_cases` list every
outcome with its guard.  The order, gap and duplicate results below read the
waiter through these lemmas only.
-/

namespace MessengerClient

namespace PtsWaiter

variable {Channel Update Updates : Type}

/-! ## Frames -/

theorem handed_append (xs ys : List (OwnerCall Channel Update Updates)) :
    handed (xs ++ ys) = handed xs ++ handed ys := List.filterMap_append ..

@[simp] theorem handed_timer (channel : Channel) (ms : Int) :
    handed [(.ptsWaiterStartTimerFor channel ms : OwnerCall Channel Update Updates)] = [] := rfl

@[simp] theorem handed_call (p : Payload Update Updates) :
    handed [(p.call : OwnerCall Channel Update Updates)] = [p] := by
  cases p <;> rfl

@[simp] theorem handed_map_call (ps : List (Payload Update Updates)) :
    handed (ps.map fun p => (p.call : OwnerCall Channel Update Updates)) = ps := by
  induction ps with
  | nil => rfl
  | cons p ps ih =>
      rw [List.map_cons, ← List.singleton_append, handed_append, handed_call, ih,
        List.singleton_append]

/-- Setting the flag changes the flag and the timers, nothing else. -/
theorem setWaitingForSkipped_frame (w : PtsWaiter Channel Update Updates) (channel : Channel)
    (ms : Int) : ∃ calls, handed calls = handed w.owner ∧
      w.setWaitingForSkipped channel ms =
        { w with owner := calls, waitingForSkipped := decide (ms ≥ 0) } := by
  by_cases h : ms ≥ 0
  · refine ⟨w.owner ++ [.ptsWaiterStartTimerFor channel ms], ?_, ?_⟩
    · simp [handed_append]
    · simp [setWaitingForSkipped, startTimerFor, h]
  · simp only [setWaitingForSkipped, if_neg h, checkForWaiting]
    split
    · refine ⟨w.owner ++ [.ptsWaiterStartTimerFor channel (-1)], ?_, ?_⟩
      · simp [handed_append]
      · simp [startTimerFor, h]
    · exact ⟨w.owner, rfl, by simp [h]⟩

/-- The short poll flag is a flag of its own. -/
theorem setWaitingForShortPoll_frame (w : PtsWaiter Channel Update Updates) (channel : Channel)
    (ms : Int) : ∃ calls b, handed calls = handed w.owner ∧
      w.setWaitingForShortPoll channel ms =
        { w with owner := calls, waitingForShortPoll := b } := by
  by_cases h : ms ≥ 0
  · refine ⟨w.owner ++ [.ptsWaiterStartTimerFor channel ms], true, ?_, ?_⟩
    · simp [handed_append]
    · simp [setWaitingForShortPoll, startTimerFor, h]
  · simp only [setWaitingForShortPoll, if_neg h, checkForWaiting]
    split
    · refine ⟨w.owner ++ [.ptsWaiterStartTimerFor channel (-1)], false, ?_, ?_⟩
      · simp [handed_append]
      · simp [startTimerFor]
    · exact ⟨w.owner, false, rfl, rfl⟩

/-- Queueing touches the queues and the key counter only. -/
theorem push_frame (w : PtsWaiter Channel Update Updates) (pts : Int)
    (p : Payload Update Updates) :
    w.push pts p =
      { w with
        skippedKey := (w.push pts p).skippedKey
        queue := w.queue.emplace (ptsKeyOf pts ((w.skippedKey + 1) % 2 ^ 32)) p.kind
        updateQueue := (w.push pts p).updateQueue
        updatesQueue := (w.push pts p).updatesQueue } := by
  cases p <;> rfl

theorem push_queue_ne_nil (w : PtsWaiter Channel Update Updates) (pts : Int)
    (p : Payload Update Updates) : (w.push pts p).queue.entries ≠ [] := by
  have hq : (w.push pts p).queue =
      w.queue.emplace (ptsKeyOf pts ((w.skippedKey + 1) % 2 ^ 32)) p.kind := by
    rw [push_frame]
  rw [hq]
  exact FlatMap.emplace_entries_ne_nil _ _ _

/-! ## What one call does -/

/-- The waiter after its two numbers have taken in a call. -/
def counted (w : PtsWaiter Channel Update Updates) (pts count : Int) :
    PtsWaiter Channel Update Updates :=
  { w with last := max w.last pts, count := w.count + count }

/-- The waiter after a call that left no gap. -/
def closed (w : PtsWaiter Channel Update Updates) (pts count : Int) :
    PtsWaiter Channel Update Updates :=
  { w.counted pts count with good := (w.counted pts count).last }

/-- The waiter after a call that left a gap and armed the wait. -/
def armed (w : PtsWaiter Channel Update Updates) (pts count : Int)
    (calls : List (OwnerCall Channel Update Updates)) : PtsWaiter Channel Update Updates :=
  { w.counted pts count with owner := calls, waitingForSkipped := true }

theorem check_eq (w : PtsWaiter Channel Update Updates) (channel : Channel) (pts count : Int) :
    w.check channel pts count =
      if !w.inited then
        (w.init pts, true)
      else if (w.counted pts count).last = (w.counted pts count).count then
        ({ w.counted pts count with good := (w.counted pts count).last }, true)
      else if (w.counted pts count).last < (w.counted pts count).count then
        ((w.counted pts count).setWaitingForSkipped channel 1, count == 0)
      else
        ((w.counted pts count).setWaitingForSkipped channel kWaitForSkippedTimeout,
          count == 0) := rfl

/-- Every outcome of `check`. -/
theorem check_cases (w : PtsWaiter Channel Update Updates) (channel : Channel)
    (pts count : Int) :
    (w.inited = false ∧ w.check channel pts count = (w.init pts, true)) ∨
    (w.inited = true ∧ (w.counted pts count).last = (w.counted pts count).count ∧
      w.check channel pts count = (w.closed pts count, true)) ∨
    (w.inited = true ∧ (w.counted pts count).last ≠ (w.counted pts count).count ∧
      ∃ calls, handed calls = handed w.owner ∧
        w.check channel pts count = (w.armed pts count calls, count == 0)) := by
  rw [check_eq]
  split
  · next h => exact .inl ⟨by simpa using h, rfl⟩
  · next h =>
    have hin : w.inited = true := by simpa using h
    split
    · next heq => exact .inr (.inl ⟨hin, heq, rfl⟩)
    · next hne =>
      refine .inr (.inr ⟨hin, hne, ?_⟩)
      split
      · obtain ⟨calls, hc, hs⟩ := setWaitingForSkipped_frame (w.counted pts count) channel 1
        exact ⟨calls, hc, by rw [hs]; rfl⟩
      · obtain ⟨calls, hc, hs⟩ :=
          setWaitingForSkipped_frame (w.counted pts count) channel kWaitForSkippedTimeout
        exact ⟨calls, hc, by rw [hs]; rfl⟩

/-- The numbers of `w'` are those of `w`, and so is the state of the request. -/
structure SameNumbers (w w' : PtsWaiter Channel Update Updates) : Prop where
  good : w'.good = w.good
  last : w'.last = w.last
  count : w'.count = w.count
  requesting : w'.requesting = w.requesting
  level : w.applySkippedLevel = 0 → w'.applySkippedLevel = 0

theorem sameNumbers_push (w : PtsWaiter Channel Update Updates) (pts : Int)
    (p : Payload Update Updates) : SameNumbers w (w.push pts p) := by
  rw [push_frame]
  exact ⟨rfl, rfl, rfl, rfl, id⟩

section Apply

variable [Inhabited Update] [Inhabited Updates]

/-- A flush of a non-empty queue hands over the waiting payloads in key order and
leaves the three queues empty and the flag off. -/
theorem applySkippedUpdates_flush {w : PtsWaiter Channel Update Updates} (channel : Channel)
    (hw : w.waitingForSkipped = true) (hq : w.queue.entries ≠ []) :
    ∃ calls, handed calls = handed w.owner ++ w.queued ∧
      w.applySkippedUpdates channel =
        { w with
          owner := calls, waitingForSkipped := false, queue := ∅, updateQueue := ∅
          updatesQueue := ∅, applySkippedLevel := 0 } := by
  obtain ⟨calls, hcalls, hset⟩ := setWaitingForSkipped_frame w channel (-1)
  refine ⟨calls ++ w.queued.map Payload.call, ?_, ?_⟩
  · rw [handed_append, handed_map_call, hcalls]
  · simp only [applySkippedUpdates, hw, hset, List.isEmpty_iff, hq]
    rfl

/-- Without waiting entries a flush only drops the flag. -/
theorem applySkippedUpdates_empty {w : PtsWaiter Channel Update Updates} (channel : Channel)
    (hq : w.queue.entries = []) :
    ∃ calls, handed calls = handed w.owner ∧
      w.applySkippedUpdates channel = { w with owner := calls, waitingForSkipped := false } := by
  obtain ⟨calls, hcalls, hset⟩ := setWaitingForSkipped_frame w channel (-1)
  cases hw : w.waitingForSkipped with
  | false =>
      refine ⟨w.owner, rfl, ?_⟩
      rw [applySkippedUpdates, if_pos (by rw [hw]; rfl), ← hw]
  | true => exact ⟨calls, hcalls, by simp [applySkippedUpdates, hw, hset, hq]⟩

/-- The end of `updateAndApplyWith`: what happens to a payload whose turn it is. -/
def handOver (w : PtsWaiter Channel Update Updates) (channel : Channel) (pts : Int)
    (payload : Payload Update Updates) : PtsWaiter Channel Update Updates :=
  if !w.waitingForSkipped || w.queue.entries.isEmpty then
    { w with owner := w.owner ++ [payload.call] }
  else
    (w.push pts payload).applySkippedUpdates channel

/-- A payload is handed over alone, or together with everything that waits. -/
theorem handOver_cases (w : PtsWaiter Channel Update Updates) (channel : Channel) (pts : Int)
    (p : Payload Update Updates) :
    ((w.waitingForSkipped = false ∨ w.queue.entries = []) ∧
      w.handOver channel pts p = { w with owner := w.owner ++ [p.call] }) ∨
    (w.waitingForSkipped = true ∧ w.queue.entries ≠ [] ∧ ∃ calls,
      handed calls = handed w.owner ++ (w.push pts p).queued ∧
      w.handOver channel pts p =
        { w with
          owner := calls, waitingForSkipped := false, queue := ∅, updateQueue := ∅
          updatesQueue := ∅, applySkippedLevel := 0, skippedKey := (w.push pts p).skippedKey }) := by
  unfold handOver
  split
  · next h =>
    rw [Bool.or_eq_true, Bool.not_eq_true', List.isEmpty_iff] at h
    exact .inl ⟨h, rfl⟩
  · next h =>
    simp only [Bool.or_eq_true, Bool.not_eq_true', List.isEmpty_iff, not_or,
      Bool.not_eq_false] at h
    have hw : (w.push pts p).waitingForSkipped = true := by rw [push_frame]; exact h.1
    have ho : (w.push pts p).owner = w.owner := by rw [push_frame]
    obtain ⟨calls, hcalls, happ⟩ :=
      applySkippedUpdates_flush channel hw (push_queue_ne_nil w pts p)
    refine .inr ⟨h.1, h.2, calls, ho ▸ hcalls, ?_⟩
    rw [happ, push_frame]

/-! ## The numbers outside `check` -/

theorem sameNumbers_handOver (w : PtsWaiter Channel Update Updates) (channel : Channel)
    (pts : Int) (p : Payload Update Updates) : SameNumbers w (w.handOver channel pts p) := by
  obtain ⟨-, hover⟩ | ⟨-, -, calls, -, hover⟩ := handOver_cases w channel pts p
  · rw [hover]
    exact ⟨rfl, rfl, rfl, rfl, id⟩
  · rw [hover]
    exact ⟨rfl, rfl, rfl, rfl, fun _ => rfl⟩

theorem sameNumbers_applySkippedUpdates (w : PtsWaiter Channel Update Updates)
    (channel : Channel) : SameNumbers w (w.applySkippedUpdates channel) := by
  by_cases hq : w.queue.entries = []
  · obtain ⟨calls, -, happ⟩ := applySkippedUpdates_empty channel hq
    rw [happ]
    exact ⟨rfl, rfl, rfl, rfl, id⟩
  · cases hw : w.waitingForSkipped with
    | false =>
        have hsame : w.applySkippedUpdates channel = w := by simp [applySkippedUpdates, hw]
        rw [hsame]
        exact ⟨rfl, rfl, rfl, rfl, id⟩
    | true =>
        obtain ⟨calls, -, happ⟩ := applySkippedUpdates_flush channel hw hq
        rw [happ]
        exact ⟨rfl, rfl, rfl, rfl, fun _ => rfl⟩

/-! ## Every outcome of a call -/

theorem updateAndApplyWith_requesting {w : PtsWaiter Channel Update Updates}
    (channel : Channel) (pts count : Int) (p : Payload Update Updates)
    (hr : w.requesting = true) :
    w.updateAndApplyWith channel pts count p = (w.handOver channel pts p, true) := by
  simp [updateAndApplyWith, updatedWith, handOver, hr]
  split <;> rfl

theorem updateAndApply_requesting {w : PtsWaiter Channel Update Updates} (channel : Channel)
    (pts count : Int) (hr : w.requesting = true) :
    w.updateAndApply channel pts count = (w.applySkippedUpdates channel, true) := by
  simp [updateAndApply, updated, hr]

/-- Every outcome of `updateAndApply` with a payload, outside a flush. -/
theorem updateAndApplyWith_cases (w : PtsWaiter Channel Update Updates) (channel : Channel)
    (pts count : Int) (p : Payload Update Updates) (hl : w.applySkippedLevel = 0) :
    (w.requesting = true ∧
      w.updateAndApplyWith channel pts count p = (w.handOver channel pts p, true)) ∨
    (w.requesting = false ∧ pts ≤ w.good ∧ 0 < count ∧
      w.updateAndApplyWith channel pts count p = (w, false)) ∨
    (w.requesting = false ∧ ¬ (pts ≤ w.good ∧ 0 < count) ∧ w.inited = false ∧
      w.updateAndApplyWith channel pts count p = ((w.init pts).handOver channel pts p, true)) ∨
    (w.requesting = false ∧ ¬ (pts ≤ w.good ∧ 0 < count) ∧ w.inited = true ∧
      (w.counted pts count).last = (w.counted pts count).count ∧
      w.updateAndApplyWith channel pts count p =
        ((w.closed pts count).handOver channel pts p, true)) ∨
    (w.requesting = false ∧ ¬ (pts ≤ w.good ∧ 0 < count) ∧ w.inited = true ∧
      (w.counted pts count).last ≠ (w.counted pts count).count ∧
      ∃ calls, handed calls = handed w.owner ∧
        w.updateAndApplyWith channel pts count p =
          if count = 0 then ((w.armed pts count calls).handOver channel pts p, true)
          else ((w.armed pts count calls).push pts p, false)) := by
  cases hr : w.requesting with
  | true => exact .inl ⟨rfl, updateAndApplyWith_requesting channel pts count p hr⟩
  | false =>
      by_cases hd : pts ≤ w.good ∧ 0 < count
      · exact .inr (.inl ⟨rfl, hd.1, hd.2, by simp [updateAndApplyWith, updatedWith, hr, hl, hd]⟩)
      · have hd' : (decide (pts ≤ w.good) && decide (count > 0)) = false := by
          simpa using hd
        have hup : w.updateAndApplyWith channel pts count p =
            if (w.check channel pts count).2 then
              ((w.check channel pts count).1.handOver channel pts p, true)
            else ((w.check channel pts count).1.push pts p, false) := by
          simp only [updateAndApplyWith, updatedWith, hr, hl, hd', handOver]
          cases (w.check channel pts count).2 <;> simp
          split <;> rfl
        refine .inr (.inr ?_)
        obtain ⟨hi, hc⟩ | ⟨hi, heq, hc⟩ | ⟨hi, hne, calls, hcalls, hc⟩ :=
          check_cases w channel pts count
        · exact .inl ⟨rfl, hd, hi, by rw [hup, hc]; rfl⟩
        · exact .inr (.inl ⟨rfl, hd, hi, heq, by rw [hup, hc]; rfl⟩)
        · refine .inr (.inr ⟨rfl, hd, hi, hne, calls, hcalls, ?_⟩)
          rw [hup, hc]
          by_cases h0 : count = 0 <;> simp [h0]

/-- Every outcome of `updateAndApply` without a payload, outside a flush. -/
theorem updateAndApply_cases (w : PtsWaiter Channel Update Updates) (channel : Channel)
    (pts count : Int) (hl : w.applySkippedLevel = 0) :
    (w.requesting = true ∧
      w.updateAndApply channel pts count = (w.applySkippedUpdates channel, true)) ∨
    (w.requesting = false ∧ pts ≤ w.good ∧ 0 < count ∧
      w.updateAndApply channel pts count = (w, false)) ∨
    (w.requesting = false ∧ ¬ (pts ≤ w.good ∧ 0 < count) ∧ w.inited = false ∧
      w.updateAndApply channel pts count = ((w.init pts).applySkippedUpdates channel, true)) ∨
    (w.requesting = false ∧ ¬ (pts ≤ w.good ∧ 0 < count) ∧ w.inited = true ∧
      (w.counted pts count).last = (w.counted pts count).count ∧
      w.updateAndApply channel pts count =
        ((w.closed pts count).applySkippedUpdates channel, true)) ∨
    (w.requesting = false ∧ ¬ (pts ≤ w.good ∧ 0 < count) ∧ w.inited = true ∧
      (w.counted pts count).last ≠ (w.counted pts count).count ∧
      ∃ calls, handed calls = handed w.owner ∧
        w.updateAndApply channel pts count =
          if count = 0 then ((w.armed pts count calls).applySkippedUpdates channel, true)
          else (w.armed pts count calls, false)) := by
  cases hr : w.requesting with
  | true => exact .inl ⟨rfl, updateAndApply_requesting channel pts count hr⟩
  | false =>
      by_cases hd : pts ≤ w.good ∧ 0 < count
      · exact .inr (.inl ⟨rfl, hd.1, hd.2, by simp [updateAndApply, updated, hr, hl, hd]⟩)
      · have hd' : (decide (pts ≤ w.good) && decide (count > 0)) = false := by
          simpa using hd
        have hup : w.updateAndApply channel pts count =
            if (w.check channel pts count).2 then
              ((w.check channel pts count).1.applySkippedUpdates channel, true)
            else ((w.check channel pts count).1, false) := by
          simp only [updateAndApply, updated, hr, hl, hd']
          cases h : (w.check channel pts count).2 <;> simp [h]
        refine .inr (.inr ?_)
        obtain ⟨hi, hc⟩ | ⟨hi, heq, hc⟩ | ⟨hi, hne, calls, hcalls, hc⟩ :=
          check_cases w channel pts count
        · exact .inl ⟨rfl, hd, hi, by rw [hup, hc]; rfl⟩
        · exact .inr (.inl ⟨rfl, hd, hi, heq, by rw [hup, hc]; rfl⟩)
        · refine .inr (.inr ⟨rfl, hd, hi, hne, calls, hcalls, ?_⟩)
          rw [hup, hc]
          by_cases h0 : count = 0 <;> simp [h0]

end Apply

end PtsWaiter

end MessengerClient
