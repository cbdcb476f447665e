import MessengerClient.Lib.FlatMap

/-!
# MessengerClient.PtsWaiter

`PtsWaiter` of `data/data_pts_waiter.{h,cpp}`: the gate that lets updates with a
`pts` number through in order.  It compares two running numbers, `last` (the
largest `pts` seen) and `count` (the starting point plus every `pts_count`); while
they differ some update is missing, the others wait in three queues and a timer
of the owner will ask the server for the difference.

The calls the waiter makes on its owner are recorded in the field `owner`, in the
order they are made.  `pts` and `count` are the source's `int32`; the model adds
them exactly, since overflowing them is undefined in the source.
-/

namespace MessengerClient

/-- Which of the two payload queues an entry of `queue` points into. -/
inductive PtsSkippedQueue where
  | SkippedUpdate
  | SkippedUpdates
deriving DecidableEq, Repr

/-- What the waiter asks of `Api::Updates`. -/
inductive OwnerCall (Channel Update Updates : Type) where
  | applyUpdateNoPtsCheck (update : Update)
  | applyUpdatesNoPtsCheck (updates : Updates)
  | ptsWaiterStartTimerFor (channel : Channel) (ms : Int)
deriving DecidableEq, Repr

/-- The payload of the two payload overloads of `updateAndApply`. -/
inductive Payload (Update Updates : Type) where
  | update (update : Update)
  | updates (updates : Updates)
deriving DecidableEq, Repr

structure PtsWaiter (Channel Update Updates : Type) where
  owner : List (OwnerCall Channel Update Updates) := []
  queue : FlatMap Nat PtsSkippedQueue := ∅
  updateQueue : FlatMap Nat Update := ∅
  updatesQueue : FlatMap Nat Updates := ∅
  good : Int := 0
  last : Int := 0
  count : Int := 0
  applySkippedLevel : Int := 0
  requesting : Bool := false
  waitingForSkipped : Bool := false
  waitingForShortPoll : Bool := false
  skippedKey : Nat := 0

variable {Channel Update Updates : Type}

/-- The payloads among the calls on the owner. -/
def handed (calls : List (OwnerCall Channel Update Updates)) : List (Payload Update Updates) :=
  calls.filterMap fun
    | .applyUpdateNoPtsCheck u => some (.update u)
    | .applyUpdatesNoPtsCheck us => some (.updates us)
    | .ptsWaiterStartTimerFor _ _ => none

/-- The owner's handler for a payload. -/
def Payload.call : Payload Update Updates → OwnerCall Channel Update Updates
  | .update u => .applyUpdateNoPtsCheck u
  | .updates us => .applyUpdatesNoPtsCheck us

/-- The queue a payload waits in. -/
def Payload.kind : Payload Update Updates → PtsSkippedQueue
  | .update _ => .SkippedUpdate
  | .updates _ => .SkippedUpdates

namespace PtsWaiter

/-- 1s wait for skipped seq or pts in updates. -/
def kWaitForSkippedTimeout : Int := 1000

/-! ## The small operations -/

def clearSkippedUpdates (w : PtsWaiter Channel Update Updates) :
    PtsWaiter Channel Update Updates :=
  { w with queue := ∅, updateQueue := ∅, updatesQueue := ∅, applySkippedLevel := 0 }

def init (w : PtsWaiter Channel Update Updates) (pts : Int) : PtsWaiter Channel Update Updates :=
  clearSkippedUpdates { w with good := pts, last := pts, count := pts }

def inited (w : PtsWaiter Channel Update Updates) : Bool := 0 < w.good

def current (w : PtsWaiter Channel Update Updates) : Int := w.good

def setRequesting (w : PtsWaiter Channel Update Updates) (isRequesting : Bool) :
    PtsWaiter Channel Update Updates :=
  let w := { w with requesting := isRequesting }
  if w.requesting then w.clearSkippedUpdates else w

def startTimerFor (w : PtsWaiter Channel Update Updates) (channel : Channel) (ms : Int) :
    PtsWaiter Channel Update Updates :=
  { w with owner := w.owner ++ [.ptsWaiterStartTimerFor channel ms] }

def checkForWaiting (w : PtsWaiter Channel Update Updates) (channel : Channel) :
    PtsWaiter Channel Update Updates :=
  if !w.waitingForSkipped && !w.waitingForShortPoll then w.startTimerFor channel (-1) else w

def setWaitingForSkipped (w : PtsWaiter Channel Update Updates) (channel : Channel) (ms : Int) :
    PtsWaiter Channel Update Updates :=
  if ms ≥ 0 then
    { w.startTimerFor channel ms with waitingForSkipped := true }
  else
    { w with waitingForSkipped := false }.checkForWaiting channel

def setWaitingForShortPoll (w : PtsWaiter Channel Update Updates) (channel : Channel)
    (ms : Int) : PtsWaiter Channel Update Updates :=
  if ms ≥ 0 then
    { w.startTimerFor channel ms with waitingForShortPoll := true }
  else
    { w with waitingForShortPoll := false }.checkForWaiting channel

/-! ## The queues -/

/-- `uint64(uint32(pts)) << 32 | skippedKey`. -/
def ptsKeyOf (pts : Int) (skippedKey : Nat) : Nat :=
  (pts % 2 ^ 32).toNat <<< 32 ||| skippedKey

/-- Take the next key for `pts`, as a `uint32` counter, and put it into `queue`. -/
def ptsKey (w : PtsWaiter Channel Update Updates) (queue : PtsSkippedQueue) (pts : Int) :
    PtsWaiter Channel Update Updates × Nat :=
  let skippedKey := (w.skippedKey + 1) % 2 ^ 32
  let key := ptsKeyOf pts skippedKey
  ({ w with skippedKey := skippedKey, queue := w.queue.emplace key queue }, key)

/-- Queue a payload for later: `_updateQueue.emplace(ptsKey(SkippedUpdate, pts), update)`
and the same for `_updatesQueue`. -/
def push (w : PtsWaiter Channel Update Updates) (pts : Int) :
    Payload Update Updates → PtsWaiter Channel Update Updates
  | .update u =>
      let (w, key) := w.ptsKey .SkippedUpdate pts
      { w with updateQueue := w.updateQueue.emplace key u }
  | .updates us =>
      let (w, key) := w.ptsKey .SkippedUpdates pts
      { w with updatesQueue := w.updatesQueue.emplace key us }

section Apply

variable [Inhabited Update] [Inhabited Updates]

/-- The payload an entry of `queue` points to; `operator[]` of the source makes a
default one where none is stored. -/
def fetch (w : PtsWaiter Channel Update Updates) :
    Nat × PtsSkippedQueue → Payload Update Updates
  | (key, .SkippedUpdate) => .update ((w.updateQueue.find? key).getD default)
  | (key, .SkippedUpdates) => .updates ((w.updatesQueue.find? key).getD default)

/-- The waiting payloads, in key order. -/
def queued (w : PtsWaiter Channel Update Updates) : List (Payload Update Updates) :=
  w.queue.entries.map w.fetch

/-- The loop of `applySkippedUpdates` over the queue.  A handler that calls back
finds `applySkippedLevel` raised and changes nothing, so the calls are all made. -/
def applyQueue (w : PtsWaiter Channel Update Updates) : PtsWaiter Channel Update Updates :=
  { w with owner := w.owner ++ w.queued.map Payload.call }

def applySkippedUpdates (w : PtsWaiter Channel Update Updates) (channel : Channel) :
    PtsWaiter Channel Update Updates :=
  if !w.waitingForSkipped then
    w
  else
    let w := w.setWaitingForSkipped channel (-1)
    if w.queue.entries.isEmpty then
      w
    else
      let w := { w with applySkippedLevel := w.applySkippedLevel + 1 }
      let w := w.applyQueue
      let w := { w with applySkippedLevel := w.applySkippedLevel - 1 }
      w.clearSkippedUpdates

/-! ## The gate -/

/-- Return false if need to save that update and apply later. -/
def check (w : PtsWaiter Channel Update Updates) (channel : Channel) (pts count : Int) :
    PtsWaiter Channel Update Updates × Bool :=
  if !w.inited then
    (w.init pts, true)
  else
    let w := { w with last := max w.last pts, count := w.count + count }
    if w.last = w.count then
      ({ w with good := w.last }, true)
    else if w.last < w.count then
      (w.setWaitingForSkipped channel 1, count == 0)
    else
      (w.setWaitingForSkipped channel kWaitForSkippedTimeout, count == 0)

/-- `updated` without a payload. -/
def updated (w : PtsWaiter Channel Update Updates) (channel : Channel) (pts count : Int) :
    PtsWaiter Channel Update Updates × Bool :=
  if w.requesting || w.applySkippedLevel ≠ 0 then
    (w, true)
  else if pts ≤ w.good && count > 0 then
    (w, false)
  else
    w.check channel pts count

/-- The body that the two `updated` overloads with a payload share. -/
def updatedWith (w : PtsWaiter Channel Update Updates) (channel : Channel) (pts count : Int)
    (payload : Payload Update Updates) : PtsWaiter Channel Update Updates × Bool :=
  if w.requesting || w.applySkippedLevel ≠ 0 then
    (w, true)
  else if pts ≤ w.good && count > 0 then
    (w, false)
  else
    let (w, ok) := w.check channel pts count
    if ok then (w, true) else (w.push pts payload, false)

/-- `updateAndApply` without a payload. -/
def updateAndApply (w : PtsWaiter Channel Update Updates) (channel : Channel)
    (pts count : Int) : PtsWaiter Channel Update Updates × Bool :=
  let (w, ok) := w.updated channel pts count
  if !ok then (w, false) else (w.applySkippedUpdates channel, true)

/-- The body that the two `updateAndApply` overloads with a payload share. -/
def updateAndApplyWith (w : PtsWaiter Channel Update Updates) (channel : Channel)
    (pts count : Int) (payload : Payload Update Updates) :
    PtsWaiter Channel Update Updates × Bool :=
  let (w, ok) := w.updatedWith channel pts count payload
  if !ok then
    (w, false)
  else if !w.waitingForSkipped || w.queue.entries.isEmpty then
    -- Optimization - no need to put in queue and back.
    ({ w with owner := w.owner ++ [payload.call] }, true)
  else
    ((w.push pts payload).applySkippedUpdates channel, true)

def updateAndApplyUpdate (w : PtsWaiter Channel Update Updates) (channel : Channel)
    (pts count : Int) (update : Update) : PtsWaiter Channel Update Updates × Bool :=
  w.updateAndApplyWith channel pts count (.update update)

def updateAndApplyUpdates (w : PtsWaiter Channel Update Updates) (channel : Channel)
    (pts count : Int) (updates : Updates) : PtsWaiter Channel Update Updates × Bool :=
  w.updateAndApplyWith channel pts count (.updates updates)

end Apply

end PtsWaiter

end MessengerClient
