import MessengerClient.Lib.Spaced
import MessengerClient.Lib.Rank
import MessengerClient.Lib.Runs
import MessengerClient.MsgId
import Mathlib.Data.Finset.Lattice.Basic

/-!
# MessengerClient.SparseIdsList

The ids of a kind of messages as far as they are known, of
`storage/storage_sparse_ids_list.cpp`: slices of ids, each with the range in which it
leaves none out, and the count of all the ids, known or not.

A set of ids is a `Finset`, the set of slices the list of them in the order of `from`.
-/

namespace MessengerClient

/-- `ServerMaxMsgId`. -/
def serverMaxMsgId : MsgId := 2 ^ 56

structure MsgRange where
  from_ : MsgId := 0
  till : MsgId := 0
deriving DecidableEq, Repr

/-- The range of all the ids. -/
def MsgRange.full : MsgRange := ⟨0, serverMaxMsgId⟩

namespace SparseIdsList

structure Slice where
  messages : Finset MsgId
  range : MsgRange
deriving DecidableEq

/-- `SparseIdsSliceUpdate`. -/
structure SliceUpdate where
  messages : Option (Finset MsgId) := none
  range : MsgRange := {}
  count : Option Int := none
deriving DecidableEq

/-- `SparseIdsListQuery`, its limits not being negative. -/
structure Query where
  aroundId : MsgId
  limitBefore : Nat
  limitAfter : Nat

/-- `SparseIdsListResult`. -/
structure Result where
  count : Option Int := none
  skippedBefore : Option Int := none
  skippedAfter : Option Int := none
  messageIds : Finset MsgId := ∅
deriving DecidableEq

end SparseIdsList

structure SparseIdsList where
  slices : List SparseIdsList.Slice := []
  count : Option Int := none
deriving DecidableEq

namespace SparseIdsList

/-! ## Adding -/

/-- What `Slice::merge` makes of two slices. -/
def Slice.join (slice more : Slice) : Slice where
  messages := slice.messages ∪ more.messages
  range := ⟨min slice.range.from_ more.range.from_, max slice.range.till more.range.till⟩

/-- `Slice::merge`, unless an expectation of it fails. -/
def Slice.merge (slice more : Slice) : Option Slice :=
  if more.range.from_ ≤ slice.range.till ∧ slice.range.from_ ≤ more.range.till then
    some (slice.join more)
  else
    none

/-- The slices, the one that was changed and the number of its new ids. -/
def uniteAndAdd (slices : List Slice) (uniteFrom uniteTill : Nat) (more : Slice) :
    Option (List Slice × Slice × Int) := do
  let first ← slices[uniteFrom]?
  let merged ← first.merge more
  let slice ← ((slices.take uniteTill).drop (uniteFrom + 1)).foldlM Slice.merge merged
  return (slices.take uniteFrom ++ slice :: slices.drop uniteTill, slice,
    slice.messages.card - first.messages.card)

/-- `_slices.emplace`: the slices and the one that stands at this `from`. -/
def emplace (slices : List Slice) (slice : Slice) : List Slice × Slice :=
  let i := lowerBound (·.range.from_) slice.range.from_ slices
  match slices[i]? with
  | none => (slices.take i ++ slice :: slices.drop i, slice)
  | some old =>
      if slice.range.from_ < old.range.from_ then
        (slices.take i ++ slice :: slices.drop i, slice)
      else
        (slices, old)

/-- The slices, the one that was changed, if any, and the number of its new ids. -/
def addRangeItemsAndCountNew (slices : List Slice) (messages : List MsgId)
    (noSkipRange : MsgRange) : Option (List Slice × Option Slice × Int) :=
  if noSkipRange.till < noSkipRange.from_ then
    none
  else if noSkipRange.from_ = noSkipRange.till ∧ messages = [] then
    some (slices, none, 0)
  else
    let uniteFrom := lowerBound (·.range.till) noSkipRange.from_ slices
    let uniteTill := upperBound (·.range.from_) noSkipRange.till slices
    if uniteFrom < uniteTill then
      (uniteAndAdd slices uniteFrom uniteTill ⟨messages.toFinset, noSkipRange⟩).map
        fun r => (r.1, some r.2.1, r.2.2)
    else
      let r := emplace slices ⟨messages.toFinset, noSkipRange⟩
      some (r.1, some r.2, r.2.messages.card)

/-- The count that is supplied, or the old one with the new ids added. -/
def newCount (old count : Option Int) (incrementCount : Bool) (added : Int) : Option Int :=
  if count.isSome then count
  else if incrementCount && decide (0 < added) then old.map (· + added)
  else old

/-- The only slice holds as many ids as there are. -/
def completes (count : Option Int) (slice : Slice) : Bool :=
  count.any fun c => decide (c ≤ (slice.messages.card : Int))

/-- The only slice gets the full range when it is complete, and then it is counted. -/
def settle (slices : List Slice) (count : Option Int) : SparseIdsList :=
  match slices with
  | [slice] =>
      let range := if completes count slice then MsgRange.full else slice.range
      { slices := [{ slice with range := range }]
        count := if range = MsgRange.full then some slice.messages.card else count }
  | _ => { slices := slices, count := count }

/-- The count is at least the number of ids in the changed slice. -/
def clampCount (slice : Option Slice) (count : Option Int) : Option Int :=
  match slice with
  | none => count
  | some slice => count.map fun c => max c slice.messages.card

def sliceUpdate (slice : Option Slice) (count : Option Int) : SliceUpdate :=
  match slice with
  | none => { count := count }
  | some slice => { messages := some slice.messages, range := slice.range, count := count }

def addRange (s : SparseIdsList) (messages : List MsgId) (noSkipRange : MsgRange)
    (count : Option Int) (incrementCount : Bool) : Option (SparseIdsList × SliceUpdate) :=
  if count.isSome && incrementCount then
    none
  else do
    let r ← addRangeItemsAndCountNew s.slices messages noSkipRange
    let settled := settle r.1 (newCount s.count count incrementCount r.2.2)
    let clamped := clampCount r.2.1 settled.count
    return ({ settled with count := clamped }, sliceUpdate r.2.1 clamped)

def addNew (s : SparseIdsList) (messageId : MsgId) : Option (SparseIdsList × SliceUpdate) :=
  s.addRange [messageId] ⟨messageId, serverMaxMsgId⟩ none true

def addExisting (s : SparseIdsList) (messageId : MsgId) (noSkipRange : MsgRange) :
    Option (SparseIdsList × SliceUpdate) := s.addRange [messageId] noSkipRange none false

def addSlice (s : SparseIdsList) (messageIds : List MsgId) (noSkipRange : MsgRange)
    (count : Option Int) : Option (SparseIdsList × SliceUpdate) :=
  s.addRange messageIds noSkipRange count false

/-! ## Removing -/

def removeOne (s : SparseIdsList) (messageId : MsgId) : SparseIdsList where
  slices :=
    let i := lowerBound (·.range.till) messageId s.slices
    match s.slices[i]? with
    | none => s.slices
    | some slice =>
        if slice.range.from_ ≤ messageId then
          s.slices.set i { slice with messages := slice.messages.erase messageId }
        else
          s.slices
  count := s.count.map (· - 1)

def removeAll (_ : SparseIdsList) : SparseIdsList where
  slices := [⟨∅, MsgRange.full⟩]
  count := some 0

/-- Where the last slice ends after `invalidateBottom`. -/
def Slice.bottom (slice : Slice) : MsgId :=
  if h : slice.messages.Nonempty then slice.messages.max' h else slice.range.from_

def invalidateBottom (s : SparseIdsList) : SparseIdsList where
  slices :=
    match s.slices.getLast? with
    | none => s.slices
    | some last =>
        if last.range.till = serverMaxMsgId then
          s.slices.dropLast ++ [{ last with range := ⟨last.range.from_, last.bottom⟩ }]
        else
          s.slices
  count := none

/-! ## Looking up -/

/-- What the list tells about one slice. -/
def queryFromSlice (s : SparseIdsList) (query : Query) (slice : Slice) : Result :=
  let haveBefore := rank slice.messages query.aroundId
  let haveEqualOrAfter := slice.messages.card - haveBefore
  let before := min haveBefore query.limitBefore
  let equalOrAfter := min haveEqualOrAfter (query.limitAfter + 1)
  let messageIds := between slice.messages (haveBefore - before) (haveBefore + equalOrAfter)
  let skippedBefore : Option Int :=
    if slice.range.from_ = 0 then some (haveBefore - before) else none
  let skippedAfter : Option Int :=
    if slice.range.till = serverMaxMsgId then some (haveEqualOrAfter - equalOrAfter) else none
  match s.count, skippedBefore, skippedAfter with
  | some count, none, some after =>
      ⟨some count, some (count - after - messageIds.card), some after, messageIds⟩
  | some count, some before, none =>
      ⟨some count, some before, some (count - before - messageIds.card), messageIds⟩
  | count, before, after => ⟨count, before, after, messageIds⟩

def snapshot (s : SparseIdsList) (query : Query) : Result :=
  match if query.aroundId = 0 then none
    else s.slices[lowerBound (·.range.till) query.aroundId s.slices]? with
  | none => { count := s.count }
  | some slice =>
      if slice.range.from_ ≤ query.aroundId then s.queryFromSlice query slice
      else { count := s.count }

/-! ## Operations -/

inductive Operation
  | addNew (messageId : MsgId)
  | addExisting (messageId : MsgId) (noSkipRange : MsgRange)
  | addSlice (messageIds : List MsgId) (noSkipRange : MsgRange) (count : Option Int)
  | removeOne (messageId : MsgId)
  | removeAll
  | invalidateBottom

/-- What is told to those who watch the list. -/
inductive Event
  | sliceUpdated (update : SliceUpdate)
  | oneRemoved (messageId : MsgId)
  | allRemoved
  | bottomInvalidated
deriving DecidableEq

/-- What an operation does, unless an expectation in it fails. -/
def perform (s : SparseIdsList) : Operation → Option (SparseIdsList × Event)
  | .addNew messageId => (s.addNew messageId).map fun r => (r.1, .sliceUpdated r.2)
  | .addExisting messageId noSkipRange =>
      (s.addExisting messageId noSkipRange).map fun r => (r.1, .sliceUpdated r.2)
  | .addSlice messageIds noSkipRange count =>
      (s.addSlice messageIds noSkipRange count).map fun r => (r.1, .sliceUpdated r.2)
  | .removeOne messageId => some (s.removeOne messageId, .oneRemoved messageId)
  | .removeAll => some (s.removeAll, .allRemoved)
  | .invalidateBottom => some (s.invalidateBottom, .bottomInvalidated)

end SparseIdsList

end MessengerClient
