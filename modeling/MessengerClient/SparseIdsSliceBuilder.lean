import MessengerClient.SparseIdsList

/-!
# MessengerClient.SparseIdsSliceBuilder

The window that a viewer keeps over a list of ids, of `data/data_sparse_ids.cpp`: the ids
around a key, as many as the limits allow, with the count of all the ids and of the ones
that are skipped before and after, as far as these are known.  It starts with a lookup in
the list and follows what the list tells.
-/

namespace MessengerClient

open SparseIdsList (SliceUpdate Result Event)

structure SparseIdsSliceBuilder where
  key : MsgId
  limitBefore : Nat
  limitAfter : Nat
  ids : Finset MsgId := ∅
  fullCount : Option Int := none
  skippedBefore : Option Int := none
  skippedAfter : Option Int := none
deriving DecidableEq

namespace SparseIdsSliceBuilder

/-- `Data::LoadDirection`. -/
inductive LoadDirection
  | around
  | before
  | after
deriving DecidableEq, Repr

/-- What the builder asks to be loaded. -/
structure AroundData where
  aroundId : MsgId
  direction : LoadDirection
deriving DecidableEq, Repr

/-- The first and the last id. -/
def front (ids : Finset MsgId) : MsgId := if h : ids.Nonempty then ids.min' h else 0
def back (ids : Finset MsgId) : MsgId := if h : ids.Nonempty then ids.max' h else 0

/-! ## Slicing to the limits -/

/-- `requestMessages`. -/
def requestMessages (b : SparseIdsSliceBuilder) (direction : LoadDirection) : AroundData :=
  if b.ids = ∅ then ⟨b.key, .around⟩
  else if direction = .before then ⟨front b.ids, .before⟩
  else ⟨back b.ids, .after⟩

/-- `requestMessagesCount`. -/
def requestMessagesCount : AroundData := ⟨0, .around⟩

/-- How many ids there are before the key above the limit, and after it. -/
def removeFromBegin (b : SparseIdsSliceBuilder) : Int := rank b.ids b.key - b.limitBefore
def removeFromEnd (b : SparseIdsSliceBuilder) : Int :=
  b.ids.card - rank b.ids b.key - b.limitAfter - 1

/-- There may be more ids on a side. -/
def mayHave (skipped : Option Int) : Bool := skipped.all (0 < ·)

def sliceBegin (b : SparseIdsSliceBuilder) (n : Int) : SparseIdsSliceBuilder × List AroundData :=
  if 0 < n then
    ({ b with
        ids := dropFront b.ids n.toNat
        skippedBefore := b.skippedBefore.map (· + n) }, [])
  else if n < 0 ∧ mayHave b.skippedBefore then
    (b, [b.requestMessages .before])
  else
    (b, [])

def sliceEnd (b : SparseIdsSliceBuilder) (n : Int) : SparseIdsSliceBuilder × List AroundData :=
  if 0 < n then
    ({ b with
        ids := dropBack b.ids n.toNat
        skippedAfter := b.skippedAfter.map (· + n) }, [])
  else if n < 0 ∧ mayHave b.skippedAfter then
    (b, [b.requestMessages .after])
  else
    (b, [])

/-- The sliced window, and what is asked for. -/
def sliceToLimits (b : SparseIdsSliceBuilder) : SparseIdsSliceBuilder × List AroundData :=
  if b.key = 0 then
    (b, if b.fullCount.isNone then [requestMessagesCount] else [])
  else
    let begin_ := b.sliceBegin b.removeFromBegin
    let end_ := begin_.1.sliceEnd b.removeFromEnd
    let requested := begin_.2 ++ end_.2
    (end_.1, requested ++
      if b.fullCount.isNone && requested.isEmpty then [requestMessagesCount] else [])

def checkInsufficient (b : SparseIdsSliceBuilder) : SparseIdsSliceBuilder × List AroundData :=
  b.sliceToLimits

/-! ## Merging -/

/-- One of the skipped numbers follows from the other and the count. -/
def fillSkipped (b : SparseIdsSliceBuilder) : SparseIdsSliceBuilder :=
  match b.fullCount, b.skippedBefore, b.skippedAfter with
  | some count, some before, none => { b with skippedAfter := some (count - before - b.ids.card) }
  | some count, none, some after => { b with skippedBefore := some (count - after - b.ids.card) }
  | _, _, _ => b

def fillSkippedAndSliceToLimits (b : SparseIdsSliceBuilder) :
    SparseIdsSliceBuilder × List AroundData := b.fillSkipped.sliceToLimits

/-- A count that comes without ids. -/
def setCount (b : SparseIdsSliceBuilder) (count : Option Int) : SparseIdsSliceBuilder :=
  match count with
  | none => b
  | some c =>
      if b.fullCount = some c then b
      else if c ≤ b.ids.card then
        { b with fullCount := some b.ids.card, skippedBefore := some 0, skippedAfter := some 0 }
      else { b with fullCount := some c }

/-- What is skipped before the first of `ids`, from what is skipped before an old one. -/
def adjustSkippedBefore (ids : Finset MsgId) (oldId : MsgId) (oldSkippedBefore : Int) : Int :=
  max (oldSkippedBefore - rank ids oldId) 0

def adjustSkippedAfter (ids : Finset MsgId) (oldId : MsgId) (oldSkippedAfter : Int) : Int :=
  max (oldSkippedAfter - (ids.card - rank ids oldId - 1)) 0

/-- Ids that come with what is skipped before and after them. -/
def mergeIds (b : SparseIdsSliceBuilder) (count : Option Int) (messageIds : Finset MsgId)
    (skippedBefore skippedAfter : Option Int) : SparseIdsSliceBuilder :=
  let wasMinId := if b.ids = ∅ then -1 else front b.ids
  let wasMaxId := if b.ids = ∅ then -1 else back b.ids
  let ids := b.ids ∪ messageIds
  { b with
    fullCount := count.or b.fullCount
    ids := ids
    skippedBefore :=
      match skippedBefore with
      | some skipped => some (adjustSkippedBefore ids (front messageIds) skipped)
      | none =>
          if 0 ≤ wasMinId then b.skippedBefore.map (adjustSkippedBefore ids wasMinId) else none
    skippedAfter :=
      match skippedAfter with
      | some skipped => some (adjustSkippedAfter ids (back messageIds) skipped)
      | none =>
          if 0 ≤ wasMaxId then b.skippedAfter.map (adjustSkippedAfter ids wasMaxId) else none }

def mergeSliceData (b : SparseIdsSliceBuilder) (count : Option Int) (messageIds : Finset MsgId)
    (skippedBefore skippedAfter : Option Int) : SparseIdsSliceBuilder × List AroundData :=
  if messageIds = ∅ then
    (b.setCount count).fillSkippedAndSliceToLimits
  else
    (b.mergeIds count messageIds skippedBefore skippedAfter).fillSkippedAndSliceToLimits

/-! ## Events -/

def applyInitial (b : SparseIdsSliceBuilder) (result : Result) :
    SparseIdsSliceBuilder × List AroundData :=
  b.mergeSliceData result.count result.messageIds result.skippedBefore result.skippedAfter

/-- The range of an update meets the window. -/
def intersects (b : SparseIdsSliceBuilder) (range : MsgRange) : Bool :=
  decide (range.from_ ≤ if b.ids = ∅ then b.key else back b.ids) &&
    decide ((if b.ids = ∅ then b.key else front b.ids) ≤ range.till)

/-- The ids of an update that are merged into the window, if they are. -/
def needMergeMessages (b : SparseIdsSliceBuilder) (update : SliceUpdate) :
    Option (Finset MsgId) := if b.intersects update.range then update.messages else none

/-- The new window, and whether it may have changed. -/
def applyUpdate (b : SparseIdsSliceBuilder) (update : SliceUpdate) :
    (SparseIdsSliceBuilder × List AroundData) × Bool :=
  if (b.needMergeMessages update).isNone && update.count.isNone then
    ((b, []), false)
  else
    (b.mergeSliceData update.count ((b.needMergeMessages update).getD ∅)
      (if update.range.from_ = 0 then some 0 else none)
      (if update.range.till = serverMaxMsgId then some 0 else none), true)

/-- A skipped number with one less, if there is one. -/
def decrement (n : Option Int) : Option Int := n.map fun n => if 0 < n then n - 1 else n

/-- An id that is not in the window is one of those before it or after it. -/
def removeSkipped (b : SparseIdsSliceBuilder) (messageId : MsgId) : SparseIdsSliceBuilder :=
  if b.ids = ∅ then b
  else if messageId < front b.ids ∧ b.skippedBefore.any (0 < ·) then
    { b with skippedBefore := decrement b.skippedBefore }
  else if back b.ids < messageId ∧ b.skippedAfter.any (0 < ·) then
    { b with skippedAfter := decrement b.skippedAfter }
  else b

def removeOne (b : SparseIdsSliceBuilder) (messageId : MsgId) :
    (SparseIdsSliceBuilder × List AroundData) × Bool :=
  let counted := { b with fullCount := decrement b.fullCount }
  let removed := if messageId ∈ b.ids then { counted with ids := b.ids.erase messageId }
    else counted.removeSkipped messageId
  if removed = b then ((b, []), false) else (removed.checkInsufficient, true)

def removeAll (b : SparseIdsSliceBuilder) : SparseIdsSliceBuilder :=
  { b with ids := ∅, fullCount := some 0, skippedBefore := some 0, skippedAfter := some 0 }

def invalidateBottom (b : SparseIdsSliceBuilder) : SparseIdsSliceBuilder × List AroundData :=
  { b with fullCount := none, skippedAfter := none }.checkInsufficient

/-- What the viewer does with what the list tells. -/
def handle (b : SparseIdsSliceBuilder) : Event → SparseIdsSliceBuilder × List AroundData
  | .sliceUpdated update => (b.applyUpdate update).1
  | .oneRemoved messageId => (b.removeOne messageId).1
  | .allRemoved => (b.removeAll, [])
  | .bottomInvalidated => b.invalidateBottom

/-- The lookup that a viewer starts with, when it tells anything. -/
def start (list : SparseIdsList) (key : MsgId) (limitBefore limitAfter : Nat) :
    SparseIdsSliceBuilder × List AroundData :=
  let b : SparseIdsSliceBuilder :=
    { key := key, limitBefore := limitBefore, limitAfter := limitAfter }
  let result := list.snapshot ⟨key, limitBefore, limitAfter⟩
  if result.messageIds = ∅ ∧ result.count.isNone then
    b.checkInsufficient
  else
    let initial := b.applyInitial result
    let checked := initial.1.checkInsufficient
    (checked.1, initial.2 ++ checked.2)

end SparseIdsSliceBuilder

end MessengerClient
