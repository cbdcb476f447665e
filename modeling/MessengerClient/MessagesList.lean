import MessengerClient.Lib.Spaced
import MessengerClient.MsgId
import MessengerClient.PeerId
import Mathlib.Data.Finset.Card
import Mathlib.Data.Finset.Max
import Mathlib.Data.Prod.Lex

/-!
# MessengerClient.MessagesList

`Data::MessagesList`: the positions of the messages of a chat as far as they are known, in slices
that leave none out in their ranges, and the count of them all.

It is built like `SparseIdsList`, but a slice is never stretched when the count is reached.  A set
of positions is a `Finset`, the set of slices the list of them in the order of `from`.
-/

namespace MessengerClient

namespace Data

/-! ## Positions -/

@[ext]
structure FullMsgId where
  peer : MessengerClient.PeerId := {}
  msg : MsgId := 0
deriving DecidableEq, Repr

@[ext]
structure MessagePosition where
  fullId : FullMsgId := {}
  date : Int := 0
deriving Repr

namespace MessagePosition

/-- What `operator<` compares: the date, then the peer, then the message. -/
def key (position : MessagePosition) : Int ×ₗ Nat ×ₗ Int :=
  toLex (position.date, toLex (position.fullId.peer.value.toNat, position.fullId.msg))

theorem key_injective : Function.Injective key := by
  intro p q h
  obtain ⟨hdate, hrest⟩ := Prod.mk.inj (toLex.injective h)
  obtain ⟨hpeer, hmsg⟩ := Prod.mk.inj (toLex.injective hrest)
  have hfullId := MessengerClient.PeerId.ext (UInt64.toNat_inj.mp hpeer)
  exact MessagePosition.ext (FullMsgId.ext hfullId hmsg) hdate

instance : LinearOrder MessagePosition := LinearOrder.lift' key key_injective

end MessagePosition

def minMessagePosition : MessagePosition := { fullId := { msg := 1 }, date := 0 }

/-- Before `ServerMaxMsgId`, on the last date. -/
def maxMessagePosition : MessagePosition :=
  { fullId := { msg := 2 ^ 56 - 1 }, date := 2 ^ 31 - 1 }

structure MessagesRange where
  from_ : MessagePosition := {}
  till : MessagePosition := {}
deriving DecidableEq

def fullMessagesRange : MessagesRange :=
  { from_ := minMessagePosition, till := maxMessagePosition }

namespace MessagesList

structure Slice where
  messages : Finset MessagePosition
  range : MessagesRange
deriving DecidableEq

end MessagesList

structure MessagesSliceUpdate where
  messages : Option (Finset MessagePosition) := none
  range : MessagesRange := {}
  count : Option Int := none
deriving DecidableEq

structure MessagesList where
  count : Option Int := none
  slices : List MessagesList.Slice := []
deriving DecidableEq

namespace MessagesList

/-! ## Adding -/

/-- What `Slice::merge` makes of two slices. -/
def Slice.join (slice more : Slice) : Slice where
  messages := slice.messages ∪ more.messages
  range := ⟨min slice.range.from_ more.range.from_, max slice.range.till more.range.till⟩

/-- `Slice::merge`, unless an expectation of it fails. -/
def Slice.merge (slice more : Slice) : Option Slice :=
  if more.range.from_ ≤ slice.range.till ∧ slice.range.from_ ≤ more.range.till then
    some (slice.join more)
  else
    none

/-- The slices, the one that was changed and the number of its new positions. -/
def uniteAndAdd (slices : List Slice) (uniteFrom uniteTill : Nat) (more : Slice) :
    Option (List Slice × Slice × Int) := do
  let first ← slices[uniteFrom]?
  let merged ← first.merge more
  let slice ← ((slices.take uniteTill).drop (uniteFrom + 1)).foldlM Slice.merge merged
  return (slices.take uniteFrom ++ slice :: slices.drop uniteTill, slice,
    slice.messages.card - first.messages.card)

/-- `_slices.emplace`: the slices and the one that stands at this `from`. -/
def emplace (slices : List Slice) (slice : Slice) : List Slice × Slice :=
  let i := lowerBound (·.range.from_) slice.range.from_ slices
  match slices[i]? with
  | none => (slices.take i ++ slice :: slices.drop i, slice)
  | some old =>
      if slice.range.from_ < old.range.from_ then
        (slices.take i ++ slice :: slices.drop i, slice)
      else
        (slices, old)

/-- The slices, the one that was changed and the number of its new positions. -/
def addRangeItemsAndCountNew (slices : List Slice) (messages : List MessagePosition)
    (noSkipRange : MessagesRange) : Option (List Slice × Slice × Int) :=
  if noSkipRange.from_ ≤ noSkipRange.till then
    let uniteFrom := lowerBound (·.range.till) noSkipRange.from_ slices
    let uniteTill := upperBound (·.range.from_) noSkipRange.till slices
    if uniteFrom < uniteTill then
      uniteAndAdd slices uniteFrom uniteTill ⟨messages.toFinset, noSkipRange⟩
    else
      let r := emplace slices ⟨messages.toFinset, noSkipRange⟩
      some (r.1, r.2, r.2.messages.card)
  else
    none

/-- The count that is supplied, or the old one with the new positions added. -/
def newCount (old count : Option Int) (incrementCount : Bool) (added : Int) : Option Int :=
  if count.isSome then count
  else if incrementCount && decide (0 < added) then old.map (· + added)
  else old

/-- The only slice is counted when its range is the full one. -/
def fullCount (slices : List Slice) (count : Option Int) : Option Int :=
  match slices with
  | [slice] => if slice.range = fullMessagesRange then some slice.messages.card else count
  | _ => count

def addRange (s : MessagesList) (messages : List MessagePosition) (noSkipRange : MessagesRange)
    (count : Option Int) (incrementCount : Bool) : Option (MessagesList × MessagesSliceUpdate) :=
  if count.isSome && incrementCount then
    none
  else do
    let (slices, slice, added) ← addRangeItemsAndCountNew s.slices messages noSkipRange
    let count := fullCount slices (newCount s.count count incrementCount added)
    return ({ count, slices }, { messages := some slice.messages, range := slice.range, count })

def addOne (s : MessagesList) (messageId : MessagePosition) :
    Option (MessagesList × MessagesSliceUpdate) :=
  s.addRange [messageId] ⟨messageId, messageId⟩ none true

def addNew (s : MessagesList) (messageId : MessagePosition) :
    Option (MessagesList × MessagesSliceUpdate) :=
  s.addRange [messageId] ⟨messageId, maxMessagePosition⟩ none true

def addSlice (s : MessagesList) (messageIds : List MessagePosition) (noSkipRange : MessagesRange)
    (count : Option Int) : Option (MessagesList × MessagesSliceUpdate) :=
  s.addRange messageIds noSkipRange count false

/-! ## Removing -/

/-- The list, and the update where a slice has the position in its range. -/
def removeOne (s : MessagesList) (messageId : MessagePosition) :
    MessagesList × Option MessagesSliceUpdate :=
  let i := lowerBound (·.range.till) messageId s.slices
  let count := s.count.map (· - 1)
  match s.slices[i]? with
  | none => ({ s with count }, none)
  | some slice =>
      if slice.range.from_ ≤ messageId then
        let slice := { slice with messages := slice.messages.erase messageId }
        ({ count, slices := s.slices.set i slice },
          some { messages := some slice.messages, range := slice.range, count })
      else
        ({ s with count }, none)

/-- The loop of `removeLessThan`: the slices that are left and how many positions were removed. -/
def removeLoop (messageId : MessagePosition) : List Slice → Int → List Slice × Int
  | [], removed => ([], removed)
  | slice :: rest, removed =>
      if slice.range.till ≤ messageId then
        removeLoop messageId rest (removed + slice.messages.card)
      else if slice.range.from_ ≤ messageId then
        ({ messages := slice.messages.filter (messageId ≤ ·)
           range := { slice.range with from_ := minMessagePosition } } :: rest,
          removed + (slice.messages.filter (· < messageId)).card)
      else
        (slice :: rest, removed)

def removeLessThan (s : MessagesList) (messageId : MessagePosition) : MessagesList :=
  let (slices, removed) := removeLoop messageId s.slices 0
  { slices, count := if removed ≠ 0 then s.count.map (· - removed) else s.count }

def invalidate (_ : MessagesList) : MessagesList := {}

/-- Where the last slice ends after `invalidateBottom`. -/
def Slice.bottom (slice : Slice) : MessagePosition :=
  if h : slice.messages.Nonempty then slice.messages.max' h else slice.range.from_

def invalidateBottom (s : MessagesList) : MessagesList where
  slices :=
    match s.slices.getLast? with
    | none => s.slices
    | some last =>
        if last.range.till = maxMessagePosition then
          s.slices.dropLast ++ [{ last with range := ⟨last.range.from_, last.bottom⟩ }]
        else
          s.slices
  count := none

/-! ## Operations -/

inductive Operation
  | addOne (messageId : MessagePosition)
  | addNew (messageId : MessagePosition)
  | addSlice (messageIds : List MessagePosition) (noSkipRange : MessagesRange)
      (count : Option Int)
  | removeOne (messageId : MessagePosition)
  | removeLessThan (messageId : MessagePosition)
  | invalidate
  | invalidateBottom

/-- What an operation does, unless an expectation in it fails, and what `_sliceUpdated` fires. -/
def perform (s : MessagesList) : Operation → Option (MessagesList × Option MessagesSliceUpdate)
  | .addOne messageId => (s.addOne messageId).map fun r => (r.1, some r.2)
  | .addNew messageId => (s.addNew messageId).map fun r => (r.1, some r.2)
  | .addSlice messageIds noSkipRange count =>
      (s.addSlice messageIds noSkipRange count).map fun r => (r.1, some r.2)
  | .removeOne messageId => some (s.removeOne messageId)
  | .removeLessThan messageId => some (s.removeLessThan messageId, none)
  | .invalidate => some (s.invalidate, none)
  | .invalidateBottom => some (s.invalidateBottom, none)

end MessagesList

end Data

end MessengerClient
