import Mathlib.Algebra.Order.Ring.Int

/-!
# MessengerClient.RepliesList

`Data::RepliesList`: the loaded part of a message thread.

`list` holds ids from the newest to the oldest.  `skippedBefore` counts the
messages of the thread that are older than the list, `skippedAfter` the newer
ones; each is unknown until an answer tells it.  Answers to three requests and
updates about single messages change the list and the counters.  A failed
`Assert`, `Expects` or `Ensures` is `none`.
-/

namespace MessengerClient

namespace Data

abbrev MsgId := Int

/-! ## What the server sends -/

/-- A received message: `item` is what `addNewMessage` makes of it, nothing or an
item, which is in the thread or not. -/
structure Message where
  id : MsgId
  item : Option Bool
deriving DecidableEq, Repr

def Message.inThread (message : Message) : Bool := message.item == some true

/-- `MTPmessages_Messages`. -/
inductive Messages where
  | messagesNotModified
  | messages (vmessages : List Message)
  | messagesSlice (vcount : Int) (vmessages : List Message)
  | channelMessages (vcount : Int) (vmessages : List Message)
deriving DecidableEq, Repr

def Messages.list : Messages → List Message
  | .messagesNotModified => []
  | .messages vmessages => vmessages
  | .messagesSlice _ vmessages => vmessages
  | .channelMessages _ vmessages => vmessages

def Messages.fullCount : Messages → Int
  | .messagesNotModified => 0
  | .messages vmessages => vmessages.length
  | .messagesSlice vcount _ => vcount
  | .channelMessages vcount _ => vcount

/-- `MessageUpdate`, with what `applyUpdate` asks of its item: `regularHere` says
that the item is a regular one of this history. -/
structure MessageUpdate where
  id : MsgId
  regularHere : Bool
  inThread : Bool
  destroyed : Bool
  replyToTopAdded : Bool
deriving DecidableEq, Repr

/-! ## The list -/

/-- A request in flight. -/
inductive Request where
  | around (id : MsgId)
  | before (last : MsgId)
  | after (first : MsgId)
deriving DecidableEq, Repr

structure RepliesList where
  creating : Bool := false
  list : List MsgId := []
  skippedBefore : Option Int := none
  skippedAfter : Option Int := none
  fullCount : Option Int := none
  loadingAround : Option MsgId := none
  unreadCount : Option Int := none
  inboxReadTillId : MsgId := 0
  beforeId : Option Request := none
  afterId : Option Request := none
deriving DecidableEq, Repr

namespace RepliesList

def changeUnreadCountByPost (s : RepliesList) (id : MsgId) (delta : Int) : RepliesList :=
  if s.inboxReadTillId = 0 then
    { s with unreadCount := none }
  else
    match s.unreadCount with
    | some count =>
      if id > s.inboxReadTillId then { s with unreadCount := some (max (count + delta) 0) } else s
    | none => s

def checkReadTillEnd (s : RepliesList) : RepliesList :=
  if s.unreadCount ≠ some 0 ∧ s.skippedAfter = some 0 ∧
      s.list.head?.any (· ≤ s.inboxReadTillId) then
    { s with unreadCount := some 0 }
  else
    s

/-! ## Updates -/

/-- `_fullCount` after the list changed by one: computed when both ends are
counted, else moved along. -/
def refreshFullCount (s : RepliesList) (move : Int → Int) : Option Int :=
  match s.skippedBefore, s.skippedAfter with
  | some before, some after => some (before + s.list.length + after)
  | _, _ => s.fullCount.map move

/-- `ranges::lower_bound(_list, id, std::greater<>())` cuts the list in two. -/
def lowerBound (list : List MsgId) (id : MsgId) : List MsgId × List MsgId :=
  (list.takeWhile (· > id), list.dropWhile (· > id))

def applyUpdate (s : RepliesList) (update : MessageUpdate) : RepliesList :=
  if !update.regularHere then
    s
  else
    let (newer, rest) := lowerBound s.list update.id
    if update.destroyed then
      let s := if !update.replyToTopAdded && update.inThread then
        s.changeUnreadCountByPost update.id (-1) else s
      if rest.head? ≠ some update.id then
        s
      else
        let s := { s with list := newer ++ rest.tail }
        { s with fullCount := s.refreshFullCount fun known =>
            if known > 0 then known - 1 else known }
    else if !update.inThread then
      s
    else
      let s := if update.replyToTopAdded then s.changeUnreadCountByPost update.id 1 else s
      if s.skippedAfter ≠ some 0 ∨ rest.head? = some update.id then
        s
      else
        let s := { s with list := newer ++ update.id :: rest }
        { s with fullCount := s.refreshFullCount (· + 1) }

def applyDifferenceTooLong (s : RepliesList) : RepliesList :=
  if !s.creating && s.skippedAfter.isSome then { s with skippedAfter := none } else s

/-! ## Requests -/

def loadAround (s : RepliesList) (id : MsgId) : Option RepliesList :=
  if s.creating then
    none
  else if s.loadingAround = some id then
    some s
  else
    some { s with afterId := none, loadingAround := some id, beforeId := some (.around id) }

def loadBefore (s : RepliesList) : Option RepliesList :=
  match s.list.getLast? with
  | none => none
  | some last =>
    if s.loadingAround.isNone && s.beforeId.isSome then
      some s
    else
      some { s with beforeId := some (.before last) }

def loadAfter (s : RepliesList) : Option RepliesList :=
  match s.list.head? with
  | none => none
  | some first =>
    if s.afterId.isSome then some s else some { s with afterId := some (.after first) }

/-! ## Answers -/

/-- The state of the loop over the received messages. -/
structure Pushed where
  refreshed : List MsgId
  list : List MsgId
  skipped : Nat
deriving DecidableEq, Repr

def pushMessage (toFront : Bool) (p : Pushed) (message : Message) : Pushed :=
  match message.item with
  | some true =>
    if toFront && p.list.head?.any (message.id > ·) then
      { p with refreshed := p.refreshed ++ [message.id] }
    else if p.list.isEmpty || p.list.getLast?.any (message.id < ·) then
      { p with list := p.list ++ [message.id] }
    else
      p
  | _ => { p with skipped := p.skipped + 1 }

/-- The page goes in front of the list. -/
def toFront (s : RepliesList) (maxId : MsgId) : Bool := s.list.head?.any (maxId > ·)

/-- The loop, and the new list with the number of skipped messages. -/
def pushPage (s : RepliesList) (toFront : Bool) (page : List Message) : List MsgId × Nat :=
  let p := page.foldl (pushMessage toFront) ⟨[], s.list, 0⟩
  (if toFront then p.refreshed ++ p.list else p.list, p.skipped)

/-- One counter grew by `grown` messages less: `*decrementFrom` of the source. -/
def decrement (skipped : Option Int) (grown : Int) : Option Int :=
  skipped.map fun known => max (known - grown) 0

/-- The two counters, `_skippedBefore` and `_skippedAfter`, for the checked count. -/
def recount (toFront : Bool) (checkedCount nowSize : Int) (skippedBefore skippedAfter : Option Int) :
    Option (Option Int × Option Int) :=
  match skippedBefore, skippedAfter with
  | some before, some after =>
    if toFront then
      let correct := max (checkedCount - after - nowSize) 0
      let decremented := checkedCount - correct - nowSize
      if 0 ≤ decremented then some (some correct, some decremented) else none
    else
      let correct := max (checkedCount - before - nowSize) 0
      let decremented := checkedCount - correct - nowSize
      if 0 ≤ decremented then some (some decremented, some correct) else none
  | some before, none =>
    let before := min before (checkedCount - nowSize)
    some (some before, some (checkedCount - before - nowSize))
  | none, some after =>
    let after := min after (checkedCount - nowSize)
    some (some (checkedCount - after - nowSize), some after)
  | none, none => some (none, none)

def processMessagesIsEmpty (s : RepliesList) (result : Messages) : Option (Bool × RepliesList) :=
  match result.list.head? with
  | none => some (true, s)
  | some front =>
    let toFront := s.toFront front.id
    let (list, skipped) := s.pushPage toFront result.list
    let nowSize : Int := list.length
    let grown : Int := nowSize - s.list.length
    let checkedCount := max (result.fullCount - skipped) nowSize
    match recount toFront checkedCount nowSize
        (if toFront then s.skippedBefore else decrement s.skippedBefore grown)
        (if toFront then decrement s.skippedAfter grown else s.skippedAfter) with
    | none => none
    | some (skippedBefore, skippedAfter) =>
      let s := checkReadTillEnd { s with
        list := list
        skippedBefore := skippedBefore
        skippedAfter := skippedAfter
        fullCount := some checkedCount }
      if result.list.length ≥ skipped then some (result.list.length == skipped, s) else none

def loadAroundDone (s : RepliesList) (id : MsgId) (result : Messages) : Option RepliesList :=
  let s := { s with
    beforeId := none
    loadingAround := none
    skippedAfter := if id = 0 then some 0 else none
    skippedBefore := none
    list := [] }
  match s.processMessagesIsEmpty result with
  | none => none
  | some (true, s) =>
    some (checkReadTillEnd
      { s with fullCount := some 0, skippedBefore := some 0, skippedAfter := some 0 })
  | some (false, s) =>
    if id = 0 then
      some s.checkReadTillEnd
    else
      match s.list.head?, s.list.getLast? with
      | some front, some back =>
        if front ≤ id then
          some (checkReadTillEnd { s with skippedAfter := some 0 })
        else if back ≥ id then
          some (checkReadTillEnd { s with skippedBefore := some 0 })
        else
          some s.checkReadTillEnd
      | _, _ => none

def loadBeforeDone (s : RepliesList) (last : MsgId) (result : Messages) : Option RepliesList :=
  let s := { s with beforeId := none }
  if s.list.isEmpty then
    some s
  else if s.list.getLast? ≠ some last then
    s.loadBefore
  else
    match s.processMessagesIsEmpty result with
    | none => none
    | some (true, s) =>
      some { s with
        skippedBefore := some 0
        fullCount := if s.skippedAfter = some 0 then some (s.list.length : Int) else s.fullCount }
    | some (false, s) => some s

def loadAfterDone (s : RepliesList) (first : MsgId) (result : Messages) : Option RepliesList :=
  let s := { s with afterId := none }
  if s.list.isEmpty then
    some s
  else if s.list.head? ≠ some first then
    s.loadAfter
  else
    match s.processMessagesIsEmpty result with
    | none => none
    | some (true, s) =>
      some (checkReadTillEnd { s with
        skippedAfter := some 0
        fullCount := if s.skippedBefore = some 0 then some (s.list.length : Int) else s.fullCount })
    | some (false, s) => some s

/-! ## Runs -/

/-- What reaches a list: an update, a difference that was too long, or the answer
to a request with the id it was sent for. -/
inductive Event where
  | update (update : MessageUpdate)
  | differenceTooLong
  | aroundDone (id : MsgId) (result : Messages)
  | beforeDone (last : MsgId) (result : Messages)
  | afterDone (first : MsgId) (result : Messages)
deriving DecidableEq, Repr

def act (s : RepliesList) : Event → Option RepliesList
  | .update update => some (s.applyUpdate update)
  | .differenceTooLong => some s.applyDifferenceTooLong
  | .aroundDone id result => s.loadAroundDone id result
  | .beforeDone last result => s.loadBeforeDone last result
  | .afterDone first result => s.loadAfterDone first result

def run (s : RepliesList) (events : List Event) : Option RepliesList := events.foldlM act s

end RepliesList

end Data

end MessengerClient
