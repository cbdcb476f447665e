import MessengerClient.Lib.FlatMap
import MessengerClient.Lib.Runs
import MessengerClient.MsgId

/-!
# MessengerClient.Histories

The requests of the chats as `data/data_histories.cpp` keeps them: which are sent and
which wait for a deletion, the chat list entries that are asked for, and how far a chat
is to be read.

Of a `History` only the id up to which it is read is kept; everything else that it is
asked for is given to the event that asks for it.  Deliveries, topics that are created
and the marks of forums are left out.
-/

namespace MessengerClient

namespace Histories

/-! ## The state of a chat -/

inductive RequestType where
  | none
  | history
  | readInbox
  | delete
  | send
deriving DecidableEq, Repr

/-- The generator of a request: the one of a read request, or one that belongs to the
caller of `sendRequest`. -/
inductive Generator where
  | readInbox (tillId : MsgId)
  | caller
deriving DecidableEq, Repr

structure PostponedHistoryRequest where
  generator : Generator
deriving DecidableEq, Repr

structure SentRequest where
  generator : Generator
  type : RequestType
deriving DecidableEq, Repr

structure State where
  postponed : FlatMap Nat PostponedHistoryRequest := ∅
  sent : FlatMap Nat SentRequest := ∅
  willReadTill : MsgId := 0
  sentReadTill : MsgId := 0
  willReadWhen : Int := 0
  sentReadDone : Bool := false
  postponedRequestEntry : Bool := false

namespace State

def empty (state : State) : Bool :=
  state.postponed.size == 0 && !state.postponedRequestEntry && state.sent.size == 0
    && state.willReadTill == 0 && state.sentReadTill == 0

def postponeHistoryRequest (state : State) : Bool :=
  state.sent.entries.any fun pair => pair.2.type == .delete

def postponeEntryRequest (state : State) : Bool :=
  state.sent.entries.any fun pair => pair.2.type != .history

end State

def kReadRequestTimeout : Int := 3000

end Histories

/-! ## All chats -/

/-- `Histories`, with what it has asked of the API. -/
structure Histories (History Callback : Type) [LinearOrder History] where
  states : FlatMap History Histories.State := ∅
  historyByRequest : FlatMap Nat History := ∅
  requestAutoincrement : Nat := 0
  /-- When the timer fires. -/
  readRequestsTimer : Option Int := none
  dialogRequests : FlatMap History (List Callback) := ∅
  dialogRequestsPending : FlatMap History (List Callback) := ∅
  /-- The `finish` callbacks that may still be called: of every call of a generator, until
  it is called, or until its API request is cancelled to send the request again. -/
  callbacks : FlatMap Nat (History × Histories.Generator) := ∅
  /-- The read requests that were sent, the last one first. -/
  readRequests : List (History × MsgId) := []
  /-- `_inboxReadBefore` of the histories. -/
  inboxReadBefore : History → Option MsgId := fun _ => none

namespace Histories

variable {History Callback : Type} [LinearOrder History]

def lookup (s : Histories History Callback) (history : History) : Option State :=
  s.states.find? history

/-- The state of a chat, made when there is none: `_states[history]`. -/
def stateOf (s : Histories History Callback) (history : History) : State :=
  (s.lookup history).getD {}

def setState (s : Histories History Callback) (history : History) (state : State) :
    Histories History Callback :=
  { s with states := s.states.insert history state }

def checkEmptyState (s : Histories History Callback) (history : History) :
    Histories History Callback :=
  if (s.lookup history).any State.empty then { s with states := s.states.erase history } else s

/-- Call a generator: a request to the API, with a callback for when it is finished. -/
def generate (s : Histories History Callback) (history : History) (id : Nat)
    (generator : Generator) : Histories History Callback :=
  { s with
    callbacks := s.callbacks.emplace id (history, generator)
    readRequests :=
      match generator with
      | .readInbox tillId => (history, tillId) :: s.readRequests
      | .caller => s.readRequests }

/-- Call the generators of requests that waited, in their order. -/
def generateAll (s : Histories History Callback) (history : History)
    (requests : List (Nat × PostponedHistoryRequest)) : Histories History Callback :=
  requests.foldl (fun s pair => s.generate history pair.1 pair.2.generator) s

/-- `History::setInboxReadTill`. -/
def setInboxReadTill (s : Histories History Callback) (history : History) (upTo : MsgId) :
    Histories History Callback :=
  { s with
    inboxReadBefore := Function.update s.inboxReadBefore history
      (some ((s.inboxReadBefore history).elim (upTo + 1) (max · (upTo + 1)))) }

/-! ## Requests -/

/-- Mark the chat whose entry was asked for before a request that can change it. -/
def checkRequestEntry (s : Histories History Callback) (history : History) :
    Histories History Callback :=
  let state := s.stateOf history
  if !state.postponedRequestEntry && state.postponeEntryRequest
      && s.dialogRequests.contains history then
    s.setState history { state with postponedRequestEntry := true }
  else
    s

/-- Cancel the history requests of a chat, to be sent again after the deletions. -/
def postponeSent (s : Histories History Callback) (history : History) :
    Histories History Callback :=
  let state := s.stateOf history
  let resend := state.sent.filter fun pair => pair.2.type == .history
  let postponed := state.postponed.emplaceAll
    (resend.mapVal fun sent => { generator := sent.generator }).entries
  let sent := state.sent.filter fun pair => pair.2.type != .history
  { s with callbacks := s.callbacks.filter fun pair => !resend.contains pair.1 }.setState history
    { state with postponed := postponed, sent := sent }

def sendRequest (s : Histories History Callback) (history : History) (type : RequestType)
    (generator : Generator) : Histories History Callback :=
  let state := s.stateOf history
  let id := s.requestAutoincrement + 1
  let s := { s with
    requestAutoincrement := id
    historyByRequest := s.historyByRequest.emplace id history }
  if type = .history && state.postponeHistoryRequest then
    s.setState history
      { state with postponed := state.postponed.emplace id { generator := generator } }
  else
    let s := (s.generate history id generator).setState history
      { state with sent := state.sent.emplace id { generator := generator, type := type } }
    let s := s.checkRequestEntry history
    if (s.stateOf history).postponeHistoryRequest then s.postponeSent history else s

/-- Send the requests that waited. -/
def sendPostponed (s : Histories History Callback) (history : History) :
    Histories History Callback :=
  let state := s.stateOf history
  let sent := state.sent.emplaceAll
    (state.postponed.mapVal fun postponed =>
      { generator := postponed.generator, type := .history }).entries
  (s.generateAll history state.postponed.entries).setState history
    { state with postponed := ∅, sent := sent }

/-- Ask again for the entry of a chat; `none` where an `Assert` fails. -/
def checkPostponedEntry (s : Histories History Callback) (history : History) :
    Option (Histories History Callback) :=
  let state := s.stateOf history
  if state.postponedRequestEntry && !state.postponeEntryRequest then
    match s.dialogRequests.find? history with
    | none => none
    | some callbacks =>
        if s.dialogRequestsPending.contains history then none
        else
          some ({ s with
            dialogRequestsPending := s.dialogRequestsPending.emplace history callbacks
            dialogRequests := s.dialogRequests.erase history }.setState history
              { state with postponedRequestEntry := false })
  else
    some s

/-- What a request that ended leaves to be done. -/
def afterSentRequest (s : Histories History Callback) (history : History) :
    Option (Histories History Callback) := do
  let state := s.stateOf history
  let s :=
    if state.postponed.size ≠ 0 && !state.postponeHistoryRequest then s.sendPostponed history
    else s
  let s ← s.checkPostponedEntry history
  return s.checkEmptyState history

def finishSentRequest (s : Histories History Callback) (history : History) (state : State)
    (id : Nat) : Option (Histories History Callback) :=
  ({ s with historyByRequest := s.historyByRequest.erase id }.setState history
    { state with sent := state.sent.erase id }).afterSentRequest history

def checkPostponed (s : Histories History Callback) (history : History) (id : Nat) :
    Option (Histories History Callback) :=
  match s.lookup history with
  | none => some s
  | some state => s.finishSentRequest history state id

def cancelRequest (s : Histories History Callback) (id : Nat) :
    Option (Histories History Callback) :=
  match s.historyByRequest.find? id with
  | none => some s
  | some history =>
      let s := { s with historyByRequest := s.historyByRequest.erase id }
      match s.lookup history with
      | none => some s
      | some state =>
          s.finishSentRequest history { state with postponed := state.postponed.erase id } id

/-! ## Chat list entries -/

def requestDialogEntry (s : Histories History Callback) (history : History) (isCommunity : Bool)
    (callback : Option Callback) : Histories History Callback :=
  if isCommunity then s
  else
    match s.dialogRequests.find? history with
    | some callbacks =>
        { s with dialogRequests := s.dialogRequests.insert history (callbacks ++ callback.toList) }
    | none =>
        { s with
          dialogRequestsPending := s.dialogRequestsPending.insert history
            ((s.dialogRequestsPending.find? history).getD [] ++ callback.toList) }

/-- The chats whose request can change the entry are marked, and all are asked for. -/
def sendDialogRequests (s : Histories History Callback) : Histories History Callback :=
  { s with
    states := s.states.mapEntries fun history state =>
      if s.dialogRequestsPending.contains history && state.postponeEntryRequest then
        { state with postponedRequestEntry := true }
      else
        state
    dialogRequests := s.dialogRequests.emplaceAll s.dialogRequestsPending.entries
    dialogRequestsPending := ∅ }

/-- The first part of `dialogEntryApplied`: the callbacks are taken, and then called. -/
def takeDialogCallbacks (s : Histories History Callback) (history : History) :
    Histories History Callback :=
  if (s.stateOf history).postponedRequestEntry then s
  else
    { s with
      dialogRequestsPending := s.dialogRequestsPending.erase history
      dialogRequests := s.dialogRequests.erase history }

/-- The second part, after the callbacks: a position that was confirmed is taken away. -/
def applySentRead (s : Histories History Callback) (history : History) :
    Histories History Callback :=
  let state := s.stateOf history
  if state.sentReadTill ≠ 0 && state.sentReadDone then
    ((s.setInboxReadTill history state.sentReadTill).setState history
      { state with sentReadTill := 0 }).checkEmptyState history
  else
    s

/-! ## Reading -/

/-- Send the read request of a chat; `none` where the `Expects` fails. -/
def sendReadRequest (s : Histories History Callback) (history : History) (state : State) :
    Option (Histories History Callback) :=
  if state.sentReadTill < state.willReadTill then
    some ((s.setState history { state with
        sentReadTill := state.willReadTill
        willReadTill := 0
        willReadWhen := 0
        sentReadDone := false }).sendRequest history .readInbox (.readInbox state.willReadTill))
  else
    none

/-- One chat of `sendReadRequests`, with the time when the next one is due. -/
def visitReadRequest (now : Int) (acc : Histories History Callback × Option Int)
    (history : History) : Option (Histories History Callback × Option Int) :=
  let state := acc.1.stateOf history
  if state.willReadTill = 0 then some acc
  else if state.willReadWhen ≤ now then
    (·, acc.2) <$> acc.1.sendReadRequest history state
  else if acc.2.all fun next => state.willReadWhen < next then
    some (acc.1, some state.willReadWhen)
  else
    some acc

def sendReadRequests (s : Histories History Callback) (now : Int) :
    Option (Histories History Callback) :=
  if s.states.size = 0 then some s
  else do
    let (s, next) ← s.states.keys.foldlM (visitReadRequest now) (s, none)
    return { s with readRequestsTimer := next }

def sendPendingReadInbox (s : Histories History Callback) (history : History) (now : Int) :
    Option (Histories History Callback) :=
  match s.lookup history with
  | none => some s
  | some state =>
      if state.willReadTill ≠ 0 && state.willReadWhen ≠ 0 then
        (s.setState history { state with willReadWhen := 0 }).sendReadRequests now
      else
        some s

/-- What a history knows when it is to be read: if its messages are tracked, how many stay
unread by its own messages, and how many are unread. -/
structure UnreadView where
  trackUnreadMessages : Bool
  stillUnread : Option Int
  unreadCount : Option Int
deriving DecidableEq, Repr

/-- `readInboxTillNeedsRequest`. -/
def needsRequest (s : Histories History Callback) (history : History) (tillId : MsgId) : Prop :=
  isServerMsgId tillId ∧ (s.inboxReadBefore history).getD 1 ≤ tillId

instance (s : Histories History Callback) (history : History) (tillId : MsgId) :
    Decidable (s.needsRequest history tillId) :=
  inferInstanceAs (Decidable (_ ∧ _))

/-- `readInboxTill` behind its early returns. -/
def willRead (s : Histories History Callback) (history : History) (tillId : MsgId) (force : Bool)
    (view : UnreadView) (now : Int) : Option (Histories History Callback) := do
  let state := { s.stateOf history with willReadTill := tillId }
  let s ←
    if force || view.stillUnread.all (· == 0) then
      (s.setState history { state with willReadWhen := 0 }).sendReadRequests now
    else if state.willReadWhen = 0 then
      some { s.setState history { state with willReadWhen := now + kReadRequestTimeout } with
        readRequestsTimer := s.readRequestsTimer.or (some (now + kReadRequestTimeout)) }
    else
      some (s.setState history state)
  return if view.stillUnread.isSome then s.setInboxReadTill history tillId else s

/-- The early returns of `readInboxTill`; `none` where it gets past them. -/
def earlyReturn (s : Histories History Callback) (history : History) (tillId : MsgId)
    (force : Bool) (view : UnreadView) (now : Int) :
    Option (Option (Histories History Callback)) :=
  let state := s.lookup history
  if ¬ s.needsRequest history tillId ∧ !force then some (some s)
  else if !view.trackUnreadMessages then some (some s)
  else if state.any fun state => tillId ≤ state.sentReadTill then some (some s)
  else if state.any fun state => tillId ≤ state.willReadTill then
    some (if force then s.sendPendingReadInbox history now else some s)
  else if ¬ s.needsRequest history tillId ∧ state.all fun state => state.willReadTill == 0 then
    some (some s)
  else if !force && view.stillUnread.isSome && view.stillUnread = view.unreadCount then
    some (some (s.setInboxReadTill history tillId))
  else
    none

def readInboxTill (s : Histories History Callback) (history : History) (tillId : MsgId)
    (force : Bool) (view : UnreadView) (now : Int) : Option (Histories History Callback) :=
  match s.earlyReturn history tillId force view now with
  | some result => result
  | none => s.willRead history tillId force view now

/-- What an answer to a read request says of the position that was sent last; `none` where the
`Assert` fails. -/
def confirmRead (s : Histories History Callback) (history : History) (state : State)
    (tillId : MsgId) (unreadCountKnown isCommunity : Bool) : Option (Histories History Callback) :=
  if state.sentReadTill = tillId then
    if !unreadCountKnown || (s.inboxReadBefore history).getD 0 < tillId + 1 then
      some ((s.setState history { state with sentReadDone := true }).requestDialogEntry history
        isCommunity none)
    else
      some (s.setState history { state with sentReadDone := true, sentReadTill := 0 })
  else if state.sentReadTill = 0 ∨ tillId < state.sentReadTill then
    some s
  else
    none

/-- The handler of an answer to a read request, which calls its callback at the end; `none`
where an `Assert` fails. -/
def readFinished (s : Histories History Callback) (history : History) (tillId : MsgId)
    (id : Nat) (unreadCountKnown isCommunity : Bool) (now : Int) :
    Option (Histories History Callback) := do
  let state ← s.lookup history
  let s ← s.confirmRead history state tillId unreadCountKnown isCommunity
  let s ← s.sendReadRequests now
  { s with callbacks := s.callbacks.erase id }.checkPostponed history id

/-! ## Runs -/

/-- What happens to `Histories`: calls, callbacks, the timer, and a history that learns how
far it is read. -/
inductive Event (History Callback : Type) where
  | sendRequest (history : History) (type : RequestType)
  | finish (id : Nat)
  | cancelRequest (id : Nat)
  | requestDialogEntry (history : History) (isCommunity : Bool) (callback : Option Callback)
  | sendDialogRequests
  | takeDialogCallbacks (history : History)
  | applySentRead (history : History)
  | readInboxTill (history : History) (tillId : MsgId) (force : Bool) (view : UnreadView)
      (now : Int)
  | sendPendingReadInbox (history : History) (now : Int)
  | readRequestsTimer (now : Int)
  | readFinished (id : Nat) (unreadCountKnown isCommunity : Bool) (now : Int)
  | setInboxReadTill (history : History) (upTo : MsgId)

/-- When an event can come.  A callback is called once, after its generator returned; the
id of a read request is known to nobody, so it is not cancelled. -/
def Enabled (s : Histories History Callback) : Event History Callback → Prop
  | .sendRequest _ type => type ≠ .none
  | .finish id => ∃ history, s.callbacks.find? id = some (history, .caller)
  | .cancelRequest id => ∀ history tillId, s.callbacks.find? id ≠ some (history, .readInbox tillId)
  | .readInboxTill _ tillId force _ _ => isServerMsgId tillId ∨ (tillId = 0 ∧ !force)
  | .readFinished id _ _ _ =>
      ∃ history tillId, s.callbacks.find? id = some (history, .readInbox tillId)
  | .readRequestsTimer _ => s.readRequestsTimer.isSome
  | _ => True

/-- The state behind an event; `none` where an `Expects` or `Assert` fails. -/
def handle (s : Histories History Callback) : Event History Callback →
    Option (Histories History Callback)
  | .sendRequest history type => some (s.sendRequest history type .caller)
  | .finish id =>
      match s.callbacks.find? id with
      | none => none
      | some (history, _) =>
          { s with callbacks := s.callbacks.erase id }.checkPostponed history id
  | .cancelRequest id => s.cancelRequest id
  | .requestDialogEntry history isCommunity callback =>
      some (s.requestDialogEntry history isCommunity callback)
  | .sendDialogRequests => some s.sendDialogRequests
  | .takeDialogCallbacks history => some (s.takeDialogCallbacks history)
  | .applySentRead history => some (s.applySentRead history)
  | .readInboxTill history tillId force view now => s.readInboxTill history tillId force view now
  | .sendPendingReadInbox history now => s.sendPendingReadInbox history now
  | .readRequestsTimer now => { s with readRequestsTimer := none }.sendReadRequests now
  | .readFinished id unreadCountKnown isCommunity now =>
      match s.callbacks.find? id with
      | some (history, .readInbox tillId) =>
          s.readFinished history tillId id unreadCountKnown isCommunity now
      | _ => none
  | .setInboxReadTill history upTo => some (s.setInboxReadTill history upTo)

/-- The runs of `Histories`. -/
def system (History Callback : Type) [LinearOrder History] :
    System (Histories History Callback) (Event History Callback) where
  init s := s = {}
  step s event s' := s.Enabled event ∧ s.handle event = some s'

end Histories

end MessengerClient
