import MessengerClient.Lib.Runs
import Mathlib.Algebra.BigOperators.Group.List.Basic
import Mathlib.Algebra.Order.Ring.Int

/-!
# MessengerClient.MainList

`Dialogs::MainList`: the chats of a list and the totals of their unread counters, the
own ones and those that came from the server.

A failed `Assert` is `none`.
-/

namespace MessengerClient

namespace Dialogs

structure UnreadState where
  messages : Int := 0
  messagesMuted : Int := 0
  chats : Int := 0
  chatsMuted : Int := 0
  marks : Int := 0
  marksMuted : Int := 0
  reactions : Int := 0
  reactionsMuted : Int := 0
  mentions : Int := 0
  polls : Int := 0
  pollsMuted : Int := 0
  known : Bool := false
deriving DecidableEq, Repr

namespace UnreadState

/-- `operator+=`; what is known is not changed. -/
def add (a b : UnreadState) : UnreadState :=
  { a with
    messages := a.messages + b.messages
    messagesMuted := a.messagesMuted + b.messagesMuted
    chats := a.chats + b.chats
    chatsMuted := a.chatsMuted + b.chatsMuted
    marks := a.marks + b.marks
    marksMuted := a.marksMuted + b.marksMuted
    reactions := a.reactions + b.reactions
    reactionsMuted := a.reactionsMuted + b.reactionsMuted
    mentions := a.mentions + b.mentions
    polls := a.polls + b.polls
    pollsMuted := a.pollsMuted + b.pollsMuted }

/-- `operator-=`. -/
def sub (a b : UnreadState) : UnreadState :=
  { a with
    messages := a.messages - b.messages
    messagesMuted := a.messagesMuted - b.messagesMuted
    chats := a.chats - b.chats
    chatsMuted := a.chatsMuted - b.chatsMuted
    marks := a.marks - b.marks
    marksMuted := a.marksMuted - b.marksMuted
    reactions := a.reactions - b.reactions
    reactionsMuted := a.reactionsMuted - b.reactionsMuted
    mentions := a.mentions - b.mentions
    polls := a.polls - b.polls
    pollsMuted := a.pollsMuted - b.pollsMuted }

end UnreadState

/-- The counters of a state, by name. -/
inductive Counter where
  | messages
  | messagesMuted
  | chats
  | chatsMuted
  | marks
  | marksMuted
  | reactions
  | reactionsMuted
  | mentions
  | polls
  | pollsMuted
deriving DecidableEq, Repr

namespace Counter

def of : Counter → UnreadState → Int
  | messages, s => s.messages
  | messagesMuted, s => s.messagesMuted
  | chats, s => s.chats
  | chatsMuted, s => s.chatsMuted
  | marks, s => s.marks
  | marksMuted, s => s.marksMuted
  | reactions, s => s.reactions
  | reactionsMuted, s => s.reactionsMuted
  | mentions, s => s.mentions
  | polls, s => s.polls
  | pollsMuted, s => s.pollsMuted

variable (c : Counter) (a b : UnreadState)

@[simp] theorem of_add : c.of (a.add b) = c.of a + c.of b := by
  cases c <;> rfl

@[simp] theorem of_sub : c.of (a.sub b) = c.of a - c.of b := by
  cases c <;> rfl

@[simp] theorem of_zero (known : Bool) : c.of { known := known } = 0 := by
  cases c <;> rfl

end Counter

/-- The unread state of an entry counts things. -/
structure EntryState extends UnreadState where
  nonneg : ∀ c : Counter, 0 ≤ c.of toUnreadState

/-- `all` is what is in `_all`. -/
structure MainList (Key : Type) where
  all : List Key := []
  unreadState : UnreadState := { known := true }
  cloudUnreadState : UnreadState := {}
  fullListSize : Int := 0
  cloudListSize : Int := 0
  loaded : Bool := false
  allAreMuted : Bool := false
deriving DecidableEq, Repr

namespace MainList

variable {Key : Type}

def recomputeFullListSize (s : MainList Key) : MainList Key :=
  { s with fullListSize := max (s.all.length : Int) (if s.loaded then 0 else s.cloudListSize) }

def setLoaded (s : MainList Key) (loaded : Bool) : MainList Key :=
  if s.loaded = loaded then s else recomputeFullListSize { s with loaded := loaded }

def setAllAreMuted (s : MainList Key) (allAreMuted : Bool) : MainList Key :=
  { s with allAreMuted := allAreMuted }

def setCloudListSize (s : MainList Key) (size : Int) : MainList Key :=
  if s.cloudListSize = size then s else recomputeFullListSize { s with cloudListSize := size }

def clear (s : MainList Key) : MainList Key :=
  recomputeFullListSize { s with
    all := []
    unreadState := { known := true }
    cloudUnreadState := { known := true }
    cloudListSize := 0 }

/-- The cloud counts everything as muted, and no marks. -/
def finalizeCloudUnread (s : MainList Key) : MainList Key :=
  { s with cloudUnreadState :=
    { s.cloudUnreadState with
      messagesMuted := s.cloudUnreadState.messages
      chatsMuted := s.cloudUnreadState.chats
      marksMuted := 0
      marks := 0 } }

def updateCloudUnread (s : MainList Key) (messages chats : Int) : MainList Key :=
  let s := finalizeCloudUnread { s with cloudUnreadState :=
    { s.cloudUnreadState with messages := messages, chats := chats } }
  { s with cloudUnreadState := { s.cloudUnreadState with known := true } }

def unreadStateChanged (s : MainList Key) (wasState nowState : UnreadState) :
    Option (MainList Key) :=
  let updateCloudUnread := s.cloudUnreadState.known && wasState.known
  let s := { s with unreadState := s.unreadState.add (nowState.sub wasState) }
  if updateCloudUnread then
    if nowState.known then
      some (finalizeCloudUnread
        { s with cloudUnreadState := s.cloudUnreadState.add (nowState.sub wasState) })
    else
      none
  else
    some s

/-- The test at the start of `unreadEntryChanged`. -/
def nothingUnread (state : UnreadState) : Bool :=
  state.messages = 0 && state.chats = 0 && state.marks = 0 && state.mentions = 0 &&
    state.reactions = 0

def unreadEntryChanged (s : MainList Key) (state : UnreadState) (added : Bool) : MainList Key :=
  if nothingUnread state then
    s
  else
    let updateCloudUnread := s.cloudUnreadState.known && state.known
    let change (total : UnreadState) := if added then total.add state else total.sub state
    let s := { s with unreadState := change s.unreadState }
    if updateCloudUnread then
      finalizeCloudUnread { s with cloudUnreadState := change s.cloudUnreadState }
    else
      s

variable [DecidableEq Key]

def addEntry (s : MainList Key) (key : Key) (unread : UnreadState) : MainList Key :=
  let s := { s with all := if key ∈ s.all then s.all else s.all ++ [key] }
  recomputeFullListSize (unreadEntryChanged s unread true)

def removeEntry (s : MainList Key) (key : Key) (unread : UnreadState) : MainList Key :=
  let s := { s with all := s.all.erase key }
  recomputeFullListSize (unreadEntryChanged s unread false)

end MainList

/-! ## Entries -/

inductive Action (Key : Type) where
  | addEntry (key : Key)
  | removeEntry (key : Key)
  | clear
  | unreadStateChanged (key : Key) (nowState : EntryState)
  | setLoaded (loaded : Bool)
  | setAllAreMuted (allAreMuted : Bool)
  | setCloudListSize (size : Int)
  | updateCloudUnread (messages chats : Int)

/-- A list and the unread states of all entries, in it or not. -/
structure Entries (Key : Type) where
  list : MainList Key
  state : Key → EntryState

namespace Entries

variable {Key : Type} [DecidableEq Key]

def setState (s : Entries Key) (key : Key) (nowState : EntryState) : Key → EntryState :=
  fun k => if k = key then nowState else s.state k

/-- `Entry` adds itself to a list it has no link to, and removes itself from one it has a
link to; its state changes with a call while it is in the list. -/
def step (s : Entries Key) : Action Key → Option (Entries Key)
  | .addEntry key =>
    if key ∈ s.list.all then none
    else some { s with list := s.list.addEntry key (s.state key).toUnreadState }
  | .removeEntry key =>
    if key ∈ s.list.all then
      some { s with list := s.list.removeEntry key (s.state key).toUnreadState }
    else none
  | .clear => some { s with list := s.list.clear }
  | .unreadStateChanged key nowState =>
    if key ∈ s.list.all then
      (s.list.unreadStateChanged (s.state key).toUnreadState nowState.toUnreadState).map fun list =>
        { s with list := list, state := setState s key nowState }
    else
      some { s with state := setState s key nowState }
  | .setLoaded loaded => some { s with list := s.list.setLoaded loaded }
  | .setAllAreMuted allAreMuted => some { s with list := s.list.setAllAreMuted allAreMuted }
  | .setCloudListSize size => some { s with list := s.list.setCloudListSize size }
  | .updateCloudUnread messages chats =>
    some { s with list := s.list.updateCloudUnread messages chats }

/-- A new list, and what is done with it. -/
def system (Key : Type) [DecidableEq Key] : System (Entries Key) (Action Key) where
  init s := s.list = {}
  step s a s' := step s a = some s'

end Entries

end Dialogs

end MessengerClient
