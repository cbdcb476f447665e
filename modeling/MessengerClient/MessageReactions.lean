import MessengerClient.Credits

/-!
# MessengerClient.MessageReactions

The paid part of `Data::MessageReactions`: stars scheduled for a message, stars
being sent, and the top list of the senders.  What a function asks of the account
is returned as a list of `CreditsCall`s, in their order; a failed `Expects` is
`none`.

`Session` puts many messages beside one account, with the requests in flight.
-/

namespace MessengerClient

namespace Data

abbrev MessageReactions.PeerId := Nat

/-- `MessageReactionsTopPaid`; `peer` is none for an anonymous sender. -/
structure TopPaid where
  peer : Option MessageReactions.PeerId
  count : Nat
  top : Bool
  my : Bool
deriving DecidableEq, Repr

/-- `MTPDmessageReactor`. -/
structure MessageReactor where
  isTop : Bool
  isMy : Bool
  isAnonymous : Bool
  vpeerId : Option MessageReactions.PeerId
  vcount : Nat
deriving DecidableEq, Repr

structure PaidReactionSend where
  count : Int := 0
  valid : Bool := false
  shownPeer : Option MessageReactions.PeerId := some 0
deriving DecidableEq, Repr

/-- `MessageReactions::Paid`.  The two counters have 30 bits, the flags one. -/
structure Paid where
  top : List TopPaid := []
  scheduledShownPeer : MessageReactions.PeerId := 0
  sendingShownPeer : MessageReactions.PeerId := 0
  scheduled : Nat := 0
  scheduledFlag : Bool := false
  scheduledPrivacySet : Bool := false
  sending : Nat := 0
  sendingFlag : Bool := false
  sendingPrivacySet : Bool := false
deriving DecidableEq, Repr

/-- A call of the account. -/
inductive CreditsCall where
  | lock (count : Int)
  | unlock (count : Int)
  | withdrawLocked (count : Int)
deriving DecidableEq, Repr

structure MessageReactions where
  paid : Option Paid := none
deriving DecidableEq, Repr

namespace MessageReactions

def MaybeShownPeer (privacySet : Bool) (shownPeer : PeerId) : Option PeerId :=
  if privacySet then some shownPeer else none

def scheduledPaid (r : MessageReactions) : Int :=
  match r.paid with
  | some paid => paid.scheduled
  | none => 0

def localPaidData (r : MessageReactions) : Bool :=
  r.paid.any fun paid => paid.scheduledFlag || paid.sendingFlag

def localPaidCount (r : MessageReactions) : Int :=
  match r.paid with
  | some paid => paid.scheduled + paid.sending
  | none => 0

/-! ## Sending -/

def scheduleSendPaid (r : MessageReactions) (count : Int) (shownPeer : Option PeerId) :
    Option (MessageReactions × List CreditsCall) :=
  if count < 0 then
    none
  else
    let paid := r.paid.getD {}
    let paid := { paid with
      scheduled := (paid.scheduled + count.toNat) % 2 ^ 30
      scheduledFlag := true }
    let paid := match shownPeer with
      | some peer => { paid with scheduledShownPeer := peer, scheduledPrivacySet := true }
      | none => paid
    some (⟨some paid⟩, if count > 0 then [.lock count] else [])

def cancelScheduledPaid (r : MessageReactions) : MessageReactions × List CreditsCall :=
  match r.paid with
  | none => (r, [])
  | some paid =>
    let calls : List CreditsCall :=
      if paid.scheduledFlag && paid.scheduled != 0 then [.unlock paid.scheduled] else []
    let paid := if paid.scheduledFlag then
        { paid with
          scheduled := 0
          scheduledFlag := false
          scheduledShownPeer := 0
          scheduledPrivacySet := false }
      else paid
    (if !paid.sendingFlag && paid.top.isEmpty then ⟨none⟩ else ⟨some paid⟩, calls)

def startPaidSending (r : MessageReactions) : MessageReactions × PaidReactionSend :=
  match r.paid with
  | none => (r, {})
  | some paid =>
    if !paid.scheduledFlag || paid.sendingFlag then
      (r, {})
    else
      let paid := { paid with
        sending := paid.scheduled
        sendingFlag := paid.scheduledFlag
        sendingShownPeer := paid.scheduledShownPeer
        sendingPrivacySet := paid.scheduledPrivacySet
        scheduled := 0
        scheduledFlag := false
        scheduledShownPeer := 0
        scheduledPrivacySet := false }
      (⟨some paid⟩,
        { count := paid.sending
          valid := true
          shownPeer := MaybeShownPeer paid.sendingPrivacySet paid.sendingShownPeer })

/-- `i->peer = …` for the first entry that is mine. -/
def showMine (shownPeer : Option PeerId) : List TopPaid → List TopPaid
  | [] => []
  | entry :: top =>
    if entry.my then { entry with peer := shownPeer } :: top else entry :: showMine shownPeer top

def finishPaidSending (r : MessageReactions) (send : PaidReactionSend) (success : Bool) :
    Option (MessageReactions × List CreditsCall) :=
  match r.paid with
  | none => none
  | some paid =>
    if send.count ≠ paid.sending then
      none
    else if send.valid ≠ paid.sendingFlag then
      none
    else if send.shownPeer ≠ MaybeShownPeer paid.sendingPrivacySet paid.sendingShownPeer then
      none
    else
      let paid := { paid with
        sending := 0
        sendingFlag := false
        sendingShownPeer := 0
        sendingPrivacySet := false }
      let r : MessageReactions :=
        if !paid.scheduledFlag && paid.top.isEmpty then ⟨none⟩
        else if send.count = 0 then
          ⟨some { paid with top := showMine send.shownPeer paid.top }⟩
        else ⟨some paid⟩
      some (r, if send.count = 0 then []
        else if success then [.withdrawLocked send.count] else [.unlock send.count])

/-- `~MessageReactions`. -/
def destroy (r : MessageReactions) : Option (List CreditsCall) :=
  let (r, calls) := r.cancelScheduledPaid
  match r.paid with
  | none => some calls
  | some paid =>
    if paid.sending > 0 then
      (r.finishPaidSending
        { count := paid.sending
          valid := true
          shownPeer := MaybeShownPeer paid.sendingPrivacySet paid.sendingShownPeer }
        false).map fun (_, more) => calls ++ more
    else
      some calls

/-! ## Changes from the server -/

def IsMyTop (self : PeerId) (data : MessageReactor) (peer : Option PeerId) (top : List TopPaid)
    (min : Bool) : Bool :=
  if peer = some self then true
  else if !min then data.isMy
  else (top.find? (·.peer = peer)).any (·.my)

/-- The part of `change` about the top list; `sending` is what
`owner.reactions().sending(_item)` says, and nothing is changed then. -/
def change (r : MessageReactions) (self : PeerId) (sending : Bool) (top : List MessageReactor)
    (min : Bool) : MessageReactions :=
  if sending then
    r
  else
    let paidTopNow := (r.paid.map Paid.top).getD []
    let paidTop := top.map fun data =>
      let peerId := if data.isAnonymous then none else data.vpeerId.filter (· ≠ 0)
      { peer := peerId
        count := data.vcount % 2 ^ 30
        top := data.isTop
        my := IsMyTop self data peerId paidTopNow min : TopPaid }
    if paidTop.isEmpty then
      match r.paid with
      | some paid =>
        if paid.top.isEmpty then r
        else if r.localPaidData then ⟨some { paid with top := [] }⟩
        else ⟨none⟩
      | none => r
    else
      let mine := match r.paid with
        | some paid =>
          if min && !paidTop.any (·.my) then
            (paid.top.find? fun entry => entry.my && !entry.top).toList
          else []
        | none => []
      let paidTop := (paidTop ++ mine).mergeSort fun a b => a.count ≥ b.count
      ⟨some { r.paid.getD {} with top := paidTop }⟩

/-- The part of `removeFromParticipant` about the top list. -/
def removeFromParticipant (r : MessageReactions) (participant : PeerId) : MessageReactions :=
  match r.paid with
  | none => r
  | some paid =>
    let top := paid.top.filter (·.peer ≠ some participant)
    if top.length = paid.top.length then
      r
    else if top.isEmpty && !r.localPaidData then
      ⟨none⟩
    else
      ⟨some { paid with top := top }⟩

/-- The part of `clearCloudData` about the top list. -/
def clearCloudData (r : MessageReactions) : MessageReactions :=
  match r.paid with
  | some paid => if r.localPaidData then ⟨some { paid with top := [] }⟩ else ⟨none⟩
  | none => r

end MessageReactions

/-! ## Many messages and one account -/

namespace Credits

def call (c : Credits) : CreditsCall → Option Credits
  | .lock count => c.lock (.ofWhole count)
  | .unlock count => c.unlock (.ofWhole count)
  | .withdrawLocked count => c.withdrawLocked (.ofWhole count)

end Credits

/-- A message with the request in flight, as its handlers captured it. -/
structure Live where
  reactions : MessageReactions := {}
  request : Option PaidReactionSend := none
deriving DecidableEq, Repr

/-- The account and the messages by number; a destroyed message is `none`.
`elsewhere` is what is locked for other payments, in nanos, and `calls` are all
calls of the account for messages, each with its message. -/
structure Session where
  credits : Credits := {}
  messages : List (Option Live) := []
  elsewhere : Int := 0
  calls : List (Nat × CreditsCall) := []
deriving DecidableEq, Repr

/-- What may happen. -/
inductive Action where
  | create
  | scheduleSendPaid (message : Nat) (count : Int) (shownPeer : Option MessageReactions.PeerId)
  | cancelScheduledPaid (message : Nat)
  | startPaidSending (message : Nat)
  | finishPaidSending (message : Nat) (success : Bool)
  | change (message : Nat) (self : MessageReactions.PeerId) (sending : Bool)
    (top : List MessageReactor) (min : Bool)
  | removeFromParticipant (message : Nat) (participant : MessageReactions.PeerId)
  | clearCloudData (message : Nat)
  | destroy (message : Nat)
  | lock (count : CreditsAmount)
  | unlock (count : CreditsAmount)
  | withdrawLocked (count : CreditsAmount)
  | apply (balance : CreditsAmount)
deriving DecidableEq, Repr

namespace Session

def live (s : Session) (message : Nat) : Option Live := s.messages[message]?.join

/-- The message is replaced and its calls reach the account. -/
def settle (s : Session) (message : Nat) (live : Option Live) (calls : List CreditsCall) :
    Option Session :=
  (calls.foldlM Credits.call s.credits).map fun credits =>
    { s with
      credits := credits
      messages := s.messages.set message live
      calls := s.calls ++ calls.map (message, ·) }

def step (s : Session) : Action → Option Session
  | .create => some { s with messages := s.messages ++ [some {}] }
  | .scheduleSendPaid message count shownPeer => do
    let live ← s.live message
    let (reactions, calls) ← live.reactions.scheduleSendPaid count shownPeer
    s.settle message (some { live with reactions := reactions }) calls
  | .cancelScheduledPaid message => do
    let live ← s.live message
    let (reactions, calls) := live.reactions.cancelScheduledPaid
    s.settle message (some { live with reactions := reactions }) calls
  | .startPaidSending message => do
    let live ← s.live message
    let (reactions, send) := live.reactions.startPaidSending
    -- Only a valid send is turned into a request.
    let request := if send.valid then some send else live.request
    s.settle message (some { reactions := reactions, request := request }) []
  | .finishPaidSending message success => do
    let live ← s.live message
    let send ← live.request
    let (reactions, calls) ← live.reactions.finishPaidSending send success
    s.settle message (some { reactions := reactions, request := none }) calls
  | .change message self sending top min => do
    let live ← s.live message
    s.settle message (some { live with
      reactions := live.reactions.change self sending top min }) []
  | .removeFromParticipant message participant => do
    let live ← s.live message
    s.settle message (some { live with
      reactions := live.reactions.removeFromParticipant participant }) []
  | .clearCloudData message => do
    let live ← s.live message
    s.settle message (some { live with reactions := live.reactions.clearCloudData }) []
  | .destroy message => do
    let live ← s.live message
    let calls ← live.reactions.destroy
    s.settle message none calls
  | .lock count => do
    let credits ← s.credits.lock count
    some { s with credits := credits, elsewhere := s.elsewhere + count.nanos }
  | .unlock count => do
    let credits ← s.credits.unlock count
    some { s with credits := credits, elsewhere := s.elsewhere - count.nanos }
  | .withdrawLocked count => do
    let credits ← s.credits.withdrawLocked count
    some { s with credits := credits, elsewhere := s.elsewhere - count.nanos }
  | .apply balance => some { s with credits := s.credits.apply balance }

def run (s : Session) (actions : List Action) : Option Session := actions.foldlM step s

end Session

end Data

end MessengerClient
