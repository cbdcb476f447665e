import MessengerClient.MsgId
import MessengerClient.PtsWaiter

/-!
# MessengerClient.Updates

`Api::Updates` of `api/api_updates.cpp`: where a pack of updates from the server
enters.  A pack with a `seq` is fed at once, dropped as old, or parked in
`bySeqUpdates` until the packs before it have come; `setState` drains that map and
enters `applyUpdates` again for the pack whose turn it is.

What is passed on to `Data::Session` is recorded in the field `data`.  Feeding an
update may move the `pts` gate and start the timer for a minimal channel; how is
the parameter `Feed`.
-/

namespace MessengerClient

/-- The constructors of TL type `Updates`, with what `applyUpdates` reads of them. -/
inductive MTPUpdates (Update User Chat Message : Type) where
  | updates (updates : List Update) (users : List User) (chats : List Chat) (date seq : Int)
  | updatesCombined (updates : List Update) (users : List User) (chats : List Chat)
      (date seqStart seq : Int)
  | updateShort (update : Update) (date : Int)
  | updateShortMessage (message : Message) (pts ptsCount date : Int)
  | updateShortChatMessage (message : Message) (pts ptsCount date : Int)
  | updateShortSentMessage (id pts ptsCount date : Int)
  | updatesTooLong
deriving DecidableEq, Repr

instance {Update User Chat Message : Type} :
    Inhabited (MTPUpdates Update User Chat Message) := ⟨.updatesTooLong⟩

/-- What is passed on to `Data::Session`, and the difference request. -/
inductive DataCall (Update User Chat Message : Type) where
  | processUsers (users : List User)
  | processChats (chats : List Chat)
  | feedUpdateVector (updates : List Update)
  | feedUpdate (update : Update)
  | fillMessagePeers (message : Message)
  | applySentMessage (id : Int) (randomId : Nat)
  | sendHistoryChangeNotifications
  | getDifference (pts date qts : Int)
deriving DecidableEq, Repr

/-- The gate for the common `pts` box; its owner passes no channel. -/
abbrev CommonPtsWaiter (Update User Chat Message : Type) : Type :=
  PtsWaiter Unit Update (MTPUpdates Update User Chat Message)

/-- What `Data::Session` and the handlers of single updates do that is seen here. -/
structure Feed (Update User Chat Message : Type) where
  dataIsLoaded : Message → Bool
  ptsWaiter : List Update → CommonPtsWaiter Update User Chat Message →
    CommonPtsWaiter Update User Chat Message
  startsByMinChannelTimer : List Update → Bool

/-- The state of `Api::Updates` behind `applyUpdates`; timers as `isActive()`. -/
structure Updates (Update User Chat Message : Type) where
  data : List (DataCall Update User Chat Message) := []
  ptsWaiter : CommonPtsWaiter Update User Chat Message := {}
  updatesDate : Int := 0
  updatesQts : Int := -1
  updatesSeq : Int := 0
  bySeqUpdates : FlatMap Int (MTPUpdates Update User Chat Message) := ∅
  bySeqTimer : Bool := false
  byMinChannelTimer : Bool := false

namespace Updates

variable {Update User Chat Message : Type}

/-! ## Passing on -/

def pass (st : Updates Update User Chat Message) (call : DataCall Update User Chat Message) :
    Updates Update User Chat Message :=
  { st with data := st.data ++ [call] }

/-- The effect of feeding on the gate and on the timer. -/
def fed (feed : Feed Update User Chat Message) (st : Updates Update User Chat Message)
    (updates : List Update) : Updates Update User Chat Message :=
  { st with
    ptsWaiter := feed.ptsWaiter updates st.ptsWaiter
    byMinChannelTimer := st.byMinChannelTimer || feed.startsByMinChannelTimer updates }

def feedUpdateVector (feed : Feed Update User Chat Message)
    (st : Updates Update User Chat Message) (updates : List Update) :
    Updates Update User Chat Message :=
  (st.pass (.feedUpdateVector updates)).fed feed updates

def feedUpdate (feed : Feed Update User Chat Message) (st : Updates Update User Chat Message)
    (update : Update) : Updates Update User Chat Message :=
  (st.pass (.feedUpdate update)).fed feed [update]

def getDifference (st : Updates Update User Chat Message) : Updates Update User Chat Message :=
  if st.ptsWaiter.requesting then
    st
  else
    let st := { st with
      bySeqUpdates := ∅, bySeqTimer := false, ptsWaiter := st.ptsWaiter.setRequesting true }
    st.pass (.getDifference st.ptsWaiter.current st.updatesDate st.updatesQts)

/-- Park a pack until its turn. -/
def park (st : Updates Update User Chat Message) (seq : Int)
    (updates : MTPUpdates Update User Chat Message) : Updates Update User Chat Message :=
  { st with bySeqUpdates := st.bySeqUpdates.emplace seq updates, bySeqTimer := true }

/-- The part of `setState` before `seq`. -/
def setNumbers (st : Updates Update User Chat Message) (pts date qts : Int) :
    Updates Update User Chat Message :=
  let st := if pts ≠ 0 then { st with ptsWaiter := st.ptsWaiter.init pts } else st
  let st := if st.updatesDate < date && !st.byMinChannelTimer then
    { st with updatesDate := date } else st
  if qts ≠ 0 && st.updatesQts < qts then { st with updatesQts := qts } else st

/-- Feed the contents of a pack. -/
def feedPack (feed : Feed Update User Chat Message) (st : Updates Update User Chat Message)
    (updates : List Update) (users : List User) (chats : List Chat) :
    Updates Update User Chat Message :=
  ((st.pass (.processUsers users)).pass (.processChats chats)).feedUpdateVector feed updates

/-- The block of `updateShortSentMessage` that settles the local message. -/
def settleSent (st : Updates Update User Chat Message) (id : Int) (randomId : Nat) :
    Updates Update User Chat Message :=
  if isServerMsgId id && randomId ≠ 0 then st.pass (.applySentMessage id randomId) else st

section Gate

variable [Inhabited Update]

/-- `Updates::updateAndApply` for a whole pack. -/
def updateAndApply (st : Updates Update User Chat Message) (pts ptsCount : Int)
    (updates : MTPUpdates Update User Chat Message) :
    Updates Update User Chat Message × Bool :=
  let (ptsWaiter, ok) := st.ptsWaiter.updateAndApplyUpdates () pts ptsCount updates
  ({ st with ptsWaiter := ptsWaiter }, ok)

end Gate

/-! ## Frames -/

@[simp] theorem setNumbers_bySeqUpdates (st : Updates Update User Chat Message)
    (pts date qts : Int) : (st.setNumbers pts date qts).bySeqUpdates = st.bySeqUpdates := by
  unfold setNumbers
  grind

@[simp] theorem setNumbers_updatesSeq (st : Updates Update User Chat Message)
    (pts date qts : Int) : (st.setNumbers pts date qts).updatesSeq = st.updatesSeq := by
  unfold setNumbers
  grind

@[simp] theorem setNumbers_data (st : Updates Update User Chat Message)
    (pts date qts : Int) : (st.setNumbers pts date qts).data = st.data := by
  unfold setNumbers
  grind

@[simp] theorem feedPack_bySeqUpdates (feed : Feed Update User Chat Message)
    (st : Updates Update User Chat Message) (updates : List Update) (users : List User)
    (chats : List Chat) :
    (st.feedPack feed updates users chats).bySeqUpdates = st.bySeqUpdates := rfl

@[simp] theorem feedUpdate_bySeqUpdates (feed : Feed Update User Chat Message)
    (st : Updates Update User Chat Message) (update : Update) :
    (st.feedUpdate feed update).bySeqUpdates = st.bySeqUpdates := rfl

@[simp] theorem pass_bySeqUpdates (st : Updates Update User Chat Message)
    (call : DataCall Update User Chat Message) : (st.pass call).bySeqUpdates = st.bySeqUpdates :=
  rfl

@[simp] theorem settleSent_bySeqUpdates (st : Updates Update User Chat Message) (id : Int)
    (randomId : Nat) : (st.settleSent id randomId).bySeqUpdates = st.bySeqUpdates := by
  unfold settleSent
  split <;> rfl

@[simp] theorem updateAndApply_bySeqUpdates [Inhabited Update]
    (st : Updates Update User Chat Message) (pts ptsCount : Int)
    (updates : MTPUpdates Update User Chat Message) :
    (st.updateAndApply pts ptsCount updates).1.bySeqUpdates = st.bySeqUpdates := rfl

/-! ## Applying -/

section Apply

variable [Inhabited Update] (feed : Feed Update User Chat Message)

/- Every round of the three functions takes an entry out of `bySeqUpdates`. -/
mutual

def setState (st : Updates Update User Chat Message) (pts date qts seq : Int) :
    Updates Update User Chat Message :=
  let st' := st.setNumbers pts date qts
  if seq ≠ 0 ∧ seq ≠ st'.updatesSeq then
    drainBySeq { st' with updatesSeq := seq, bySeqTimer := false } seq
  else
    st'
termination_by (st.bySeqUpdates.size, 1)
decreasing_by
  simp only [setNumbers_bySeqUpdates]
  exact Prod.Lex.right _ Nat.zero_lt_one

/-- The loop of `setState`. -/
def drainBySeq (st : Updates Update User Chat Message) (seq : Int) :
    Updates Update User Chat Message :=
  match _hfront : st.bySeqUpdates.front? with
  | none => st
  | some (s, v) =>
      if s ≤ seq + 1 then
        let st' := { st with bySeqUpdates := st.bySeqUpdates.dropFront 1 }
        if s = seq + 1 then applyUpdates st' v 0 else drainBySeq st' seq
      else
        { st with bySeqTimer := true }
termination_by (st.bySeqUpdates.size, 0)
decreasing_by
  all_goals exact Prod.Lex.left _ _ (FlatMap.size_dropFront_one _hfront)

def applyUpdates (st : Updates Update User Chat Message)
    (updates : MTPUpdates Update User Chat Message) (sentMessageRandomId : Nat) :
    Updates Update User Chat Message :=
  match updates with
  | .updates vupdates users chats date seq =>
      if seq ≠ 0 ∧ seq ≤ st.updatesSeq then
        st
      else if seq ≠ 0 ∧ seq > st.updatesSeq + 1 then
        st.park seq updates
      else
        let st' := st.feedPack feed vupdates users chats
        (setState st' 0 date st'.updatesQts seq).pass .sendHistoryChangeNotifications
  | .updatesCombined vupdates users chats date seqStart seq =>
      if seqStart ≠ 0 ∧ seqStart ≤ st.updatesSeq then
        st
      else if seqStart ≠ 0 ∧ seqStart > st.updatesSeq + 1 then
        st.park seqStart updates
      else
        let st' := st.feedPack feed vupdates users chats
        (setState st' 0 date st'.updatesQts seq).pass .sendHistoryChangeNotifications
  | .updateShort update date =>
      let st' := st.feedUpdate feed update
      (setState st' 0 date st'.updatesQts st'.updatesSeq).pass .sendHistoryChangeNotifications
  | .updateShortMessage message pts ptsCount date =>
      if !feed.dataIsLoaded message then
        st.getDifference
      else
        let st' := (st.pass (.fillMessagePeers message)).updateAndApply pts ptsCount updates
        if st'.2 then
          (setState st'.1 0 date st'.1.updatesQts st'.1.updatesSeq).pass
            .sendHistoryChangeNotifications
        else
          st'.1.pass .sendHistoryChangeNotifications
  | .updateShortChatMessage message pts ptsCount date =>
      if !feed.dataIsLoaded message then
        st.getDifference
      else
        let st' := (st.pass (.fillMessagePeers message)).updateAndApply pts ptsCount updates
        if st'.2 then
          (setState st'.1 0 date st'.1.updatesQts st'.1.updatesSeq).pass
            .sendHistoryChangeNotifications
        else
          st'.1.pass .sendHistoryChangeNotifications
  | .updateShortSentMessage id pts ptsCount date =>
      let st' := (st.settleSent id sentMessageRandomId).updateAndApply pts ptsCount updates
      if st'.2 then
        (setState st'.1 0 date st'.1.updatesQts st'.1.updatesSeq).pass
          .sendHistoryChangeNotifications
      else
        st'.1.pass .sendHistoryChangeNotifications
  | .updatesTooLong => st.getDifference
termination_by (st.bySeqUpdates.size, 2)
decreasing_by
  all_goals
    simp only [feedPack_bySeqUpdates, feedUpdate_bySeqUpdates, pass_bySeqUpdates,
      updateAndApply_bySeqUpdates, settleSent_bySeqUpdates]
    exact Prod.Lex.right _ (by decide)

end

end Apply

end Updates

end MessengerClient
