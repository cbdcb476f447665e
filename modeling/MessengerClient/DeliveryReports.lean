import MessengerClient.Lib.FlatMap
import MessengerClient.Lib.Runs

/-!
# MessengerClient.DeliveryReports

The part of `Histories` that reports the delivery of messages: ids wait for their peer,
and are sent in batches, one request of a peer at a time.

A map of the source keeps its pairs in one sequence, and a binding to a pair names its
position: after an erase it reads the pair that moved there.
-/

namespace MessengerClient

namespace Data

def kReportDeliveriesPerRequest : Nat := 50

/-- `messages.reportMessagesDelivery`; `finish` of the source captured the same peer. -/
structure ReportRequest (Peer MsgId : Type) where
  peer : Peer
  ids : List MsgId
deriving DecidableEq, Repr

/-- `inFlight` are the requests not finished, and `posted` the calls of
`reportPendingDeliveries` on the main queue.  The last two fields only record what was
accepted by `reportDelivery` and every request sent. -/
structure DeliveryReports (Peer MsgId : Type) [LinearOrder Peer] where
  pendingDeliveryReport : FlatMap Peer (List MsgId) := ∅
  deliveryReportSent : List Peer := []
  inFlight : List (ReportRequest Peer MsgId) := []
  posted : Nat := 0
  reported : List (Peer × MsgId) := []
  requests : List (ReportRequest Peer MsgId) := []

namespace DeliveryReports

variable {Peer MsgId : Type} [LinearOrder Peer] [LinearOrder MsgId]

/-- The set of a peer is made by the first of its ids. -/
def reportDelivery (s : DeliveryReports Peer MsgId) (peer : Peer) (id : MsgId) :
    DeliveryReports Peer MsgId :=
  match s.pendingDeliveryReport.find? peer with
  | none =>
    { s with
      pendingDeliveryReport := s.pendingDeliveryReport.emplace peer [id]
      posted := s.posted + 1
      reported := (peer, id) :: s.reported }
  | some ids =>
    if id ∈ ids then
      s
    else
      { s with
        pendingDeliveryReport :=
          s.pendingDeliveryReport.modify peer fun ids => ids.orderedInsert (· ≤ ·) id
        posted := s.posted + 1
        reported := (peer, id) :: s.reported }

/-- What the loop of `reportPendingDeliveries` leaves pending, marks as sent and sends. -/
structure Batch (Peer MsgId : Type) where
  pending : List (Peer × List MsgId)
  sent : List Peer
  requests : List (ReportRequest Peer MsgId)

/-- What `peer` reads after its pair was erased: the key of the next pair, that is there
now, or what is left behind the last one. -/
def afterErase (dangling : Peer → Peer) (peer : Peer) : List (Peer × List MsgId) → Peer
  | [] => dangling peer
  | (next, _) :: _ => next

/-- The loop, from the pairs that are left to it. -/
def batch (dangling : Peer → Peer) (sent : List Peer) :
    List (Peer × List MsgId) → Batch Peer MsgId
  | [] => ⟨[], sent, []⟩
  | (peer, ids) :: rest =>
    if peer ∈ sent then
      let b := batch dangling sent rest
      { b with pending := (peer, ids) :: b.pending }
    else
      let list := ids.take kReportDeliveriesPerRequest
      let left := ids.drop kReportDeliveriesPerRequest
      let named := if left.isEmpty then afterErase dangling peer rest else peer
      let b := batch dangling (named :: sent) rest
      { b with
        pending := if left.isEmpty then b.pending else (peer, left) :: b.pending
        requests := ⟨named, list⟩ :: b.requests }

omit [LinearOrder MsgId] in
/-- The pairs that stay are in their order. -/
theorem keys_batch_sublist (dangling : Peer → Peer) (sent : List Peer)
    (entries : List (Peer × List MsgId)) :
    ((batch dangling sent entries).pending.map Prod.fst).Sublist (entries.map Prod.fst) := by
  induction entries generalizing sent with
  | nil => exact List.Sublist.slnil
  | cons e rest ih =>
    obtain ⟨peer, ids⟩ := e
    rw [batch]
    split
    · exact (ih sent).cons_cons peer
    · dsimp only
      split
      · exact (ih _).cons peer
      · exact (ih _).cons_cons peer

omit [LinearOrder MsgId] in
theorem sorted_batch (dangling : Peer → Peer) (sent : List Peer)
    (pending : FlatMap Peer (List MsgId)) :
    (batch dangling sent pending.entries).pending.Pairwise fun a b => a.1 < b.1 := by
  have hsorted : (pending.entries.map Prod.fst).Pairwise (· < ·) :=
    List.pairwise_map.mpr pending.sorted
  exact List.pairwise_map.mp (hsorted.sublist (keys_batch_sublist dangling sent pending.entries))

def reportPendingDeliveries (dangling : Peer → Peer) (s : DeliveryReports Peer MsgId) :
    DeliveryReports Peer MsgId :=
  let b := batch dangling s.deliveryReportSent s.pendingDeliveryReport.entries
  { s with
    pendingDeliveryReport :=
      ⟨b.pending, sorted_batch dangling s.deliveryReportSent s.pendingDeliveryReport⟩
    deliveryReportSent := b.sent
    inFlight := s.inFlight ++ b.requests
    requests := s.requests ++ b.requests }

/-- `finish`, of a request that is done or failed. -/
def finish (dangling : Peer → Peer) (s : DeliveryReports Peer MsgId)
    (request : ReportRequest Peer MsgId) : DeliveryReports Peer MsgId :=
  let s := { s with
    inFlight := s.inFlight.erase request
    deliveryReportSent := s.deliveryReportSent.filter (· ≠ request.peer) }
  if s.pendingDeliveryReport.contains request.peer then reportPendingDeliveries dangling s else s

inductive Action (Peer MsgId : Type) where
  | reportDelivery (peer : Peer) (id : MsgId)
  | posted
  | finish (request : ReportRequest Peer MsgId)

def step (dangling : Peer → Peer) (s : DeliveryReports Peer MsgId) :
    Action Peer MsgId → Option (DeliveryReports Peer MsgId)
  | .reportDelivery peer id => some (s.reportDelivery peer id)
  | .posted =>
    if s.posted = 0 then none
    else some (reportPendingDeliveries dangling { s with posted := s.posted - 1 })
  | .finish request => if request ∈ s.inFlight then some (s.finish dangling request) else none

def system (Peer MsgId : Type) [LinearOrder Peer] [LinearOrder MsgId] (dangling : Peer → Peer) :
    System (DeliveryReports Peer MsgId) (Action Peer MsgId) where
  init s := s = {}
  step s a s' := step dangling s a = some s'

end DeliveryReports

end Data

end MessengerClient
