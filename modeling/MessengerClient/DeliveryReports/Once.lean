import MessengerClient.DeliveryReports
import Mathlib.Algebra.BigOperators.Group.List.Basic

/-!
# MessengerClient.DeliveryReports.Once

Every id that was accepted is pending or was sent once, to its own peer, as long as no
pair is erased before another one (`deliveredOnce_of_reached`): the peer that is read
after an erase is the next one.
-/

namespace MessengerClient

namespace Data

namespace DeliveryReports

variable {Peer MsgId : Type} [LinearOrder Peer] [LinearOrder MsgId]

/-! ## Counting -/

/-- How often an id is in the lists of a peer. -/
def occurrences (peer : Peer) (id : MsgId) (pairs : List (Peer × List MsgId)) : Nat :=
  (pairs.map fun e => if e.1 = peer then e.2.count id else 0).sum

/-- The requests as pairs of a peer and its ids. -/
def sentPairs (requests : List (ReportRequest Peer MsgId)) : List (Peer × List MsgId) :=
  requests.map fun r => (r.peer, r.ids)

variable {peer p : Peer} {id : MsgId} {dangling : Peer → Peer} {sent : List Peer}
  {pairs : List (Peer × List MsgId)} {s s' : DeliveryReports Peer MsgId}

@[simp] theorem occurrences_nil : occurrences peer id [] = 0 := rfl

@[simp] theorem occurrences_cons (e : Peer × List MsgId) (l : List (Peer × List MsgId)) :
    occurrences peer id (e :: l) = (if e.1 = peer then e.2.count id else 0) + occurrences peer id l := by
  simp [occurrences]

@[simp] theorem occurrences_append (l l' : List (Peer × List MsgId)) :
    occurrences peer id (l ++ l') = occurrences peer id l + occurrences peer id l' := by
  simp [occurrences]

theorem occurrences_perm {l l' : List (Peer × List MsgId)} (h : l.Perm l') :
    occurrences peer id l = occurrences peer id l' :=
  (h.map _).sum_eq

/-! ## The loop -/

/-- The only pair that is taken whole is the last one, and its peer can still be read
when it is gone. -/
def Undisturbed (dangling : Peer → Peer) (sent : List Peer) (pairs : List (Peer × List MsgId)) :
    Prop :=
  ∀ front peer ids back, pairs = front ++ (peer, ids) :: back → peer ∉ sent →
    ids.length ≤ kReportDeliveriesPerRequest → back = [] ∧ dangling peer = peer

omit [LinearOrder Peer] [LinearOrder MsgId] in
theorem Undisturbed.tail {e : Peer × List MsgId} {sent' : List Peer}
    (h : Undisturbed dangling sent (e :: pairs)) (hsub : ∀ p ∈ sent, p ∈ sent') :
    Undisturbed dangling sent' pairs := by
  rintro front peer ids back rfl hpeer hids
  exact h (e :: front) peer ids back rfl (fun hmem => hpeer (hsub peer hmem)) hids

omit [LinearOrder Peer] [LinearOrder MsgId] in
/-- The peer of the request is the one whose ids it has. -/
theorem Undisturbed.named {ids : List MsgId} (h : Undisturbed dangling sent ((peer, ids) :: pairs))
    (hpeer : peer ∉ sent) :
    (if (ids.drop kReportDeliveriesPerRequest).isEmpty then afterErase dangling peer pairs
      else peer) = peer := by
  split
  · next hempty =>
    rw [List.isEmpty_iff, List.drop_eq_nil_iff] at hempty
    obtain ⟨rfl, hdangling⟩ := h [] peer ids pairs rfl hpeer hempty
    exact hdangling
  · rfl

/-- What an undisturbed loop does. -/
structure BatchSpec (sent : List Peer) (pairs : List (Peer × List MsgId))
    (b : Batch Peer MsgId) : Prop where
  accounted : ∀ peer id, occurrences peer id pairs =
    occurrences peer id b.pending + occurrences peer id (sentPairs b.requests)
  size : (∀ e ∈ pairs, e.2 ≠ []) → ∀ r ∈ b.requests,
    1 ≤ r.ids.length ∧ r.ids.length ≤ kReportDeliveriesPerRequest
  filled : (∀ e ∈ pairs, e.2 ≠ []) → ∀ e ∈ b.pending, e.2 ≠ []
  fresh : ∀ r ∈ b.requests, r.peer ∉ sent
  single : (b.requests.map ReportRequest.peer).Nodup
  marks : ∀ peer, peer ∈ b.sent ↔ peer ∈ sent ∨ peer ∈ b.requests.map ReportRequest.peer
  kept : ∀ e ∈ b.pending, e.1 ∈ b.sent
  shrinks : (b.pending.map fun e => e.2.length).sum + (b.requests.map fun r => r.ids.length).sum =
    (pairs.map fun e => e.2.length).sum

variable {b : Batch Peer MsgId} {ids : List MsgId}

theorem BatchSpec.skip (h : BatchSpec sent pairs b) (hpeer : peer ∈ sent) :
    BatchSpec sent ((peer, ids) :: pairs) { b with pending := (peer, ids) :: b.pending } where
  accounted p id := by simp [h.accounted p id, Nat.add_assoc]
  size hne := h.size fun e he => hne e (List.mem_cons_of_mem _ he)
  filled hne := by
    rw [List.forall_mem_cons] at hne ⊢
    exact ⟨hne.1, h.filled hne.2⟩
  fresh := h.fresh
  single := h.single
  marks := h.marks
  kept := by
    rw [List.forall_mem_cons]
    exact ⟨(h.marks peer).mpr (.inl hpeer), h.kept⟩
  shrinks := by
    have hsum := h.shrinks
    simp only [List.map_cons, List.sum_cons]
    omega

theorem BatchSpec.take (h : BatchSpec (peer :: sent) pairs b) (hpeer : peer ∉ sent) :
    BatchSpec sent ((peer, ids) :: pairs)
      { b with
        pending := if (ids.drop kReportDeliveriesPerRequest).isEmpty then b.pending
          else (peer, ids.drop kReportDeliveriesPerRequest) :: b.pending
        requests := ⟨peer, ids.take kReportDeliveriesPerRequest⟩ :: b.requests } where
  accounted p id := by
    have hcount := h.accounted p id
    have hids : ids.count id = (ids.drop kReportDeliveriesPerRequest).count id +
        (ids.take kReportDeliveriesPerRequest).count id := by
      rw [Nat.add_comm, ← List.count_append, List.take_append_drop]
    cases hempty : (ids.drop kReportDeliveriesPerRequest).isEmpty with
    | true =>
      rw [List.isEmpty_iff] at hempty
      rw [hempty, List.count_nil] at hids
      simp only [sentPairs, occurrences_cons, List.map_cons, if_true] at hcount ⊢
      split <;> omega
    | false =>
      simp only [sentPairs, occurrences_cons, List.map_cons, Bool.false_eq_true, if_false]
        at hcount ⊢
      split <;> omega
  size hne := by
    rw [List.forall_mem_cons] at hne ⊢
    have hpos : 0 < ids.length := List.length_pos_of_ne_nil hne.1
    refine ⟨?_, h.size hne.2⟩
    rw [List.length_take, kReportDeliveriesPerRequest]
    omega
  filled hne := by
    rw [List.forall_mem_cons] at hne
    dsimp only
    split
    · exact h.filled hne.2
    · next hleft =>
      rw [List.forall_mem_cons]
      exact ⟨fun hnil => hleft (List.isEmpty_iff.mpr hnil), h.filled hne.2⟩
  fresh := by
    rw [List.forall_mem_cons]
    exact ⟨hpeer, fun r hr hmem => h.fresh r hr (List.mem_cons_of_mem peer hmem)⟩
  single := by
    rw [List.map_cons, List.nodup_cons]
    refine ⟨fun hmem => ?_, h.single⟩
    obtain ⟨r, hr, heq⟩ := List.mem_map.mp hmem
    exact h.fresh r hr (heq ▸ List.mem_cons_self)
  marks p := by
    simp only [h.marks p, List.mem_cons, List.map_cons]
    tauto
  kept := by
    have hself : peer ∈ b.sent := (h.marks peer).mpr (.inl List.mem_cons_self)
    dsimp only
    split
    · exact h.kept
    · rw [List.forall_mem_cons]
      exact ⟨hself, h.kept⟩
  shrinks := by
    have hsum := h.shrinks
    have hids : ids.length = (ids.drop kReportDeliveriesPerRequest).length +
        (ids.take kReportDeliveriesPerRequest).length := by
      rw [Nat.add_comm, ← List.length_append, List.take_append_drop]
    dsimp only
    split
    · next hempty =>
      rw [List.isEmpty_iff] at hempty
      rw [hempty, List.length_nil] at hids
      simp only [List.map_cons, List.sum_cons]
      omega
    · simp only [List.map_cons, List.sum_cons]
      omega

theorem batch_spec (h : Undisturbed dangling sent pairs) :
    BatchSpec sent pairs (batch dangling sent pairs) := by
  induction pairs generalizing sent with
  | nil => constructor <;> simp [batch, sentPairs]
  | cons e rest ih =>
    obtain ⟨peer, ids⟩ := e
    rw [batch]
    by_cases hpeer : peer ∈ sent
    · rw [if_pos hpeer]
      exact (ih (h.tail fun _ hp => hp)).skip hpeer
    · simp only [if_neg hpeer, h.named hpeer]
      exact (ih (h.tail fun _ hp => List.mem_cons_of_mem _ hp)).take hpeer

/-! ## Steps -/

/-- The reports, apart from what will be done next. -/
structure Accounted (s : DeliveryReports Peer MsgId) : Prop where
  /-- An id is as often pending for its peer or sent to it as it was accepted. -/
  accounted : ∀ peer id, s.reported.count (peer, id) =
    occurrences peer id s.pendingDeliveryReport.entries +
      occurrences peer id (sentPairs s.requests)
  size : ∀ r ∈ s.requests, 1 ≤ r.ids.length ∧ r.ids.length ≤ kReportDeliveriesPerRequest
  single : (s.inFlight.map ReportRequest.peer).Nodup
  marks : ∀ peer, peer ∈ s.deliveryReportSent ↔ peer ∈ s.inFlight.map ReportRequest.peer
  sent : ∀ r ∈ s.inFlight, r ∈ s.requests
  filled : ∀ e ∈ s.pendingDeliveryReport.entries, e.2 ≠ []

/-- **Delivery reports reach their own chat once**, and what is pending will be looked
at. -/
structure DeliveredOnce (s : DeliveryReports Peer MsgId) : Prop extends Accounted s where
  progress : ∀ e ∈ s.pendingDeliveryReport.entries, e.1 ∈ s.deliveryReportSent ∨ 0 < s.posted

/-- In the state before the step, the loop is undisturbed if it runs. -/
def UndisturbedStep (dangling : Peer → Peer) (s : DeliveryReports Peer MsgId) :
    Action Peer MsgId → Prop
  | .reportDelivery _ _ => True
  | .posted => Undisturbed dangling s.deliveryReportSent s.pendingDeliveryReport.entries
  | .finish request => s.pendingDeliveryReport.contains request.peer →
      Undisturbed dangling (s.deliveryReportSent.filter (· ≠ request.peer))
        s.pendingDeliveryReport.entries

theorem occurrences_insert (pending : FlatMap Peer (List MsgId)) {ids : List MsgId} {new : MsgId}
    (h : pending.find? p = some ids) (peer : Peer) (id : MsgId) :
    occurrences peer id (pending.modify p fun ids => ids.orderedInsert (· ≤ ·) new).entries =
      occurrences peer id pending.entries + if (p, new) = (peer, id) then 1 else 0 := by
  obtain ⟨front, back, hsplit, hmodify⟩ := FlatMap.modify_split _ h
  have hcount : (ids.orderedInsert (· ≤ ·) new).count id = ids.count id + if new = id then 1 else 0 := by
    rw [(List.perm_orderedInsert (· ≤ ·) new ids).count_eq id, List.count_cons]
    simp
  rw [hmodify, hsplit]
  simp only [occurrences_append, occurrences_cons, hcount, Prod.mk.injEq]
  split_ifs <;> first | omega | simp_all

theorem DeliveredOnce.reportDelivery (h : DeliveredOnce s) (peer : Peer) (id : MsgId) :
    DeliveredOnce (s.reportDelivery peer id) := by
  rw [DeliveryReports.reportDelivery]
  split
  · next hnone =>
    have hperm := FlatMap.emplace_entries_perm [id] hnone
    have hfilled : ∀ e ∈ (s.pendingDeliveryReport.emplace peer [id]).entries, e.2 ≠ [] := by
      intro e he
      cases List.mem_cons.mp (hperm.mem_iff.mp he) with
      | inl heq => exact heq ▸ List.cons_ne_nil id []
      | inr hmem => exact h.filled e hmem
    refine ⟨⟨fun p i => ?_, h.size, h.single, h.marks, h.sent, hfilled⟩, fun _ _ =>
      .inr (Nat.succ_pos _)⟩
    have hcount := h.accounted p i
    dsimp only
    rw [occurrences_perm hperm, occurrences_cons, List.count_cons, hcount]
    simp only [beq_iff_eq, Prod.mk.injEq, List.count_singleton]
    split_ifs <;> first | omega | simp_all
  · next ids hsome =>
    split
    · exact h
    · have hfilled : ∀ e ∈ (s.pendingDeliveryReport.modify peer
          fun ids => ids.orderedInsert (· ≤ ·) id).entries, e.2 ≠ [] := by
        obtain ⟨front, back, hsplit, hmodify⟩ :=
          FlatMap.modify_split (fun ids => ids.orderedInsert (· ≤ ·) id) hsome
        have hold := h.filled
        rw [hsplit, List.forall_mem_append, List.forall_mem_cons] at hold
        rw [hmodify, List.forall_mem_append, List.forall_mem_cons]
        refine ⟨hold.1, fun hnil => ?_, hold.2.2⟩
        have hmem : id ∈ ids.orderedInsert (· ≤ ·) id := by simp
        have hempty : ids.orderedInsert (· ≤ ·) id = [] := hnil
        rw [hempty] at hmem
        cases hmem
      refine ⟨⟨fun p i => ?_, h.size, h.single, h.marks, h.sent, hfilled⟩, fun _ _ =>
        .inr (Nat.succ_pos _)⟩
      have hcount := h.accounted p i
      dsimp only
      rw [occurrences_insert _ hsome, List.count_cons, hcount]
      simp only [beq_iff_eq]
      omega

/-- An undisturbed call keeps the reports accounted, and leaves only peers with a request
in flight pending. -/
theorem Accounted.reportPendingDeliveries (h : Accounted s)
    (hundisturbed : Undisturbed dangling s.deliveryReportSent s.pendingDeliveryReport.entries) :
    DeliveredOnce (s.reportPendingDeliveries dangling) := by
  have hspec := batch_spec hundisturbed
  have hmarks (peer : Peer) :
      peer ∈ (batch dangling s.deliveryReportSent s.pendingDeliveryReport.entries).sent ↔
        peer ∈ (s.inFlight ++ (batch dangling s.deliveryReportSent
          s.pendingDeliveryReport.entries).requests).map ReportRequest.peer := by
    rw [List.map_append, List.mem_append, hspec.marks, h.marks]
  refine ⟨⟨fun peer id => ?_, ?_, ?_, hmarks, ?_, hspec.filled h.filled⟩, fun e he =>
    .inl (hspec.kept e he)⟩
  · have hcount := h.accounted peer id
    have hbatch := hspec.accounted peer id
    simp only [DeliveryReports.reportPendingDeliveries, sentPairs, List.map_append,
      occurrences_append] at hcount hbatch ⊢
    omega
  · rw [DeliveryReports.reportPendingDeliveries, List.forall_mem_append]
    exact ⟨h.size, hspec.size h.filled⟩
  · rw [DeliveryReports.reportPendingDeliveries, List.map_append, List.nodup_append]
    refine ⟨h.single, hspec.single, ?_⟩
    rintro peer hold _ hnew rfl
    obtain ⟨r, hr, rfl⟩ := List.mem_map.mp hnew
    exact hspec.fresh r hr ((h.marks r.peer).mpr hold)
  · rw [DeliveryReports.reportPendingDeliveries, List.forall_mem_append]
    exact ⟨fun r hr => List.mem_append_left _ (h.sent r hr), fun r hr => List.mem_append_right _ hr⟩

theorem mem_erase_peers {r : ReportRequest Peer MsgId} {l : List (ReportRequest Peer MsgId)}
    (hnodup : (l.map ReportRequest.peer).Nodup) (hr : r ∈ l) (peer : Peer) :
    peer ∈ (l.erase r).map ReportRequest.peer ↔ peer ∈ l.map ReportRequest.peer ∧ peer ≠ r.peer := by
  have hperm := (List.perm_cons_erase hr).map ReportRequest.peer
  rw [List.map_cons] at hperm
  have hnotMem := (List.nodup_cons.mp (hperm.nodup_iff.mp hnodup)).1
  rw [hperm.mem_iff, List.mem_cons]
  constructor
  · exact fun hmem => ⟨.inr hmem, fun heq => hnotMem (heq ▸ hmem)⟩
  · rintro ⟨heq | hmem, hne⟩
    · exact absurd heq hne
    · exact hmem

/-- The request is taken out, with its mark. -/
theorem Accounted.take {r : ReportRequest Peer MsgId} (h : Accounted s) (hr : r ∈ s.inFlight) :
    Accounted { s with
      inFlight := s.inFlight.erase r
      deliveryReportSent := s.deliveryReportSent.filter (· ≠ r.peer) } := by
  refine ⟨h.accounted, h.size, ?_, fun peer => ?_, ?_, h.filled⟩
  · exact h.single.sublist (List.erase_sublist.map _)
  · rw [mem_erase_peers h.single hr, List.mem_filter, h.marks]
    simp
  · exact fun r' hr' => h.sent r' (List.mem_of_mem_erase hr')

theorem DeliveredOnce.step {a : Action Peer MsgId} (h : DeliveredOnce s)
    (hundisturbed : UndisturbedStep dangling s a) (hs : step dangling s a = some s') :
    DeliveredOnce s' := by
  cases a with
  | reportDelivery peer id =>
    cases hs
    exact h.reportDelivery peer id
  | posted =>
    rw [DeliveryReports.step] at hs
    split at hs
    · cases hs
    · cases hs
      have hsame : Accounted { s with posted := s.posted - 1 } :=
        ⟨h.accounted, h.size, h.single, h.marks, h.sent, h.filled⟩
      exact hsame.reportPendingDeliveries hundisturbed
  | finish r =>
    rw [DeliveryReports.step] at hs
    split at hs
    · next hr =>
      cases hs
      have htaken := h.toAccounted.take hr
      simp only [finish]
      split
      · next hpending => exact htaken.reportPendingDeliveries (hundisturbed hpending)
      · next hpending =>
        refine ⟨htaken, fun e he => (h.progress e he).imp_left fun hmark => ?_⟩
        refine List.mem_filter.mpr ⟨hmark, decide_eq_true fun heq => hpending ?_⟩
        exact heq ▸ FlatMap.contains_iff.mpr ⟨e.2, FlatMap.mem_entries_iff.mp he⟩
    · cases hs

/-- **In every undisturbed run** each accepted id is pending or sent once, to its own
peer. -/
theorem deliveredOnce_of_reached
    (h : (system Peer MsgId dangling).Reached (UndisturbedStep dangling) s) : DeliveredOnce s := by
  refine h.invariant (fun s hs => ?_) fun s a s' hinv hok hs => hinv.step hok hs
  have hempty : s = {} := hs
  subst hempty
  exact ⟨⟨fun _ _ => rfl, by simp, List.nodup_nil, by simp, by simp, by simp⟩, by simp⟩

/-! ## Everything is sent -/

/-- How many events are left at most: the requests in flight, the posted calls, and one
request with its end for each pending id. -/
def eventsLeft (s : DeliveryReports Peer MsgId) : Nat :=
  2 * (s.pendingDeliveryReport.entries.map fun e => e.2.length).sum + s.inFlight.length + s.posted

theorem eventsLeft_reportPendingDeliveries (h : Accounted s)
    (hundisturbed : Undisturbed dangling s.deliveryReportSent s.pendingDeliveryReport.entries) :
    eventsLeft (s.reportPendingDeliveries dangling) ≤ eventsLeft s := by
  have hspec := batch_spec hundisturbed
  have hsum := hspec.shrinks
  have hrequests {l : List (ReportRequest Peer MsgId)} (hl : ∀ r ∈ l, 1 ≤ r.ids.length) :
      l.length ≤ (l.map fun r => r.ids.length).sum := by
    induction l with
    | nil => exact Nat.le_refl 0
    | cons r l ih =>
      rw [List.forall_mem_cons] at hl
      have hrest := ih hl.2
      have hone := hl.1
      simp only [List.length_cons, List.map_cons, List.sum_cons]
      omega
  have hlength := hrequests fun r hr => (hspec.size h.filled r hr).1
  simp only [eventsLeft, DeliveryReports.reportPendingDeliveries, List.length_append]
  omega

/-- Every event but a new report leaves fewer of them, so that all that is pending gets
sent. -/
theorem eventsLeft_lt {a : Action Peer MsgId} (h : DeliveredOnce s)
    (hundisturbed : UndisturbedStep dangling s a) (hs : step dangling s a = some s')
    (hnew : ∀ peer id, a ≠ .reportDelivery peer id) : eventsLeft s' < eventsLeft s := by
  cases a with
  | reportDelivery peer id => exact absurd rfl (hnew peer id)
  | posted =>
    rw [DeliveryReports.step] at hs
    split at hs
    · cases hs
    · next hposted =>
      cases hs
      have hsame : Accounted { s with posted := s.posted - 1 } :=
        ⟨h.accounted, h.size, h.single, h.marks, h.sent, h.filled⟩
      refine (eventsLeft_reportPendingDeliveries hsame hundisturbed).trans_lt ?_
      simp only [eventsLeft]
      omega
  | finish r =>
    rw [DeliveryReports.step] at hs
    split at hs
    · next hr =>
      cases hs
      have htaken := h.toAccounted.take hr
      have hlength := List.length_erase_of_mem hr
      have hpos := List.length_pos_of_mem hr
      simp only [finish]
      split
      · next hpending =>
        refine (eventsLeft_reportPendingDeliveries htaken (hundisturbed hpending)).trans_lt ?_
        simp only [eventsLeft]
        omega
      · simp only [eventsLeft]
        omega
    · cases hs

/-- When nothing is in flight and nothing is posted, all that was accepted was sent. -/
theorem DeliveredOnce.all_sent (h : DeliveredOnce s) (hflight : s.inFlight = [])
    (hposted : s.posted = 0) (peer : Peer) (id : MsgId) :
    s.reported.count (peer, id) = occurrences peer id (sentPairs s.requests) := by
  have hempty : s.pendingDeliveryReport.entries = [] := by
    rw [List.eq_nil_iff_forall_not_mem]
    intro e he
    have hmark := h.progress e he
    rw [h.marks, hflight, hposted] at hmark
    simp at hmark
  rw [h.accounted, hempty, occurrences_nil, Nat.zero_add]

/-! ## Two chats -/

/-- What was behind the last pair is still there. -/
def untouched : Nat → Nat := fun peer => peer

/-- After one report. -/
def oneReport : DeliveryReports Nat Nat :=
  (({} : DeliveryReports Nat Nat).reportDelivery 1 10)

theorem deliveredOnce_oneReport :
    DeliveredOnce (reportPendingDeliveries untouched { oneReport with posted := 0 }) :=
  have hreport : (system Nat Nat untouched).Reached (UndisturbedStep untouched) oneReport :=
    System.Reached.step (a := .reportDelivery 1 10) (System.Reached.init rfl) trivial rfl
  have hlast : UndisturbedStep untouched oneReport .posted := by
    intro front peer ids back hsplit _ _
    have hone : [((1 : Nat), [(10 : Nat)])] = front ++ (peer, ids) :: back := hsplit
    have hlength := congrArg List.length hone
    simp only [List.length_append, List.length_cons, List.length_nil] at hlength
    exact ⟨List.length_eq_zero_iff.mp (by omega), rfl⟩
  deliveredOnce_of_reached (System.Reached.step hreport hlast rfl)

/-- With messages of two chats pending, the first one is reported to the second chat. -/
theorem deliveredOnce_twoChats : ¬ ∀ (dangling : Nat → Nat) (s : DeliveryReports Nat Nat),
    (system Nat Nat dangling).Reachable s → DeliveredOnce s := by
  intro h
  have hfirst : (system Nat Nat untouched).Reachable oneReport :=
    System.Reached.step (a := .reportDelivery 1 10) (System.Reached.init rfl) trivial rfl
  have hsecond : (system Nat Nat untouched).Reachable (oneReport.reportDelivery 2 20) :=
    System.Reached.step (a := .reportDelivery 2 20) hfirst trivial rfl
  obtain ⟨s, hs⟩ : ∃ s, step untouched (oneReport.reportDelivery 2 20) .posted = some s := ⟨_, rfl⟩
  have hcount := (h untouched s (System.Reached.step hsecond trivial hs)).accounted 1 10
  cases hs
  exact absurd hcount (by decide)

end DeliveryReports

end Data

end MessengerClient
