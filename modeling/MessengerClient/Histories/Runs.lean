import MessengerClient.Histories.Reading

/-!
# MessengerClient.Histories.Runs

What one event keeps, and from it what holds in all runs: the maps of requests are in
step, no `Expects` and no `Assert` fails, read requests only go further, and no position
is lost.
-/

namespace MessengerClient

namespace Histories

variable {History Callback : Type} [LinearOrder History]
variable {s s' : Histories History Callback}

/-! ## One event -/

namespace Event

/-- The request is finished or cancelled. -/
def Ends (event : Event History Callback) (id : Nat) : Prop :=
  match event with
  | .finish id' => id' = id
  | .cancelRequest id' => id' = id
  | .readFinished id' _ _ _ => id' = id
  | _ => False

/-- A request to read at least as far is answered. -/
def Answers (event : Event History Callback) (s : Histories History Callback) (history : History)
    (tillId : MsgId) : Prop :=
  match event with
  | .readFinished id _ _ _ =>
      ∃ till, s.callbacks.find? id = some (history, .readInbox till) ∧ tillId ≤ till
  | _ => False

end Event

/-- What an event leads to. -/
structure Handled (s : Histories History Callback) (event : Event History Callback)
    (s' : Histories History Callback) : Prop where
  good : Good s'
  covered : ∀ h tillId, ¬ event.Answers s h tillId → s.Covered h tillId → s'.Covered h tillId
  kept : ∀ id h, ¬ event.Ends id → s.historyByRequest.find? id = some h →
    s'.historyByRequest.find? id = some h

theorem Progress.handled {event : Event History Callback} (h : Progress s s') :
    Handled s event s' where
  good := h.good
  covered _ _ _ := h.covered _ _
  kept id h' _ := h.kept id h'

theorem Keeps.handled {event : Event History Callback} {id : Nat} (hgood : Good s)
    (h : Keeps s s' (some id)) (hends : event.Ends id) : Handled s event s' where
  good := ⟨h.inv, hgood.read.of_same h.reads⟩
  covered _ _ _ hcovered := hcovered.of_same h.reads
  kept i h' hne := h.kept i h' fun heq => hne (Option.some.inj heq ▸ hends)

/-- **No `Expects` and no `Assert` fails in an event, and it keeps the invariants.** -/
theorem handle_spec (hgood : Good s) {event : Event History Callback} (henabled : s.Enabled event) :
    ∃ s', s.handle event = some s' ∧ Handled s event s' := by
  have hinv := hgood.inv
  cases event with
  | sendRequest history type =>
      exact ⟨_, rfl, (Progress.of_keeps hgood (sendRequest_keeps hinv)).handled⟩
  | finish id =>
      obtain ⟨history, hcalled⟩ := henabled
      obtain ⟨s', hs', hkeeps⟩ := finish_keeps hinv hcalled
      refine ⟨s', ?_, hkeeps.handled hgood rfl⟩
      simp only [handle, hcalled, hs']
  | cancelRequest id =>
      obtain ⟨s', hs', hkeeps⟩ := cancelRequest_keeps hinv henabled
      exact ⟨s', hs', hkeeps.handled hgood rfl⟩
  | requestDialogEntry history isCommunity callback =>
      exact ⟨_, rfl, (Progress.of_keeps hgood
        (requestDialogEntry_keeps hinv isCommunity callback)).handled⟩
  | sendDialogRequests =>
      exact ⟨_, rfl, (Progress.of_keeps hgood (sendDialogRequests_keeps hinv)).handled⟩
  | takeDialogCallbacks history =>
      exact ⟨_, rfl, (Progress.of_keeps hgood (takeDialogCallbacks_keeps hinv)).handled⟩
  | applySentRead history => exact ⟨_, rfl, (applySentRead_progress hgood).handled⟩
  | readInboxTill history tillId force view now =>
      obtain ⟨s', hs', hprogress, -⟩ := readInboxTill_progress history view now
        hgood henabled
      exact ⟨s', hs', hprogress.handled⟩
  | sendPendingReadInbox history now =>
      obtain ⟨s', hs', hprogress⟩ := sendPendingReadInbox_progress history now hgood
      exact ⟨s', hs', hprogress.handled⟩
  | readRequestsTimer now =>
      have htimer := setTimer_progress hgood none
      obtain ⟨s', hs', hprogress⟩ := sendReadRequests_progress now htimer.good
      exact ⟨s', hs', (htimer.trans hprogress).handled⟩
  | readFinished id unreadCountKnown isCommunity now =>
      obtain ⟨history, tillId, hcalled⟩ := henabled
      obtain ⟨s', hs', hanswered⟩ := readFinished_answered unreadCountKnown isCommunity now hgood
        hcalled
      refine ⟨s', ?_, hanswered.good, fun h till hne => hanswered.covered h till ?_,
        fun i h hne => hanswered.kept i h (Ne.symm hne)⟩
      · simp only [handle, hcalled, hs']
      · rintro ⟨rfl, hle⟩
        exact hne ⟨tillId, hcalled, hle⟩
  | setInboxReadTill history upTo =>
      exact ⟨_, rfl, (setInboxReadTill_progress history hgood upTo).handled⟩

/-! ## All runs -/

theorem good_init : Good ({} : Histories History Callback) where
  inv := {
    chat := fun h => {
      apart := fun id => Or.inl rfl
      asked := nofun
      pending := fun _ => rfl
      sent_caller := nofun
      postponed_caller := nofun
      owned := fun id => ⟨nofun, fun hhas => by rcases hhas with h | h <;> cases h⟩
      called := nofun
      read := nofun
      waits := nofun
      nothing_waits := fun _ => rfl
      entry := nofun }
    owner := nofun
    fresh := nofun
    fresh_called := nofun }
  read := {
    will_nonneg := fun _ => le_refl _
    sent_nonneg := fun _ => le_refl _
    will_gt := nofun
    sent_le := nofun
    before_gt := nofun
    sent_mem := fun h hne => absurd rfl hne
    called := nofun
    growing := .nil }

theorem handled_of_step {event : Event History Callback} (hgood : Good s)
    (hstep : (system History Callback).step s event s') : Handled s event s' := by
  obtain ⟨henabled, hs'⟩ := hstep
  obtain ⟨s'', hs'', hhandled⟩ := handle_spec hgood henabled
  cases hs'.symm.trans hs''
  exact hhandled

theorem good_of_reachable (h : (system History Callback).Reachable s) : Good s :=
  h.invariant (fun _ hs => hs ▸ good_init) fun _ _ _ hgood hstep =>
    (handled_of_step hgood hstep).good

/-! ## The maps of requests -/

/-- The request is in exactly one of the maps of its chat. -/
def InOneMap (s : Histories History Callback) (history : History) (id : Nat) : Prop :=
  ((s.stateOf history).sent.find? id).isSome ≠ ((s.stateOf history).postponed.find? id).isSome

/-- The containers are in step. -/
structure Consistent (s : Histories History Callback) : Prop where
  delete_alone : ∀ h id r, (s.stateOf h).sent.find? id = some r → r.type = .delete →
    ∀ id' r', (s.stateOf h).sent.find? id' = some r' → r'.type ≠ .history
  postponed_empty : ∀ h, (∀ id r, (s.stateOf h).sent.find? id = some r → r.type ≠ .delete) →
    (s.stateOf h).postponed = ∅
  historyByRequest : ∀ id h, s.historyByRequest.find? id = some h ↔
    ((s.stateOf h).sent.find? id).isSome ∨ ((s.stateOf h).postponed.find? id).isSome
  entry : ∀ h, (s.stateOf h).postponedRequestEntry →
    s.dialogRequests.contains h ∧ ∃ id r, (s.stateOf h).sent.find? id = some r ∧ r.type ≠ .history

theorem Inv.consistent (hinv : Inv s) : Consistent s where
  delete_alone h id r hr htype :=
    (hinv.chat h).waits (State.postponeHistoryRequest_iff.mpr ⟨id, r, hr, htype⟩)
  postponed_empty h hnone := by
    refine (hinv.chat h).nothing_waits fun hdelete => ?_
    obtain ⟨id, r, hr, htype⟩ := State.postponeHistoryRequest_iff.mp hdelete
    exact hnone id r hr htype
  historyByRequest id h := (hinv.chat h).owned id
  entry h hentry :=
    ⟨(hinv.chat h).asked hentry, State.postponeEntryRequest_iff.mp ((hinv.chat h).entry hentry)⟩

/-- A request of the chat is in one map, and only in one. -/
theorem Inv.inOneMap (hinv : Inv s) {history : History} {id : Nat}
    (howned : s.historyByRequest.find? id = some history) : s.InOneMap history id := by
  unfold InOneMap
  rcases ((hinv.chat history).owned id).mp howned with hsome | hsome
  · rcases (hinv.chat history).apart id with hnone | hnone
    · rw [hnone] at hsome
      cases hsome
    · rw [hsome, hnone]
      exact Bool.noConfusion
  · rcases (hinv.chat history).apart id with hnone | hnone
    · rw [hsome, hnone]
      exact Bool.noConfusion
    · rw [hnone] at hsome
      cases hsome

/-- A request is accepted under the next id. -/
theorem sendRequest_historyByRequest (s : Histories History Callback) (history : History)
    (type : RequestType) (generator : Generator) :
    (s.sendRequest history type generator).historyByRequest
      = (s.acceptRequest history).historyByRequest := by
  have hcheck (s : Histories History Callback) :
      (s.checkRequestEntry history).historyByRequest = s.historyByRequest := by
    unfold checkRequestEntry
    dsimp only
    split <;> rfl
  unfold sendRequest
  dsimp only
  split
  · rfl
  · split
    · exact hcheck _
    · exact hcheck _

/-- **History requests never overtake a deletion, and the containers are in step, in every
run: also no `Assert` fails, and a request that was accepted is in one map of its chat until
it is finished or cancelled.** -/
theorem requests_consistent (hs : (system History Callback).Reachable s) :
    Consistent s
      ∧ (∀ event, s.Enabled event → (s.handle event).isSome)
      ∧ (∀ history type generator, (s.sendRequest history type generator).historyByRequest.find?
        (s.requestAutoincrement + 1) = some history)
      ∧ ∀ history id s', s.historyByRequest.find? id = some history →
        ((system History Callback).startingAt s).Reached (fun _ event => ¬ event.Ends id) s' →
        s'.InOneMap history id := by
  have hgood := good_of_reachable hs
  refine ⟨hgood.inv.consistent, ?_, ?_, ?_⟩
  · intro event henabled
    obtain ⟨s', hs', -⟩ := handle_spec hgood henabled
    rw [hs']
    rfl
  · intro history type generator
    rw [sendRequest_historyByRequest, acceptRequest_owned hgood.inv]
    exact Or.inr ⟨rfl, rfl⟩
  · intro history id s' howned hrun
    have hkept : Good s' ∧ s'.historyByRequest.find? id = some history := by
      refine hrun.after (fun s => Good s ∧ s.historyByRequest.find? id = some history)
        ⟨hgood, howned⟩ ?_
      rintro s₁ event s₂ ⟨hgood₁, howned₁⟩ hends hstep
      have hhandled := handled_of_step hgood₁ hstep
      exact ⟨hhandled.good, hhandled.kept id history hends howned₁⟩
    exact hkept.1.inv.inOneMap hkept.2

/-- A history request that is sent, and then one to delete. -/
def overtaken : Histories Nat Unit :=
  (({} : Histories Nat Unit).sendRequest 1 .history .caller).sendRequest 1 .delete .caller

theorem overtaken_reachable : (system Nat Unit).Reachable overtaken :=
  .step (.step (.init rfl) trivial
    (a := .sendRequest 1 .history) ⟨RequestType.noConfusion, rfl⟩) trivial
    (a := .sendRequest 1 .delete) ⟨RequestType.noConfusion, rfl⟩

theorem requests_consistent_overtaken :
    Consistent overtaken ∧ overtaken.InOneMap 1 1 ∧ overtaken.InOneMap 1 2 := by
  obtain ⟨hconsistent, -, -, hmap⟩ := requests_consistent overtaken_reachable
  exact ⟨hconsistent, hmap 1 1 _ rfl (.init rfl), hmap 1 2 _ rfl (.init rfl)⟩

/-! ## Reading -/

end Histories

end MessengerClient
