import MessengerClient.Histories.Dialogs

/-!
# MessengerClient.Histories.Reading

How far a chat is read: the position that will be sent is above the one that was, every
read request goes further than all before it, and a position that is to be read is kept
until it is confirmed.
-/

namespace MessengerClient

namespace Histories

variable {History Callback : Type} [LinearOrder History]
variable {s s' s'' : Histories History Callback} {history : History}

/-! ## The invariant -/

structure ReadInv (s : Histories History Callback) : Prop where
  will_nonneg : ∀ h, 0 ≤ (s.stateOf h).willReadTill
  sent_nonneg : ∀ h, 0 ≤ (s.stateOf h).sentReadTill
  /-- What will be read is above all that was asked for. -/
  will_gt : ∀ h tillId, (h, tillId) ∈ s.readRequests → (s.stateOf h).willReadTill ≠ 0 →
    tillId < (s.stateOf h).willReadTill
  /-- The last position that was sent is the largest one, and is in the history when it is
  taken away. -/
  sent_le : ∀ h tillId, (h, tillId) ∈ s.readRequests → (s.stateOf h).sentReadTill ≠ 0 →
    tillId ≤ (s.stateOf h).sentReadTill
  before_gt : ∀ h tillId, (h, tillId) ∈ s.readRequests → (s.stateOf h).sentReadTill = 0 →
    ∃ before, s.inboxReadBefore h = some before ∧ tillId < before
  sent_mem : ∀ h, (s.stateOf h).sentReadTill ≠ 0 → (h, (s.stateOf h).sentReadTill) ∈ s.readRequests
  called : ∀ id h tillId, s.callbacks.find? id = some (h, .readInbox tillId) →
    (h, tillId) ∈ s.readRequests
  growing : s.readRequests.Pairwise fun a b => a.1 = b.1 → b.2 < a.2

/-- `willReadTill` is zero or greater than `sentReadTill`. -/
theorem ReadInv.will_gt_sent (hinv : ReadInv s) (h : History)
    (hwill : (s.stateOf h).willReadTill ≠ 0) :
    (s.stateOf h).sentReadTill < (s.stateOf h).willReadTill := by
  by_cases hsent : (s.stateOf h).sentReadTill = 0
  · rw [hsent]
    exact lt_of_le_of_ne (hinv.will_nonneg h) (Ne.symm hwill)
  · exact hinv.will_gt h _ (hinv.sent_mem h hsent) hwill

theorem ReadInv.of_same (hinv : ReadInv s) (hsame : SameReads s s') : ReadInv s' where
  will_nonneg h := by rw [hsame.will]; exact hinv.will_nonneg h
  sent_nonneg h := by rw [hsame.sent]; exact hinv.sent_nonneg h
  will_gt h tillId := by rw [hsame.will, hsame.requests]; exact hinv.will_gt h tillId
  sent_le h tillId := by rw [hsame.sent, hsame.requests]; exact hinv.sent_le h tillId
  before_gt h tillId := by
    rw [hsame.sent, hsame.requests, hsame.before]
    exact hinv.before_gt h tillId
  sent_mem h := by rw [hsame.sent, hsame.requests]; exact hinv.sent_mem h
  called id h tillId hc := by
    rw [hsame.requests]
    exact hinv.called id h tillId ((hsame.called id h tillId).mp hc)
  growing := by rw [hsame.requests]; exact hinv.growing

/-- Both invariants. -/
structure Good (s : Histories History Callback) : Prop where
  inv : Inv s
  read : ReadInv s

/-- A position is to be read, or was asked for. -/
def Covered (s : Histories History Callback) (h : History) (tillId : MsgId) : Prop :=
  tillId ≤ (s.stateOf h).willReadTill
    ∨ ∃ id till, s.callbacks.find? id = some (h, .readInbox till) ∧ tillId ≤ till

theorem Covered.of_same {h : History} {tillId : MsgId} (hcovered : s.Covered h tillId)
    (hsame : SameReads s s') : s'.Covered h tillId := by
  rcases hcovered with hwill | ⟨id, till, hcalled, hle⟩
  · left
    rw [hsame.will]
    exact hwill
  · exact Or.inr ⟨id, till, (hsame.called id h till).mpr hcalled, hle⟩

/-- A part of an event in which no request ends. -/
structure Progress (s s' : Histories History Callback) : Prop where
  good : Good s'
  covered : ∀ h tillId, s.Covered h tillId → s'.Covered h tillId
  called : ∀ id h tillId, s.callbacks.find? id = some (h, .readInbox tillId) →
    s'.callbacks.find? id = some (h, .readInbox tillId)
  kept : ∀ id h, s.historyByRequest.find? id = some h → s'.historyByRequest.find? id = some h

namespace Progress

theorem refl (hgood : Good s) : Progress s s :=
  ⟨hgood, fun _ _ h => h, fun _ _ _ h => h, fun _ _ h => h⟩

theorem trans (h₁ : Progress s s') (h₂ : Progress s' s'') : Progress s s'' where
  good := h₂.good
  covered h tillId hcovered := h₂.covered h tillId (h₁.covered h tillId hcovered)
  called id h tillId hc := h₂.called id h tillId (h₁.called id h tillId hc)
  kept id h hs := h₂.kept id h (h₁.kept id h hs)

theorem of_keeps (hgood : Good s) (hkeeps : Keeps s s' none) : Progress s s' where
  good := ⟨hkeeps.inv, hgood.read.of_same hkeeps.reads⟩
  covered _ _ hcovered := hcovered.of_same hkeeps.reads
  called id h tillId hc := (hkeeps.reads.called id h tillId).mpr hc
  kept id h hs := hkeeps.kept id h nofun hs

end Progress

/-! ## Sending a position -/

/-- The position that was to be read is asked for. -/
structure SendsRead (s s' : Histories History Callback) (history : History) : Prop where
  will_self : (s'.stateOf history).willReadTill = 0
  sent_self : (s'.stateOf history).sentReadTill = (s.stateOf history).willReadTill
  will_other : ∀ h, h ≠ history → (s'.stateOf h).willReadTill = (s.stateOf h).willReadTill
  sent_other : ∀ h, h ≠ history → (s'.stateOf h).sentReadTill = (s.stateOf h).sentReadTill
  requests : s'.readRequests = (history, (s.stateOf history).willReadTill) :: s.readRequests
  before : s'.inboxReadBefore = s.inboxReadBefore
  called_old : ∀ id h tillId, s.callbacks.find? id = some (h, .readInbox tillId) →
    s'.callbacks.find? id = some (h, .readInbox tillId)
  called_new : ∃ id,
    s'.callbacks.find? id = some (history, .readInbox (s.stateOf history).willReadTill)
  called : ∀ id h tillId, s'.callbacks.find? id = some (h, .readInbox tillId) →
    s.callbacks.find? id = some (h, .readInbox tillId)
      ∨ h = history ∧ tillId = (s.stateOf history).willReadTill

namespace SendsRead

theorem readInv (hsends : SendsRead s s' history) (hread : ReadInv s)
    (hpos : 0 < (s.stateOf history).willReadTill) : ReadInv s' where
  will_nonneg h := by
    by_cases hne : h = history
    · rw [hne, hsends.will_self]
    · rw [hsends.will_other h hne]
      exact hread.will_nonneg h
  sent_nonneg h := by
    by_cases hne : h = history
    · rw [hne, hsends.sent_self]
      exact hread.will_nonneg history
    · rw [hsends.sent_other h hne]
      exact hread.sent_nonneg h
  will_gt h tillId hmem hwill := by
    by_cases hne : h = history
    · rw [hne] at hwill
      exact absurd hsends.will_self hwill
    · rw [hsends.will_other h hne] at hwill ⊢
      rw [hsends.requests] at hmem
      rcases List.mem_cons.mp hmem with heq | hmem
      · exact absurd (Prod.mk.inj heq).1 hne
      · exact hread.will_gt h tillId hmem hwill
  sent_le h tillId hmem hsent := by
    rw [hsends.requests] at hmem
    by_cases hne : h = history
    · subst hne
      rw [hsends.sent_self]
      rcases List.mem_cons.mp hmem with heq | hmem
      · exact le_of_eq (Prod.mk.inj heq).2
      · exact le_of_lt (hread.will_gt h tillId hmem hpos.ne')
    · rw [hsends.sent_other h hne] at hsent ⊢
      rcases List.mem_cons.mp hmem with heq | hmem
      · exact absurd (Prod.mk.inj heq).1 hne
      · exact hread.sent_le h tillId hmem hsent
  before_gt h tillId hmem hsent := by
    rw [hsends.requests] at hmem
    by_cases hne : h = history
    · rw [hne, hsends.sent_self] at hsent
      exact absurd hsent hpos.ne'
    · rw [hsends.sent_other h hne] at hsent
      rw [hsends.before]
      rcases List.mem_cons.mp hmem with heq | hmem
      · exact absurd (Prod.mk.inj heq).1 hne
      · exact hread.before_gt h tillId hmem hsent
  sent_mem h hsent := by
    rw [hsends.requests]
    by_cases hne : h = history
    · rw [hne, hsends.sent_self]
      exact List.mem_cons_self
    · rw [hsends.sent_other h hne] at hsent ⊢
      exact List.mem_cons_of_mem _ (hread.sent_mem h hsent)
  called id h tillId hc := by
    rw [hsends.requests]
    rcases hsends.called id h tillId hc with hc | ⟨rfl, rfl⟩
    · exact List.mem_cons_of_mem _ (hread.called id h tillId hc)
    · exact List.mem_cons_self
  growing := by
    rw [hsends.requests, List.pairwise_cons]
    refine ⟨?_, hread.growing⟩
    rintro ⟨h, tillId⟩ hmem rfl
    exact hread.will_gt _ tillId hmem hpos.ne'

theorem covered (hsends : SendsRead s s' history) {h : History} {tillId : MsgId}
    (hcovered : s.Covered h tillId) : s'.Covered h tillId := by
  rcases hcovered with hwill | ⟨id, till, hc, hle⟩
  · by_cases hne : h = history
    · subst hne
      obtain ⟨id, hc⟩ := hsends.called_new
      exact Or.inr ⟨id, _, hc, hwill⟩
    · left
      rw [hsends.will_other h hne]
      exact hwill
  · exact Or.inr ⟨id, till, hsends.called_old id h till hc, hle⟩

end SendsRead

/-- **The `Expects` holds, and the request goes further than all before it.** -/
theorem sendReadRequest_progress (hgood : Good s)
    (hwill : (s.stateOf history).willReadTill ≠ 0) :
    ∃ s', s.sendReadRequest history (s.stateOf history) = some s' ∧ Progress s s' := by
  have hlt := hgood.read.will_gt_sent history hwill
  have hpos : 0 < (s.stateOf history).willReadTill :=
    lt_of_le_of_ne (hgood.read.will_nonneg history) (Ne.symm hwill)
  have hread := hgood.read
  unfold sendReadRequest
  rw [if_pos hlt]
  -- The position is taken before the request is sent.
  obtain ⟨s₁, hs₁⟩ : ∃ s₁, s₁ = s.setState history { s.stateOf history with
      sentReadTill := (s.stateOf history).willReadTill
      willReadTill := 0
      willReadWhen := 0
      sentReadDone := false } := ⟨_, rfl⟩
  have hinv₁ : Inv s₁ := hs₁ ▸ hgood.inv.setState rfl rfl rfl
  obtain ⟨s', hs', hinv', hreads, howned⟩ := sendGenerated_keeps history .readInbox
    (.readInbox (s.stateOf history).willReadTill) hinv₁
    RequestType.noConfusion (fun _ _ => rfl) RequestType.noConfusion
  rw [← hs₁]
  refine ⟨s', congrArg some hs', ?_⟩
  have hcalled := sendGenerated_callbacks history .readInbox
    (.readInbox (s.stateOf history).willReadTill) hinv₁
  have hfresh := hinv₁.next_fresh.2
  have hself : (s₁.sendGenerated history .readInbox
      (.readInbox (s.stateOf history).willReadTill)).stateOf history
        = { (s₁.sendGenerated history .readInbox
            (.readInbox (s.stateOf history).willReadTill)).stateOf history with
          sentReadTill := (s.stateOf history).willReadTill
          willReadTill := 0 } := by
    rw [sendGenerated_state, hs₁, stateOf_setState_self]
  have hother : ∀ h, h ≠ history → (s₁.sendGenerated history .readInbox
      (.readInbox (s.stateOf history).willReadTill)).stateOf h = s.stateOf h := fun h hne => by
    rw [sendGenerated, stateOf_setState_ne hne, hs₁]
    exact stateOf_setState_ne hne
  have hrequests : (s₁.sendGenerated history .readInbox
      (.readInbox (s.stateOf history).willReadTill)).readRequests
        = (history, (s.stateOf history).willReadTill) :: s.readRequests := by
    rw [hs₁]
    rfl
  have hbefore : (s₁.sendGenerated history .readInbox
      (.readInbox (s.stateOf history).willReadTill)).inboxReadBefore = s.inboxReadBefore := by
    rw [hs₁]
    rfl
  have hcallbacks₁ : s₁.callbacks = s.callbacks := by
    rw [hs₁]
    rfl
  generalize s₁.sendGenerated history .readInbox
    (.readInbox (s.stateOf history).willReadTill) = s₂ at *
  rw [hcallbacks₁] at hcalled hfresh
  have hsends : SendsRead s s₂ history := by
    refine ⟨by rw [hself], by rw [hself], fun h hne => by rw [hother h hne],
      fun h hne => by rw [hother h hne], hrequests, hbefore, ?_, ?_, ?_⟩
    · intro id h tillId hc
      rw [hcalled, if_neg, hc]
      rintro rfl
      cases hfresh.symm.trans hc
    · exact ⟨s₁.requestAutoincrement + 1, by rw [hcalled, if_pos rfl]⟩
    · intro id h tillId hc
      rw [hcalled] at hc
      split at hc
      · cases hc
        exact Or.inr ⟨rfl, rfl⟩
      · exact Or.inl hc
  refine ⟨⟨hinv', (hsends.readInv hread hpos).of_same hreads⟩, ?_,
    fun id h tillId hc => (hreads.called id h tillId).mpr (hsends.called_old id h tillId hc), ?_⟩
  · exact fun h tillId hcovered => (hsends.covered hcovered).of_same hreads
  · intro id h hs
    rw [howned, acceptRequest_owned hinv₁, hs₁]
    exact Or.inl hs

theorem visitReadRequest_progress {acc : Histories History Callback × Option Int} (now : Int)
    (hgood : Good acc.1) (h : History) :
    ∃ acc', visitReadRequest now acc h = some acc' ∧ Progress acc.1 acc'.1 := by
  unfold visitReadRequest
  dsimp only
  split
  · exact ⟨acc, rfl, .refl hgood⟩
  · next hwill =>
      split
      · obtain ⟨s', hs', hprogress⟩ := sendReadRequest_progress hgood hwill
        exact ⟨(s', acc.2), by rw [hs']; rfl, hprogress⟩
      · split
        · exact ⟨_, rfl, .refl hgood⟩
        · exact ⟨acc, rfl, .refl hgood⟩

theorem visitReadRequests_progress (now : Int) (keys : List History)
    (acc : Histories History Callback × Option Int) (hgood : Good acc.1) :
    ∃ acc', keys.foldlM (visitReadRequest now) acc = some acc' ∧ Progress acc.1 acc'.1 := by
  induction keys generalizing acc with
  | nil => exact ⟨acc, rfl, .refl hgood⟩
  | cons h keys ih =>
      obtain ⟨acc₁, hvisit, hprogress₁⟩ := visitReadRequest_progress now hgood h
      obtain ⟨acc₂, hrest, hprogress₂⟩ := ih acc₁ hprogress₁.good
      refine ⟨acc₂, ?_, hprogress₁.trans hprogress₂⟩
      rw [List.foldlM_cons, hvisit]
      exact hrest

/-- The timer is nothing that the invariants speak of. -/
theorem setTimer_progress (hgood : Good s) (timer : Option Int) :
    Progress s { s with readRequestsTimer := timer } where
  good := {
    inv := {
      chat := fun h => (hgood.inv.chat h).of_maps rfl rfl rfl rfl (hgood.inv.chat h).asked
        (hgood.inv.chat h).pending (hgood.inv.chat h).entry
      owner := hgood.inv.owner
      fresh := hgood.inv.fresh
      fresh_called := hgood.inv.fresh_called }
    read := hgood.read.of_same ⟨fun _ => rfl, fun _ => rfl, rfl, rfl, fun _ _ _ => Iff.rfl⟩ }
  covered _ _ h := h
  called _ _ _ h := h
  kept _ _ h := h

theorem sendReadRequests_progress (now : Int) (hgood : Good s) :
    ∃ s', s.sendReadRequests now = some s' ∧ Progress s s' := by
  unfold sendReadRequests
  split
  · exact ⟨s, rfl, .refl hgood⟩
  · obtain ⟨acc, hvisit, hprogress⟩ := visitReadRequests_progress now s.states.keys (s, none)
      hgood
    refine ⟨{ acc.1 with readRequestsTimer := acc.2 }, ?_,
      hprogress.trans (setTimer_progress hprogress.good acc.2)⟩
    rw [hvisit]
    rfl

/-- A chat in which a time or a mark is changed. -/
theorem setState_progress (history : History) (state : State) (hgood : Good s)
    (hsent : state.sent = (s.stateOf history).sent)
    (hpostponed : state.postponed = (s.stateOf history).postponed)
    (hentry : state.postponedRequestEntry = (s.stateOf history).postponedRequestEntry)
    (hwill : state.willReadTill = (s.stateOf history).willReadTill)
    (hsentTill : state.sentReadTill = (s.stateOf history).sentReadTill) :
    Progress s (s.setState history state) :=
  .of_keeps hgood ⟨hgood.inv.setState hsent hpostponed hentry,
    .of_ids history (fun h hne => stateOf_setState_ne hne) (by rw [stateOf_setState_self, hwill])
      (by rw [stateOf_setState_self, hsentTill]) rfl rfl rfl, fun _ _ _ h => h⟩

theorem sendPendingReadInbox_progress (history : History) (now : Int) (hgood : Good s) :
    ∃ s', s.sendPendingReadInbox history now = some s' ∧ Progress s s' := by
  unfold sendPendingReadInbox
  cases hlookup : s.lookup history with
  | none => exact ⟨s, rfl, .refl hgood⟩
  | some state =>
      have hstate := stateOf_of_lookup hlookup
      dsimp only
      split
      · have hprogress := setState_progress history
          { state with willReadWhen := 0 } hgood (by rw [hstate]) (by rw [hstate])
          (by rw [hstate]) (by rw [hstate]) (by rw [hstate])
        obtain ⟨s', hs', hprogress'⟩ := sendReadRequests_progress now hprogress.good
        exact ⟨s', hs', hprogress.trans hprogress'⟩
      · exact ⟨s, rfl, .refl hgood⟩

/-! ## A new position -/

/-- A history is read further. -/
theorem setInboxReadTill_progress (history : History) (hgood : Good s) (upTo : MsgId) :
    Progress s (s.setInboxReadTill history upTo) where
  good := {
    inv := {
      chat := fun h => (hgood.inv.chat h).of_maps rfl rfl rfl rfl (hgood.inv.chat h).asked
        (hgood.inv.chat h).pending (hgood.inv.chat h).entry
      owner := hgood.inv.owner
      fresh := hgood.inv.fresh
      fresh_called := hgood.inv.fresh_called }
    read := { hgood.read with
      before_gt := by
        intro h tillId hmem hsent
        obtain ⟨before, hbefore, hlt⟩ := hgood.read.before_gt h tillId hmem hsent
        show ∃ b, Function.update s.inboxReadBefore history _ h = some b ∧ tillId < b
        by_cases hne : h = history
        · subst hne
          rw [Function.update_self, hbefore]
          exact ⟨_, rfl, lt_of_lt_of_le hlt (le_max_left _ _)⟩
        · rw [Function.update_of_ne hne]
          exact ⟨before, hbefore, hlt⟩ } }
  covered _ _ h := h
  called _ _ _ h := h
  kept _ _ h := h

/-- What may be read further: a position that is above all that were asked for, and above
what is to be read. -/
theorem setWill_progress (when : Int) (hgood : Good s) {tillId : MsgId} (hpos : 0 < tillId)
    (hwill : (s.stateOf history).willReadTill < tillId)
    (hgt : ∀ till, (history, till) ∈ s.readRequests → till < tillId) :
    Progress s (s.setState history { s.stateOf history with
        willReadTill := tillId
        willReadWhen := when })
      ∧ (s.setState history { s.stateOf history with
        willReadTill := tillId
        willReadWhen := when }).Covered history tillId := by
  have hother : ∀ h, h ≠ history → (s.setState history { s.stateOf history with
      willReadTill := tillId
      willReadWhen := when }).stateOf h = s.stateOf h := fun h hne => stateOf_setState_ne hne
  have hwill' : ((s.setState history { s.stateOf history with
      willReadTill := tillId
      willReadWhen := when }).stateOf history).willReadTill = tillId := by
    rw [stateOf_setState_self]
  have hsent : ∀ h, ((s.setState history { s.stateOf history with
      willReadTill := tillId
      willReadWhen := when }).stateOf h).sentReadTill = (s.stateOf h).sentReadTill := fun h => by
    by_cases hne : h = history
    · rw [hne, stateOf_setState_self]
    · rw [hother h hne]
  have hread := hgood.read
  refine ⟨⟨⟨hgood.inv.setState rfl rfl rfl, ?_⟩, ?_, fun _ _ _ h => h, fun _ _ h => h⟩,
        Or.inl (le_of_eq hwill'.symm)⟩
  · exact {
      will_nonneg := by
        intro h
        by_cases hne : h = history
        · rw [hne, hwill']
          exact hpos.le
        · rw [hother h hne]
          exact hread.will_nonneg h
      sent_nonneg := fun h => (hsent h).symm ▸ hread.sent_nonneg h
      will_gt := by
        intro h till hmem hne'
        by_cases hne : h = history
        · subst hne
          rw [hwill']
          exact hgt till hmem
        · rw [hother h hne] at hne' ⊢
          exact hread.will_gt h till hmem hne'
      sent_le := by
        intro h till
        rw [hsent]
        exact hread.sent_le h till
      before_gt := by
        intro h till
        rw [hsent]
        exact hread.before_gt h till
      sent_mem := by
        intro h
        rw [hsent]
        exact hread.sent_mem h
      called := hread.called
      growing := hread.growing }
  · rintro h till (hle | hcalled)
    · left
      by_cases hne : h = history
      · subst hne
        rw [hwill']
        exact hle.trans hwill.le
      · rw [hother h hne]
        exact hle
    · exact Or.inr hcalled

theorem willRead_progress {tillId : MsgId} (force : Bool) (view : UnreadView) (now : Int)
    (hgood : Good s) (hpos : 0 < tillId) (hwill : (s.stateOf history).willReadTill < tillId)
    (hgt : ∀ till, (history, till) ∈ s.readRequests → till < tillId) :
    ∃ s', s.willRead history tillId force view now = some s' ∧ Progress s s'
      ∧ s'.Covered history tillId := by
  have hset := fun when => setWill_progress when hgood hpos hwill hgt
  have hread (s' : Histories History Callback) (hprogress : Progress s s')
      (hcovered : s'.Covered history tillId) : ∃ s'', (if view.stillUnread.isSome then
          s'.setInboxReadTill history tillId else s') = s'' ∧ Progress s s''
        ∧ s''.Covered history tillId := by
    split
    · have hprogress' := setInboxReadTill_progress history hprogress.good tillId
      exact ⟨_, rfl, hprogress.trans hprogress', hprogress'.covered _ _ hcovered⟩
    · exact ⟨s', rfl, hprogress, hcovered⟩
  unfold willRead
  dsimp only
  split
  · obtain ⟨s₁, hs₁, hprogress₁⟩ := sendReadRequests_progress now (hset 0).1.good
    obtain ⟨s₂, hs₂, hprogress₂, hcovered⟩ := hread s₁ ((hset 0).1.trans hprogress₁)
      (hprogress₁.covered _ _ (hset 0).2)
    refine ⟨s₂, ?_, hprogress₂, hcovered⟩
    rw [hs₁, ← hs₂]
    rfl
  · split
    · obtain ⟨hprogress₁, hcovered₁⟩ := hset (now + kReadRequestTimeout)
      have htimer := setTimer_progress hprogress₁.good
        (s.readRequestsTimer.or (some (now + kReadRequestTimeout)))
      obtain ⟨s₂, hs₂, hprogress₂, hcovered⟩ := hread _ (hprogress₁.trans htimer)
        (htimer.covered _ _ hcovered₁)
      refine ⟨s₂, ?_, hprogress₂, hcovered⟩
      rw [← hs₂]
      rfl
    · obtain ⟨s₂, hs₂, hprogress₂, hcovered⟩ := hread _ (hset _).1 (hset _).2
      refine ⟨s₂, ?_, hprogress₂, hcovered⟩
      rw [← hs₂]
      rfl

/-- An early return at most sends what was to be sent. -/
theorem earlyReturn_progress {tillId : MsgId} {force : Bool} {view : UnreadView} {now : Int}
    {result : Option (Histories History Callback)} (hgood : Good s)
    (h : s.earlyReturn history tillId force view now = some result) :
    ∃ s', result = some s' ∧ Progress s s' := by
  unfold earlyReturn at h
  dsimp only at h
  split at h
  · cases h
    exact ⟨s, rfl, .refl hgood⟩
  · split at h
    · cases h
      exact ⟨s, rfl, .refl hgood⟩
    · split at h
      · cases h
        exact ⟨s, rfl, .refl hgood⟩
      · split at h
        · cases h
          split
          · exact sendPendingReadInbox_progress history now hgood
          · exact ⟨s, rfl, .refl hgood⟩
        · split at h
          · cases h
            exact ⟨s, rfl, .refl hgood⟩
          · split at h
            · cases h
              exact ⟨_, rfl, setInboxReadTill_progress history hgood tillId⟩
            · cases h

/-- A field of the state, when there is one. -/
theorem stateOf_lt_of_lookup {f : State → MsgId} {tillId : MsgId} (hdefault : f {} = 0)
    (hpos : 0 < tillId) (h : ¬ (s.lookup history).any fun state => tillId ≤ f state) :
    f (s.stateOf history) < tillId := by
  cases hlookup : s.lookup history with
  | none =>
      rw [stateOf, hlookup, Option.getD_none, hdefault]
      exact hpos
  | some state =>
      rw [stateOf_of_lookup hlookup]
      rw [hlookup, Option.any_some, decide_eq_true_eq] at h
      exact not_le.mp h

/-- **What gets past the early returns is a position above all before it.** -/
theorem above_of_earlyReturn {tillId : MsgId} {force : Bool} {view : UnreadView} {now : Int}
    (hgood : Good s) (hserver : isServerMsgId tillId ∨ (tillId = 0 ∧ !force))
    (h : s.earlyReturn history tillId force view now = none) :
    0 < tillId ∧ (s.stateOf history).willReadTill < tillId
      ∧ ∀ till, (history, till) ∈ s.readRequests → till < tillId := by
  have hread := hgood.read
  unfold earlyReturn at h
  dsimp only at h
  split at h
  · cases h
  · next hneeds =>
      have hpos : 0 < tillId := by
        rcases hserver with hserver | ⟨-, hforce⟩
        · exact pos_of_isServerMsgId hserver
        · by_contra hle
          exact hneeds ⟨fun hneed => hle (pos_of_isServerMsgId hneed.1), hforce⟩
      split at h
      · cases h
      · split at h
        · cases h
        · next hsent =>
            split at h
            · cases h
            · next hwill =>
                have hsent' := stateOf_lt_of_lookup (f := State.sentReadTill) rfl hpos hsent
                have hwill' := stateOf_lt_of_lookup (f := State.willReadTill) rfl hpos hwill
                refine ⟨hpos, hwill', fun till hmem => ?_⟩
                split at h
                · cases h
                · next hpending =>
                    by_cases hneed : s.needsRequest history tillId
                    · by_cases hzero : (s.stateOf history).sentReadTill = 0
                      · obtain ⟨before, hbefore, hlt⟩ := hread.before_gt history till hmem hzero
                        have hle := hneed.2
                        rw [hbefore, Option.getD_some] at hle
                        exact lt_of_lt_of_le hlt hle
                      · exact lt_of_le_of_lt (hread.sent_le history till hmem hzero) hsent'
                    · have hne : (s.stateOf history).willReadTill ≠ 0 := by
                        intro hzero
                        refine hpending ⟨hneed, ?_⟩
                        cases hlookup : s.lookup history with
                        | none => rfl
                        | some state =>
                            rw [stateOf_of_lookup hlookup] at hzero
                            simp [hzero]
                      exact lt_trans (hread.will_gt history till hmem hne) hwill'

theorem readInboxTill_progress (history : History) {tillId : MsgId} {force : Bool}
    (view : UnreadView) (now : Int) (hgood : Good s)
    (hserver : isServerMsgId tillId ∨ (tillId = 0 ∧ !force)) :
    ∃ s', s.readInboxTill history tillId force view now = some s' ∧ Progress s s'
      ∧ (s.earlyReturn history tillId force view now = none → s'.Covered history tillId) := by
  unfold readInboxTill
  cases hearly : s.earlyReturn history tillId force view now with
  | some result =>
      obtain ⟨s', hs', hprogress⟩ := earlyReturn_progress hgood hearly
      exact ⟨s', hs', hprogress, nofun⟩
  | none =>
      obtain ⟨hpos, hwill, hgt⟩ := above_of_earlyReturn hgood hserver hearly
      obtain ⟨s', hs', hprogress, hcovered⟩ := willRead_progress force view now hgood hpos hwill hgt
      exact ⟨s', hs', hprogress, fun _ => hcovered⟩

/-! ## The answers -/

/-- A position that was sent is taken away, once the history is read as far. -/
theorem clearSent_progress (history : History) (done : Bool) {before : MsgId} (hgood : Good s)
    (hbefore : s.inboxReadBefore history = some before)
    (hlt : (s.stateOf history).sentReadTill < before) :
    Progress s (s.setState history { s.stateOf history with
      sentReadTill := 0
      sentReadDone := done }) := by
  have hother : ∀ h, h ≠ history → (s.setState history { s.stateOf history with
      sentReadTill := 0
      sentReadDone := done }).stateOf h = s.stateOf h := fun h hne => stateOf_setState_ne hne
  have hsent : ((s.setState history { s.stateOf history with
      sentReadTill := 0
      sentReadDone := done }).stateOf history).sentReadTill = 0 := by
    rw [stateOf_setState_self]
  have hwill : ∀ h, ((s.setState history { s.stateOf history with
      sentReadTill := 0
      sentReadDone := done }).stateOf h).willReadTill = (s.stateOf h).willReadTill := fun h => by
    by_cases hne : h = history
    · rw [hne, stateOf_setState_self]
    · rw [hother h hne]
  have hread := hgood.read
  refine ⟨⟨hgood.inv.setState rfl rfl rfl, ?_⟩, ?_, fun _ _ _ h => h, fun _ _ h => h⟩
  · exact {
      will_nonneg := fun h => (hwill h).symm ▸ hread.will_nonneg h
      sent_nonneg := by
        intro h
        by_cases hne : h = history
        · rw [hne, hsent]
        · rw [hother h hne]
          exact hread.sent_nonneg h
      will_gt := by
        intro h till
        rw [hwill]
        exact hread.will_gt h till
      sent_le := by
        intro h till hmem hne'
        by_cases hne : h = history
        · subst hne
          exact absurd hsent hne'
        · rw [hother h hne] at hne' ⊢
          exact hread.sent_le h till hmem hne'
      before_gt := by
        intro h till hmem hzero
        by_cases hne : h = history
        · subst hne
          by_cases hold : (s.stateOf h).sentReadTill = 0
          · exact hread.before_gt h till hmem hold
          · exact ⟨before, hbefore, lt_of_le_of_lt (hread.sent_le h till hmem hold) hlt⟩
        · rw [hother h hne] at hzero
          exact hread.before_gt h till hmem hzero
      sent_mem := by
        intro h hne'
        by_cases hne : h = history
        · subst hne
          exact absurd hsent hne'
        · rw [hother h hne] at hne' ⊢
          exact hread.sent_mem h hne'
      called := hread.called
      growing := hread.growing }
  · rintro h till (hle | hcalled)
    · left
      rw [hwill]
      exact hle
    · exact Or.inr hcalled

/-- A history is read as far as it is told. -/
theorem lt_setInboxReadTill (s : Histories History Callback) (history : History) (upTo : MsgId) :
    ∃ before, (s.setInboxReadTill history upTo).inboxReadBefore history = some before
      ∧ upTo < before := by
  refine ⟨_, Function.update_self .., ?_⟩
  cases s.inboxReadBefore history with
  | none => exact lt_add_one upTo
  | some before => exact lt_of_lt_of_le (lt_add_one upTo) (le_max_right _ _)

theorem applySentRead_progress (hgood : Good s) : Progress s (s.applySentRead history) := by
  unfold applySentRead
  dsimp only
  split
  · have hraised := setInboxReadTill_progress history hgood
      (s.stateOf history).sentReadTill
    obtain ⟨before, hbefore, hlt⟩ :=
      lt_setInboxReadTill s history (s.stateOf history).sentReadTill
    have hcleared := clearSent_progress history (s.stateOf history).sentReadDone
      hraised.good hbefore hlt
    exact (hraised.trans hcleared).trans
      (.of_keeps hcleared.good (checkEmptyState_keeps hcleared.good.inv))
  · exact .refl hgood

/-- What an answer to a read request leads to. -/
structure Answered (s s' : Histories History Callback) (id : Nat) (history : History)
    (till : MsgId) : Prop where
  good : Good s'
  covered : ∀ h tillId, ¬ (h = history ∧ tillId ≤ till) → s.Covered h tillId → s'.Covered h tillId
  kept : ∀ i h, i ≠ id → s.historyByRequest.find? i = some h →
    s'.historyByRequest.find? i = some h

/-- **The `Assert` holds**: a position that is not the one that was confirmed is a larger one. -/
theorem confirmRead_progress {tillId : MsgId} (unreadCountKnown isCommunity : Bool)
    (hgood : Good s) (hmem : (history, tillId) ∈ s.readRequests) :
    ∃ s', s.confirmRead history (s.stateOf history) tillId unreadCountKnown isCommunity = some s'
      ∧ Progress s s' := by
  unfold confirmRead
  split
  · next hsame =>
      split
      · have hdone := setState_progress history
          { s.stateOf history with sentReadDone := true } hgood rfl rfl rfl rfl rfl
        exact ⟨_, rfl, hdone.trans (.of_keeps hdone.good
          (requestDialogEntry_keeps hdone.good.inv isCommunity none))⟩
      · next hread =>
          rw [Bool.or_eq_true, not_or, decide_eq_true_eq, not_lt] at hread
          have hnonneg := hgood.read.sent_nonneg history
          rw [hsame] at hnonneg
          cases hbefore : s.inboxReadBefore history with
          | none =>
              rw [hbefore, Option.getD_none] at hread
              exact absurd (lt_of_lt_of_le (lt_add_one tillId) hread.2) (not_lt.mpr hnonneg)
          | some before =>
              rw [hbefore, Option.getD_some] at hread
              refine ⟨_, rfl, clearSent_progress history _ hgood hbefore ?_⟩
              rw [hsame]
              exact lt_of_lt_of_le (lt_add_one tillId) hread.2
  · next hne =>
      have hlarger : (s.stateOf history).sentReadTill = 0
          ∨ tillId < (s.stateOf history).sentReadTill := by
        by_cases hzero : (s.stateOf history).sentReadTill = 0
        · exact Or.inl hzero
        · exact Or.inr (lt_of_le_of_ne (hgood.read.sent_le history tillId hmem hzero)
            (Ne.symm hne))
      rw [if_pos hlarger]
      exact ⟨s, rfl, .refl hgood⟩

/-- A callback that was called. -/
theorem ReadInv.erase_callback (hread : ReadInv s) (id : Nat) :
    ReadInv { s with callbacks := s.callbacks.erase id } := { hread with
  called := by
    intro i h tillId hc
    have hc' : (s.callbacks.erase id).find? i = some (h, .readInbox tillId) := hc
    rw [FlatMap.find?_erase] at hc'
    split at hc'
    · cases hc'
    · exact hread.called i h tillId hc' }

/-- **The `Assert`s hold**: the chat of a read request has a state. -/
theorem readFinished_answered {id : Nat} {tillId : MsgId} (unreadCountKnown isCommunity : Bool)
    (now : Int) (hgood : Good s)
    (hcalled : s.callbacks.find? id = some (history, .readInbox tillId)) :
    ∃ s', s.readFinished history tillId id unreadCountKnown isCommunity now = some s'
      ∧ Answered s s' id history tillId := by
  have hmem := hgood.read.called id history tillId hcalled
  obtain ⟨s₁, hs₁, hprogress₁⟩ := confirmRead_progress unreadCountKnown isCommunity hgood hmem
  obtain ⟨s₂, hs₂, hprogress₂⟩ := sendReadRequests_progress now hprogress₁.good
  have hprogress := hprogress₁.trans hprogress₂
  have hcalled₂ := hprogress.called id history tillId hcalled
  have hinv₂ := hprogress.good.inv
  have hnone : ({ s₂ with callbacks := s₂.callbacks.erase id } :
      Histories History Callback).callbacks.find? id = none := FlatMap.find?_erase_self _ _
  obtain ⟨s₃, hs₃, hkeeps⟩ := checkPostponed_keeps history
    (hinv₂.erase_callback id) (fun h hs => hinv₂.owner id history _ h hcalled₂ hs)
    ((hinv₂.chat history).called id _ hcalled₂) (fun till h => by cases hnone.symm.trans h)
  refine ⟨s₃, ?_, ⟨hkeeps.inv, (hprogress.good.read.erase_callback id).of_same hkeeps.reads⟩,
    ?_, ?_⟩
  · have hlookup : s.lookup history = some (s.stateOf history) := by
      cases hlookup : s.lookup history with
      | some state => rw [stateOf_of_lookup hlookup]
      | none =>
          have hsent := (hgood.inv.chat history).read id tillId hcalled
          rw [stateOf, hlookup] at hsent
          cases hsent
    unfold readFinished
    simp only [hlookup, hs₁, hs₂, hs₃, Option.bind_eq_bind, Option.bind_some]
  · intro h till hne hcovered
    refine Covered.of_same ?_ hkeeps.reads
    rcases hprogress.covered h till hcovered with hle | ⟨i, till', hc, hle⟩
    · exact Or.inl hle
    · refine Or.inr ⟨i, till', ?_, hle⟩
      show (s₂.callbacks.erase id).find? i = _
      rw [FlatMap.find?_erase_ne, hc]
      rintro rfl
      cases hcalled₂.symm.trans hc
      exact hne ⟨rfl, hle⟩
  · intro i h hne hs
    exact hkeeps.kept i h (fun heq => hne (Option.some.inj heq).symm) (hprogress.kept i h hs)

end Histories

end MessengerClient
