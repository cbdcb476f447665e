import MessengerClient.Histories.Invariant

/-!
# MessengerClient.Histories.Finish

A request that is finished or cancelled leaves the maps: the history requests that
waited for it are sent, and an entry that waited for it is asked for again.
-/

namespace MessengerClient

namespace Histories

variable {History Callback : Type} [LinearOrder History]
variable {s s' s'' : Histories History Callback} {history : History}

/-! ## The end of a request -/

/-- The generators of history requests start no read request. -/
theorem generateAll_entries (s : Histories History Callback) (history : History)
    {postponed : FlatMap Nat PostponedHistoryRequest}
    (hcaller : ∀ id p, postponed.find? id = some p → p.generator = .caller) :
    s.generateAll history postponed.entries =
      { s with
        callbacks := s.callbacks.emplaceAll
          (postponed.mapVal fun _ => (history, Generator.caller)).entries } := by
  have hlist : ∀ (es : List (Nat × PostponedHistoryRequest)) (s : Histories History Callback),
      (∀ e ∈ es, e.2.generator = .caller) →
      s.generateAll history es =
        { s with
          callbacks := s.callbacks.emplaceAll
            (es.map fun e => (e.1, (history, Generator.caller))) } := by
    intro es
    induction es with
    | nil =>
        intro s _
        rfl
    | cons e es ih =>
        intro s hes
        have hstep : s.generateAll history (e :: es)
            = (s.generate history e.1 e.2.generator).generateAll history es := rfl
        rw [hstep, hes e List.mem_cons_self,
          ih _ fun e' he' => hes e' (List.mem_cons_of_mem _ he')]
        rfl
  exact hlist _ s fun e he => hcaller e.1 e.2 (FlatMap.mem_entries_iff.mp he)

section SendPostponed

/-- The requests of a chat after those that waited are sent. -/
theorem find?_sendPostponed_sent (s : Histories History Callback) (history : History) (id : Nat) :
    ((s.sendPostponed history).stateOf history).sent.find? id
      = ((s.stateOf history).sent.find? id).or
          (((s.stateOf history).postponed.find? id).map fun p =>
            { generator := p.generator, type := .history }) := by
  rw [sendPostponed, stateOf_setState_self, FlatMap.find?_emplaceAll_entries, FlatMap.find?_mapVal]

theorem sendPostponed_postponed (s : Histories History Callback) (history : History) :
    ((s.sendPostponed history).stateOf history).postponed = ∅ := by
  rw [sendPostponed, stateOf_setState_self]

theorem find?_sendPostponed_callbacks (hcore : ChatCore s history) (id : Nat) :
    (s.sendPostponed history).callbacks.find? id
      = (s.callbacks.find? id).or
          (((s.stateOf history).postponed.find? id).map fun _ => (history, .caller)) := by
  rw [sendPostponed, generateAll_entries s history hcore.postponed_caller]
  exact (FlatMap.find?_emplaceAll_entries _ _ _).trans (by rw [FlatMap.find?_mapVal])

/-- Everything but the states and the callbacks stays. -/
theorem sendPostponed_eq (hcore : ChatCore s history) :
    ∃ states callbacks, s.sendPostponed history
      = { s with states := states, callbacks := callbacks } := by
  rw [sendPostponed, generateAll_entries s history hcore.postponed_caller]
  exact ⟨_, _, rfl⟩

end SendPostponed

/-- Which requests are in a map, once those that waited are sent. -/
theorem sendPostponed_spec (hcore : ChatCore s history)
    (hdelete : ¬ (s.stateOf history).postponeHistoryRequest) :
    Touches s (s.sendPostponed history) history
      ∧ SameReads s (s.sendPostponed history)
      ∧ ChatCore (s.sendPostponed history) history
      ∧ ¬ ((s.sendPostponed history).stateOf history).postponeHistoryRequest := by
  have hstate : ∀ h, h ≠ history →
      (s.sendPostponed history).stateOf h = s.stateOf h := fun h hne => by
    rw [sendPostponed, generateAll_entries s history hcore.postponed_caller,
      stateOf_setState_ne hne]
    rfl
  have hself : (s.sendPostponed history).stateOf history
      = { s.stateOf history with
          postponed := ∅
          sent := ((s.sendPostponed history).stateOf history).sent } := by
    rw [sendPostponed, stateOf_setState_self]
  have hsent := find?_sendPostponed_sent s history
  have hpostponed := sendPostponed_postponed s history
  have hcallbacks := find?_sendPostponed_callbacks hcore
  obtain ⟨states, callbacks, heq⟩ := sendPostponed_eq hcore
  generalize s.sendPostponed history = s' at *
  have hread : ∀ id h tillId, s'.callbacks.find? id = some (h, .readInbox tillId)
      ↔ s.callbacks.find? id = some (h, .readInbox tillId) := by
    intro id h tillId
    rw [hcallbacks]
    cases s.callbacks.find? id <;> cases (s.stateOf history).postponed.find? id <;> simp
  have hdelete' : ¬ (s'.stateOf history).postponeHistoryRequest := by
    rw [State.postponeHistoryRequest_iff]
    rintro ⟨id, r, hr, htype⟩
    rw [hsent] at hr
    cases hold : (s.stateOf history).sent.find? id with
    | some r' =>
        rw [hold] at hr
        cases hr
        exact hdelete (State.postponeHistoryRequest_iff.mpr ⟨id, r, hold, htype⟩)
    | none =>
        rw [hold, Option.none_or, Option.map_eq_some_iff] at hr
        obtain ⟨p, -, rfl⟩ := hr
        cases htype
  have hhas : ∀ id, (s'.stateOf history).Has id ↔ (s.stateOf history).Has id := by
    intro id
    unfold State.Has
    rw [hsent, hpostponed]
    cases (s.stateOf history).sent.find? id <;>
      cases (s.stateOf history).postponed.find? id <;> simp
  have hdialogs : s'.dialogRequests = s.dialogRequests := by rw [heq]
  have hpending : s'.dialogRequestsPending = s.dialogRequestsPending := by rw [heq]
  have howned : s'.historyByRequest = s.historyByRequest := by rw [heq]
  refine ⟨?_, ?_, ?_, hdelete'⟩
  · refine ⟨hstate, ?_, ?_, ?_, ?_, ?_, ?_, by rw [heq]⟩
    · exact fun h _ => by rw [hdialogs]
    · exact fun h _ => by rw [hpending]
    · exact fun id h _ => by rw [howned]
    · intro id h generator hne
      rw [hcallbacks]
      cases s.callbacks.find? id <;> cases (s.stateOf history).postponed.find? id <;>
        simp [Ne.symm hne]
    · exact fun id h => Or.inl (howned ▸ h)
    · intro id generator h
      rw [hcallbacks] at h
      cases hold : s.callbacks.find? id with
      | some c =>
          rw [hold, Option.some_or] at h
          exact Or.inl h
      | none =>
          rw [hold, Option.none_or, Option.map_eq_some_iff] at h
          obtain ⟨p, hp, -⟩ := h
          rw [howned]
          exact Or.inr ((hcore.owned id).mpr (Or.inr (Option.isSome_of_eq_some hp)))
  · refine ⟨fun h => ?_, fun h => ?_, by rw [heq], by rw [heq], hread⟩
    · by_cases hne : h = history
      · rw [hne, hself]
      · rw [hstate h hne]
    · by_cases hne : h = history
      · rw [hne, hself]
      · rw [hstate h hne]
  · exact {
      apart := fun id => Or.inr (by rw [hpostponed]; rfl)
      asked := by
        rw [hself, hdialogs]
        exact hcore.asked
      pending := by
        rw [hdialogs, hpending]
        exact hcore.pending
      sent_caller := by
        intro id r hr htype
        rw [hsent] at hr
        cases hold : (s.stateOf history).sent.find? id with
        | some r' =>
            rw [hold] at hr
            cases hr
            exact hcore.sent_caller id r hold htype
        | none =>
            rw [hold, Option.none_or, Option.map_eq_some_iff] at hr
            obtain ⟨p, hp, rfl⟩ := hr
            exact hcore.postponed_caller id p hp
      postponed_caller := by
        intro id p hp
        rw [hpostponed] at hp
        cases hp
      owned := fun id => by rw [howned, hhas, hcore.owned]
      called := fun id _ _ => by rw [hpostponed]; rfl
      read := by
        intro id tillId h
        rw [hsent, hcore.read id tillId ((hread id history tillId).mp h)]
        rfl }

/-- **The `Assert`s hold**: an entry to be asked for again was asked for, and is not
waiting to be asked for. -/
theorem checkPostponedEntry_spec (hcore : ChatCore s history) :
    ∃ s', s.checkPostponedEntry history = some s' ∧ Touches s s' history
      ∧ SameReads s s' ∧ ChatCore s' history
      ∧ (s'.stateOf history).sent = (s.stateOf history).sent
      ∧ (s'.stateOf history).postponed = (s.stateOf history).postponed
      ∧ ((s'.stateOf history).postponedRequestEntry → (s'.stateOf history).postponeEntryRequest)
      ∧ s'.historyByRequest = s.historyByRequest := by
  unfold checkPostponedEntry
  by_cases hcond : (s.stateOf history).postponedRequestEntry
      && !(s.stateOf history).postponeEntryRequest
  · rw [if_pos hcond]
    obtain ⟨hentry, -⟩ := Bool.and_eq_true_iff.mp hcond
    have hasked := hcore.asked hentry
    have hpending := hcore.pending hasked
    obtain ⟨callbacks, hcallbacks⟩ := FlatMap.contains_iff.mp hasked
    rw [hcallbacks]
    dsimp only
    rw [hpending, if_neg Bool.false_ne_true]
    refine ⟨_, rfl, ?_, ?_, ?_, ?_, ?_, ?_, rfl⟩
    · refine .of_ids history (fun h hne => stateOf_setState_ne hne) (fun h hne => ?_)
        (fun h hne => ?_)
        rfl rfl rfl
      · exact congrArg Option.isSome (FlatMap.find?_erase_ne _ hne)
      · exact congrArg Option.isSome (FlatMap.find?_emplace_ne _ _ hne)
    · exact .of_ids history (fun h hne => stateOf_setState_ne hne) (by rw [stateOf_setState_self])
        (by rw [stateOf_setState_self]) rfl rfl rfl
    · refine hcore.of_maps (by rw [stateOf_setState_self]) (by rw [stateOf_setState_self]) rfl rfl
        ?_ ?_
      · rw [stateOf_setState_self]
        intro h
        cases h
      · intro h
        simp [setState, FlatMap.contains] at h
    · rw [stateOf_setState_self]
    · rw [stateOf_setState_self]
    · rw [stateOf_setState_self]
      intro h
      cases h
  · rw [if_neg hcond]
    refine ⟨s, rfl, .refl s history, .refl s, hcore, rfl, rfl, ?_, rfl⟩
    intro hentry
    simpa [hentry] using hcond

theorem checkEmptyState_eq (s : Histories History Callback) (history : History) :
    ∃ states, s.checkEmptyState history = { s with states := states } := by
  unfold checkEmptyState
  split
  · exact ⟨_, rfl⟩
  · exact ⟨s.states, rfl⟩

/-- What is kept of a chat stays. -/
theorem checkEmptyState_state (s : Histories History Callback) (history h : History) :
    ((s.checkEmptyState history).stateOf h).sent = (s.stateOf h).sent
      ∧ ((s.checkEmptyState history).stateOf h).postponed = (s.stateOf h).postponed
      ∧ ((s.checkEmptyState history).stateOf h).postponedRequestEntry
        = (s.stateOf h).postponedRequestEntry
      ∧ ((s.checkEmptyState history).stateOf h).willReadTill = (s.stateOf h).willReadTill
      ∧ ((s.checkEmptyState history).stateOf h).sentReadTill = (s.stateOf h).sentReadTill := by
  rcases stateOf_checkEmptyState s history h with hsame | ⟨-, hdefault, hempty⟩
  · rw [hsame]
    exact ⟨rfl, rfl, rfl, rfl, rfl⟩
  · obtain ⟨hpostponed, hsent, hentry, hwill, hsentTill⟩ := State.of_empty hempty
    rw [hdefault, hpostponed, hsent, hentry, hwill, hsentTill]
    exact ⟨rfl, rfl, rfl, rfl, rfl⟩

theorem checkEmptyState_spec (hinv : ChatInv s history) :
    Touches s (s.checkEmptyState history) history ∧ SameReads s (s.checkEmptyState history)
      ∧ ChatInv (s.checkEmptyState history) history := by
  have hother : ∀ h, h ≠ history → (s.checkEmptyState history).stateOf h = s.stateOf h := by
    intro h hne
    rcases stateOf_checkEmptyState s history h with hsame | ⟨hself, -⟩
    · exact hsame
    · exact absurd hself hne
  obtain ⟨hsent, hpostponed, hentry, hwill, hsentTill⟩ := checkEmptyState_state s history history
  obtain ⟨states, heq⟩ := checkEmptyState_eq s history
  generalize s.checkEmptyState history = s' at *
  refine ⟨?_, ?_, ?_⟩
  · exact .of_ids history hother (fun h _ => by rw [heq]) (fun h _ => by rw [heq]) (by rw [heq])
      (by rw [heq]) (by rw [heq])
  · exact .of_ids history hother hwill hsentTill (by rw [heq]) (by rw [heq]) (by rw [heq])
  · refine hinv.of_maps hsent hpostponed (by rw [heq]) (by rw [heq]) ?_ ?_ ?_
    · rw [hentry, heq]
      exact hinv.asked
    · rw [heq]
      exact hinv.pending
    · rw [hentry]
      exact hinv.entry

/-- **After a request that ended, the chat is in order again.** -/
theorem afterSentRequest_spec (hcore : ChatCore s history)
    (hwaits : (s.stateOf history).postponeHistoryRequest → ∀ id r,
      (s.stateOf history).sent.find? id = some r → r.type ≠ .history) :
    ∃ s', s.afterSentRequest history = some s' ∧ Touches s s' history ∧ SameReads s s'
      ∧ ChatInv s' history ∧ s'.historyByRequest = s.historyByRequest := by
  -- First those that waited are sent.
  obtain ⟨s₁, hs₁, ht₁, hr₁, hc₁, hwaits₁, hnothing, howned₁⟩ : ∃ s₁ : Histories History Callback,
      (if (s.stateOf history).postponed.size ≠ 0
          && !(s.stateOf history).postponeHistoryRequest then
        s.sendPostponed history else s) = s₁
      ∧ Touches s s₁ history ∧ SameReads s s₁ ∧ ChatCore s₁ history
      ∧ ((s₁.stateOf history).postponeHistoryRequest → ∀ id r,
        (s₁.stateOf history).sent.find? id = some r → r.type ≠ .history)
      ∧ (¬ (s₁.stateOf history).postponeHistoryRequest → (s₁.stateOf history).postponed = ∅)
      ∧ s₁.historyByRequest = s.historyByRequest := by
    split
    · next hcond =>
        simp only [ne_eq, Bool.and_eq_true, decide_eq_true_eq, Bool.not_eq_true'] at hcond
        have hdelete : ¬ (s.stateOf history).postponeHistoryRequest := by
          rw [hcond.2]
          exact Bool.false_ne_true
        obtain ⟨ht, hr, hc, hdelete'⟩ := sendPostponed_spec hcore hdelete
        obtain ⟨states, callbacks, heq⟩ := sendPostponed_eq hcore
        exact ⟨_, rfl, ht, hr, hc, fun h => absurd h hdelete',
          fun _ => sendPostponed_postponed s history, by rw [heq]⟩
    · next hcond =>
        refine ⟨s, rfl, .refl s history, .refl s, hcore, hwaits, fun hdelete => ?_, rfl⟩
        rw [Bool.not_eq_true] at hdelete
        rw [hdelete, Bool.not_false, Bool.and_true, decide_eq_true_eq, ne_eq, not_not,
          FlatMap.size, List.length_eq_zero_iff] at hcond
        exact FlatMap.entries_eq_nil_iff.mp hcond
  obtain ⟨s₂, hs₂, ht₂, hr₂, hc₂, hsent, hpostponed, hentry, howned₂⟩ :=
          checkPostponedEntry_spec hc₁
  have hinv : ChatInv s₂ history := { hc₂ with
    waits := by
      unfold State.postponeHistoryRequest
      rw [hsent]
      exact hwaits₁
    nothing_waits := by
      unfold State.postponeHistoryRequest
      rw [hsent, hpostponed]
      exact hnothing
    entry := hentry }
  obtain ⟨ht₃, hr₃, hc₃⟩ := checkEmptyState_spec hinv
  obtain ⟨states, heq⟩ := checkEmptyState_eq s₂ history
  refine ⟨s₂.checkEmptyState history, ?_, ?_, (hr₁.trans hr₂).trans hr₃, hc₃, ?_⟩
  · unfold afterSentRequest
    dsimp only
    rw [hs₁, hs₂]
    rfl
  · refine (ht₁.trans ht₂ ?_).trans ht₃ ?_
    · intro id h
      rw [howned₂]
      exact h
    · intro id h
      rw [heq]
      exact h
  · rw [heq]
    exact howned₂.trans howned₁

/-- A request leaves the maps. -/
def dropRequest (s : Histories History Callback) (history : History) (id : Nat) :
    Histories History Callback :=
  { s with historyByRequest := s.historyByRequest.erase id }.setState history
      { s.stateOf history with
        sent := (s.stateOf history).sent.erase id
        postponed := (s.stateOf history).postponed.erase id }

theorem dropRequest_spec {id : Nat} (hinv : Inv s)
    (hid : ∀ h, s.historyByRequest.find? id = some h → h = history)
    (hread : ∀ tillId, s.callbacks.find? id ≠ some (history, .readInbox tillId)) :
    Touches s (s.dropRequest history id) history
      ∧ SameReads s (s.dropRequest history id)
      ∧ ChatCore (s.dropRequest history id) history := by
  have hchat := hinv.chat history
  have hstate : (s.dropRequest history id).stateOf history
      = { s.stateOf history with
          sent := (s.stateOf history).sent.erase id
          postponed := (s.stateOf history).postponed.erase id } := stateOf_setState_self _
  refine ⟨?_, ?_, ?_⟩
  · exact {
      state := fun h hne => stateOf_setState_ne hne
      asked := fun h _ => rfl
      pending := fun h _ => rfl
      owned := by
        intro i h hne
        show (s.historyByRequest.erase id).find? i = some h ↔ _
        rw [FlatMap.find?_erase]
        split
        · next hi =>
            subst hi
            constructor
            · intro hn
              cases hn
            · exact fun hs => absurd (hid h hs) hne
        · rfl
      called := fun i h generator hne => Iff.rfl
      new_owned := by
        intro i hs
        have hs' : (s.historyByRequest.erase id).find? i = some history := hs
        rw [FlatMap.find?_erase] at hs'
        split at hs'
        · cases hs'
        · exact Or.inl hs'
      new_called := fun i generator hs => Or.inl hs
      autoincrement := Nat.le_refl _ }
  · exact .of_ids history (fun h hne => stateOf_setState_ne hne) (by rw [hstate]) (by rw [hstate])
      rfl rfl
      rfl
  · have hsent : ∀ i, ((s.dropRequest history id).stateOf history).sent.find? i
        = if i = id then none else (s.stateOf history).sent.find? i := fun i => by
      rw [hstate, FlatMap.find?_erase]
    have hpostponed : ∀ i, ((s.dropRequest history id).stateOf history).postponed.find? i
        = if i = id then none else (s.stateOf history).postponed.find? i := fun i => by
      rw [hstate, FlatMap.find?_erase]
    have hsent_old : ∀ i r, ((s.dropRequest history id).stateOf history).sent.find? i
        = some r → (s.stateOf history).sent.find? i = some r := by
      intro i r hr
      rw [hsent] at hr
      split at hr
      · cases hr
      · exact hr
    have hpostponed_old : ∀ i, (s.stateOf history).postponed.find? i = none →
        ((s.dropRequest history id).stateOf history).postponed.find? i = none := by
      intro i hi
      rw [hpostponed, hi, ite_self]
    exact {
      apart := by
        intro i
        rcases hchat.apart i with hnone | hnone
        · left
          rw [hsent, hnone, ite_self]
        · exact Or.inr (hpostponed_old i hnone)
      asked := by
        rw [hstate]
        exact hchat.asked
      pending := hchat.pending
      sent_caller := fun i r hr htype => hchat.sent_caller i r (hsent_old i r hr) htype
      postponed_caller := by
        intro i p hp
        rw [hpostponed] at hp
        split at hp
        · cases hp
        · exact hchat.postponed_caller i p hp
      owned := by
        intro i
        show (s.historyByRequest.erase id).find? i = some history ↔ _
        unfold State.Has
        rw [FlatMap.find?_erase, hsent, hpostponed]
        split
        · simp
        · exact hchat.owned i
      called := fun i generator hc => hpostponed_old i (hchat.called i generator hc)
      read := by
        intro i tillId hc
        have hne : i ≠ id := by
          rintro rfl
          exact hread tillId hc
        rw [hsent, if_neg hne]
        exact hchat.read i tillId hc }

theorem dropRequest_waits {id : Nat} (hinv : Inv s)
    (hdelete : ((s.dropRequest history id).stateOf history).postponeHistoryRequest) (i : Nat)
    (r : SentRequest) (hr : ((s.dropRequest history id).stateOf history).sent.find? i = some r) :
    r.type ≠ .history := by
  have hold : ∀ i r, ((s.dropRequest history id).stateOf history).sent.find? i = some r →
      (s.stateOf history).sent.find? i = some r := by
    intro i r hr
    rw [dropRequest, stateOf_setState_self, FlatMap.find?_erase] at hr
    split at hr
    · cases hr
    · exact hr
  obtain ⟨d, rd, hrd, htype⟩ := State.postponeHistoryRequest_iff.mp hdelete
  exact (hinv.chat history).waits
    (State.postponeHistoryRequest_iff.mpr ⟨d, rd, hold d rd hrd, htype⟩) i r (hold i r hr)

/-- **A request ends**: it leaves the maps, and what waited for it goes on. -/
theorem dropRequest_keeps {id : Nat} (hinv : Inv s)
    (hid : ∀ h, s.historyByRequest.find? id = some h → h = history)
    (hread : ∀ tillId, s.callbacks.find? id ≠ some (history, .readInbox tillId)) :
    ∃ s', (s.dropRequest history id).afterSentRequest history = some s'
      ∧ Keeps s s' (some id) := by
  obtain ⟨ht₁, hr₁, hcore⟩ := dropRequest_spec hinv hid hread
  obtain ⟨s', hs', ht₂, hr₂, hc, howned⟩ := afterSentRequest_spec hcore (dropRequest_waits hinv)
  have ht := ht₁.trans ht₂ fun i h => by
    rw [howned]
    exact h
  refine ⟨s', hs', hinv.of_touches ht hc, hr₁.trans hr₂, fun i h hne hs => ?_⟩
  have herase : s'.historyByRequest = s.historyByRequest.erase id := howned
  rw [herase, FlatMap.find?_erase_ne _ fun hi => hne (congrArg some hi.symm), hs]

/-- The callback of a request that is not sent any more, and that of one that is. -/
theorem checkPostponed_keeps (history : History) {id : Nat} (hinv : Inv s)
    (hid : ∀ h, s.historyByRequest.find? id = some h → h = history)
    (hpostponed : (s.stateOf history).postponed.find? id = none)
    (hread : ∀ tillId, s.callbacks.find? id ≠ some (history, .readInbox tillId)) :
    ∃ s', s.checkPostponed history id = some s' ∧ Keeps s s' (some id) := by
  unfold checkPostponed
  cases hlookup : s.lookup history with
  | none => exact ⟨s, rfl, .refl hinv _⟩
  | some state =>
      obtain ⟨s', hs', hkeeps⟩ := dropRequest_keeps hinv hid hread
      refine ⟨s', ?_, hkeeps⟩
      rw [← hs', dropRequest, FlatMap.erase_of_find?_eq_none hpostponed, stateOf_of_lookup hlookup]
      rfl

theorem cancelRequest_keeps {id : Nat} (hinv : Inv s)
    (hread : ∀ history tillId, s.callbacks.find? id ≠ some (history, .readInbox tillId)) :
    ∃ s', s.cancelRequest id = some s' ∧ Keeps s s' (some id) := by
  unfold cancelRequest
  cases howned : s.historyByRequest.find? id with
  | none => exact ⟨s, rfl, .refl hinv _⟩
  | some history =>
      have hid : ∀ h, s.historyByRequest.find? id = some h → h = history := by
        intro h hs
        rw [howned] at hs
        exact (Option.some.inj hs).symm
      obtain ⟨s', hs', hkeeps⟩ := dropRequest_keeps hinv hid (hread history)
      dsimp only
      cases hlookup : s.lookup history with
      | none =>
          have hhas := ((hinv.chat history).owned id).mp howned
          rw [stateOf, hlookup] at hhas
          rcases hhas with h | h <;> cases h
      | some state =>
          have htwice : (s.historyByRequest.erase id).erase id = s.historyByRequest.erase id :=
            FlatMap.erase_of_find?_eq_none (FlatMap.find?_erase_self _ _)
          refine ⟨s', ?_, hkeeps⟩
          rw [← hs', dropRequest, stateOf_of_lookup hlookup]
          have hrest : ({ s with historyByRequest := s.historyByRequest.erase id } :
              Histories History Callback).lookup history = some state := hlookup
          simp only [hrest, finishSentRequest, htwice]

end Histories

end MessengerClient
