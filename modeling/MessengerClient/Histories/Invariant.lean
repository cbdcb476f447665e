import MessengerClient.Histories

/-!
# MessengerClient.Histories.Invariant

Every request is in exactly one map of its chat, history requests never overtake a
deletion, and an entry that is to be asked for again waits for a request that is sent.

An event changes the requests of one chat (`Touches`), so what has to be shown of it is
what holds of this chat afterwards (`ChatInv`).
-/

namespace MessengerClient

namespace Histories

variable {History Callback : Type} [LinearOrder History]
variable {s s' s'' : Histories History Callback} {history : History}

/-! ## States -/

namespace State

variable {state : State}

theorem postponeHistoryRequest_iff :
    state.postponeHistoryRequest ↔ ∃ id r, state.sent.find? id = some r ∧ r.type = .delete := by
  simp [postponeHistoryRequest, FlatMap.mem_entries_iff]

theorem postponeEntryRequest_iff :
    state.postponeEntryRequest ↔ ∃ id r, state.sent.find? id = some r ∧ r.type ≠ .history := by
  simp [postponeEntryRequest, FlatMap.mem_entries_iff]

/-- A deletion is a request that can change the entry. -/
theorem postponeEntryRequest_of_history (h : state.postponeHistoryRequest) :
    state.postponeEntryRequest := by
  obtain ⟨id, r, hr, htype⟩ := postponeHistoryRequest_iff.mp h
  exact postponeEntryRequest_iff.mpr ⟨id, r, hr, by rw [htype]; decide⟩

/-- The request is in one of the maps. -/
def Has (state : State) (id : Nat) : Prop :=
  (state.sent.find? id).isSome ∨ (state.postponed.find? id).isSome

end State

theorem stateOf_setState (state : State) (history' : History) :
    (s.setState history state).stateOf history'
      = if history' = history then state else s.stateOf history' := by
  unfold stateOf lookup setState
  rw [FlatMap.find?_insert]
  split <;> rfl

@[simp] theorem stateOf_setState_self (state : State) :
    (s.setState history state).stateOf history = state := by
  rw [stateOf_setState, if_pos rfl]

theorem stateOf_setState_ne {state : State} {history' : History} (h : history' ≠ history) :
    (s.setState history state).stateOf history' = s.stateOf history' := by
  rw [stateOf_setState, if_neg h]

theorem stateOf_of_lookup {state : State} (h : s.lookup history = some state) :
    s.stateOf history = state := by
  rw [stateOf, h, Option.getD_some]

/-- Only a state in which nothing is kept is erased. -/
theorem stateOf_checkEmptyState (s : Histories History Callback) (history history' : History) :
    (s.checkEmptyState history).stateOf history' = s.stateOf history'
      ∨ history' = history ∧ (s.checkEmptyState history).stateOf history' = {}
        ∧ (s.stateOf history').empty = true := by
  unfold checkEmptyState
  split
  · next h =>
      by_cases hsame : history' = history
      · subst hsame
        right
        cases hstate : s.lookup history' with
        | none => simp [hstate] at h
        | some state =>
            rw [hstate] at h
            refine ⟨rfl, ?_, ?_⟩
            · simp [stateOf, lookup]
            · rw [stateOf_of_lookup hstate]
              exact h
      · left
        simp [stateOf, lookup, FlatMap.find?_erase_ne _ hsame]
  · exact Or.inl rfl

namespace State

variable {state : State}

theorem of_empty (h : state.empty = true) :
    state.postponed = ∅ ∧ state.sent = ∅ ∧ state.postponedRequestEntry = false
      ∧ state.willReadTill = 0 ∧ state.sentReadTill = 0 := by
  simp only [empty, Bool.and_eq_true, beq_iff_eq, Bool.not_eq_true', FlatMap.size,
    List.length_eq_zero_iff, FlatMap.entries_eq_nil_iff] at h
  obtain ⟨⟨⟨⟨hpostponed, hentry⟩, hsent⟩, hwill⟩, hsentTill⟩ := h
  exact ⟨hpostponed, hsent, hentry, hwill, hsentTill⟩

end State

/-! ## The invariant -/

/-- What holds of a chat also between the steps of an event. -/
structure ChatCore (s : Histories History Callback) (history : History) : Prop where
  apart : ∀ id, (s.stateOf history).sent.find? id = none
    ∨ (s.stateOf history).postponed.find? id = none
  asked : (s.stateOf history).postponedRequestEntry → s.dialogRequests.contains history
  pending : s.dialogRequests.contains history → s.dialogRequestsPending.contains history = false
  sent_caller : ∀ id r, (s.stateOf history).sent.find? id = some r → r.type = .history →
    r.generator = .caller
  postponed_caller : ∀ id p, (s.stateOf history).postponed.find? id = some p →
    p.generator = .caller
  owned : ∀ id, s.historyByRequest.find? id = some history ↔ (s.stateOf history).Has id
  /-- The API request of a request that waits was cancelled. -/
  called : ∀ id generator, s.callbacks.find? id = some (history, generator) →
    (s.stateOf history).postponed.find? id = none
  read : ∀ id tillId, s.callbacks.find? id = some (history, .readInbox tillId) →
    (s.stateOf history).sent.find? id
      = some { generator := .readInbox tillId, type := .readInbox }

/-- What holds of a chat between events. -/
structure ChatInv (s : Histories History Callback) (history : History) : Prop
    extends ChatCore s history where
  /-- No history request is sent while a deletion is. -/
  waits : (s.stateOf history).postponeHistoryRequest → ∀ id r,
    (s.stateOf history).sent.find? id = some r → r.type ≠ .history
  nothing_waits : ¬ (s.stateOf history).postponeHistoryRequest → (s.stateOf history).postponed = ∅
  entry : (s.stateOf history).postponedRequestEntry → (s.stateOf history).postponeEntryRequest

structure Inv (s : Histories History Callback) : Prop where
  chat : ∀ history, ChatInv s history
  owner : ∀ id history generator history', s.callbacks.find? id = some (history, generator) →
    s.historyByRequest.find? id = some history' → history' = history
  fresh : ∀ id history, s.historyByRequest.find? id = some history → id ≤ s.requestAutoincrement
  fresh_called : ∀ id c, s.callbacks.find? id = some c → id ≤ s.requestAutoincrement

/-- The events change the requests of one chat. -/
structure Touches (s s' : Histories History Callback) (history : History) : Prop where
  state : ∀ h, h ≠ history → s'.stateOf h = s.stateOf h
  asked : ∀ h, h ≠ history → s'.dialogRequests.contains h = s.dialogRequests.contains h
  pending : ∀ h, h ≠ history →
    s'.dialogRequestsPending.contains h = s.dialogRequestsPending.contains h
  owned : ∀ id h, h ≠ history →
    (s'.historyByRequest.find? id = some h ↔ s.historyByRequest.find? id = some h)
  called : ∀ id h generator, h ≠ history →
    (s'.callbacks.find? id = some (h, generator) ↔ s.callbacks.find? id = some (h, generator))
  new_owned : ∀ id, s'.historyByRequest.find? id = some history →
    s.historyByRequest.find? id = some history
      ∨ s.requestAutoincrement < id ∧ id ≤ s'.requestAutoincrement
  new_called : ∀ id generator, s'.callbacks.find? id = some (history, generator) →
    s.callbacks.find? id = some (history, generator)
      ∨ s'.historyByRequest.find? id = some history
  autoincrement : s.requestAutoincrement ≤ s'.requestAutoincrement

namespace Touches

theorem refl (s : Histories History Callback) (history : History) : Touches s s history where
  state _ _ := rfl
  asked _ _ := rfl
  pending _ _ := rfl
  owned _ _ _ := Iff.rfl
  called _ _ _ _ := Iff.rfl
  new_owned _ h := Or.inl h
  new_called _ _ h := Or.inl h
  autoincrement := Nat.le_refl _

/-- The invariant of the other chats is kept. -/
theorem chatInv {h : History} (ht : Touches s s' history) (hne : h ≠ history)
    (hinv : ChatInv s h) : ChatInv s' h where
  waits := by rw [ht.state h hne]; exact hinv.waits
  apart := by rw [ht.state h hne]; exact hinv.apart
  asked := by rw [ht.state h hne, ht.asked h hne]; exact hinv.asked
  pending := by rw [ht.pending h hne, ht.asked h hne]; exact hinv.pending
  sent_caller := by rw [ht.state h hne]; exact hinv.sent_caller
  postponed_caller := by rw [ht.state h hne]; exact hinv.postponed_caller
  owned id := by rw [ht.state h hne, ht.owned id h hne]; exact hinv.owned id
  called id generator := by
    rw [ht.state h hne, ht.called id h generator hne]
    exact hinv.called id generator
  read id tillId := by
    rw [ht.state h hne, ht.called id h _ hne]
    exact hinv.read id tillId
  nothing_waits := by rw [ht.state h hne]; exact hinv.nothing_waits
  entry := by rw [ht.state h hne]; exact hinv.entry

/-- Steps of one event, the second of which forgets no request. -/
theorem trans (h₁ : Touches s s' history) (h₂ : Touches s' s'' history)
    (hkeep : ∀ id, s'.historyByRequest.find? id = some history →
      s''.historyByRequest.find? id = some history) : Touches s s'' history where
  state h hne := (h₂.state h hne).trans (h₁.state h hne)
  asked h hne := (h₂.asked h hne).trans (h₁.asked h hne)
  pending h hne := (h₂.pending h hne).trans (h₁.pending h hne)
  owned id h hne := (h₂.owned id h hne).trans (h₁.owned id h hne)
  called id h generator hne := (h₂.called id h generator hne).trans (h₁.called id h generator hne)
  new_owned id howned := by
    have h₁auto := h₁.autoincrement
    have h₂auto := h₂.autoincrement
    rcases h₂.new_owned id howned with howned | hlt
    · rcases h₁.new_owned id howned with howned | hlt
      · exact Or.inl howned
      · exact Or.inr (by omega)
    · exact Or.inr (by omega)
  new_called id generator hcalled := by
    rcases h₂.new_called id generator hcalled with hcalled | howned
    · rcases h₁.new_called id generator hcalled with hcalled | howned
      · exact Or.inl hcalled
      · exact Or.inr (hkeep id howned)
    · exact Or.inr howned
  autoincrement := Nat.le_trans h₁.autoincrement h₂.autoincrement

end Touches

theorem Touches.owner (hinv : Inv s) (ht : Touches s s' history) {id : Nat} {h h' : History}
    {generator : Generator} (hcalled : s'.callbacks.find? id = some (h, generator))
    (howned : s'.historyByRequest.find? id = some h') : h' = h := by
  by_cases hh : h = history
  · by_cases hh' : h' = history
    · rw [hh, hh']
    · subst hh
      have hold := (ht.owned id h' hh').mp howned
      rcases ht.new_called id generator hcalled with hcalled | hself
      · exact hinv.owner id h generator h' hcalled hold
      · rw [howned] at hself
        exact absurd (Option.some.inj hself) hh'
  · have hold := (ht.called id h generator hh).mp hcalled
    by_cases hh' : h' = history
    · subst hh'
      rcases ht.new_owned id howned with howned | ⟨hlt, -⟩
      · exact hinv.owner id h generator h' hold howned
      · exact absurd (hinv.fresh_called id _ hold) (by omega)
    · exact hinv.owner id h generator h' hold ((ht.owned id h' hh').mp howned)

/-- **An event only has to keep the invariant of the chat that it touches.** -/
theorem Inv.of_touches (hinv : Inv s) (ht : Touches s s' history) (hc : ChatInv s' history) :
    Inv s' where
  chat h := by
    by_cases hne : h = history
    · rw [hne]
      exact hc
    · exact ht.chatInv hne (hinv.chat h)
  owner id h generator h' := ht.owner hinv
  fresh id h howned := by
    have := ht.autoincrement
    by_cases hh : h = history
    · subst hh
      rcases ht.new_owned id howned with howned | ⟨-, hle⟩
      · have := hinv.fresh id h howned
        omega
      · exact hle
    · have := hinv.fresh id h ((ht.owned id h hh).mp howned)
      omega
  fresh_called id c hcalled := by
    have := ht.autoincrement
    obtain ⟨h, generator⟩ := c
    by_cases hh : h = history
    · subst hh
      rcases ht.new_called id generator hcalled with hcalled | howned
      · have := hinv.fresh_called id _ hcalled
        omega
      · rcases ht.new_owned id howned with howned | ⟨-, hle⟩
        · have := hinv.fresh id h howned
          omega
        · exact hle
    · have := hinv.fresh_called id _ ((ht.called id h generator hh).mp hcalled)
      omega

/-- Nothing changes about reading. -/
structure SameReads (s s' : Histories History Callback) : Prop where
  will : ∀ h, (s'.stateOf h).willReadTill = (s.stateOf h).willReadTill
  sent : ∀ h, (s'.stateOf h).sentReadTill = (s.stateOf h).sentReadTill
  requests : s'.readRequests = s.readRequests
  before : s'.inboxReadBefore = s.inboxReadBefore
  called : ∀ id h tillId, s'.callbacks.find? id = some (h, .readInbox tillId)
    ↔ s.callbacks.find? id = some (h, .readInbox tillId)

namespace SameReads

theorem refl (s : Histories History Callback) : SameReads s s :=
  ⟨fun _ => rfl, fun _ => rfl, rfl, rfl, fun _ _ _ => Iff.rfl⟩

theorem trans (h₁ : SameReads s s') (h₂ : SameReads s' s'') : SameReads s s'' where
  will h := (h₂.will h).trans (h₁.will h)
  sent h := (h₂.sent h).trans (h₁.sent h)
  requests := h₂.requests.trans h₁.requests
  before := h₂.before.trans h₁.before
  called id h tillId := (h₂.called id h tillId).trans (h₁.called id h tillId)

end SameReads

/-- The ids of the requests stay as they are. -/
theorem Touches.of_ids (history : History)
    (hstate : ∀ h, h ≠ history → s'.stateOf h = s.stateOf h)
    (hasked : ∀ h, h ≠ history → s'.dialogRequests.contains h = s.dialogRequests.contains h)
    (hpending : ∀ h, h ≠ history →
      s'.dialogRequestsPending.contains h = s.dialogRequestsPending.contains h)
    (howned : s'.historyByRequest = s.historyByRequest) (hcalled : s'.callbacks = s.callbacks)
    (hauto : s'.requestAutoincrement = s.requestAutoincrement) : Touches s s' history where
  state := hstate
  asked := hasked
  pending := hpending
  owned id h _ := by rw [howned]
  called id h generator _ := by rw [hcalled]
  new_owned id h := Or.inl (howned ▸ h)
  new_called id generator h := Or.inl (hcalled ▸ h)
  autoincrement := Nat.le_of_eq hauto.symm

theorem SameReads.of_ids (history : History)
    (hstate : ∀ h, h ≠ history → s'.stateOf h = s.stateOf h)
    (hwill : (s'.stateOf history).willReadTill = (s.stateOf history).willReadTill)
    (hsent : (s'.stateOf history).sentReadTill = (s.stateOf history).sentReadTill)
    (hrequests : s'.readRequests = s.readRequests)
    (hbefore : s'.inboxReadBefore = s.inboxReadBefore) (hcalled : s'.callbacks = s.callbacks) :
    SameReads s s' where
  will h := by
    by_cases hne : h = history
    · rw [hne, hwill]
    · rw [hstate h hne]
  sent h := by
    by_cases hne : h = history
    · rw [hne, hsent]
    · rw [hstate h hne]
  requests := hrequests
  before := hbefore
  called id h tillId := by rw [hcalled]

/-- A chat whose maps stay as they are. -/
theorem ChatCore.of_maps (hcore : ChatCore s history)
    (hsent : (s'.stateOf history).sent = (s.stateOf history).sent)
    (hpostponed : (s'.stateOf history).postponed = (s.stateOf history).postponed)
    (howned : s'.historyByRequest = s.historyByRequest) (hcalled : s'.callbacks = s.callbacks)
    (hasked : (s'.stateOf history).postponedRequestEntry → s'.dialogRequests.contains history)
    (hpending : s'.dialogRequests.contains history →
      s'.dialogRequestsPending.contains history = false) : ChatCore s' history where
  apart := by rw [hsent, hpostponed]; exact hcore.apart
  asked := hasked
  pending := hpending
  sent_caller := by rw [hsent]; exact hcore.sent_caller
  postponed_caller := by rw [hpostponed]; exact hcore.postponed_caller
  owned := by
    unfold State.Has
    rw [howned, hsent, hpostponed]
    exact hcore.owned
  called := by rw [hcalled, hpostponed]; exact hcore.called
  read := by rw [hcalled, hsent]; exact hcore.read

theorem ChatInv.of_maps (hinv : ChatInv s history)
    (hsent : (s'.stateOf history).sent = (s.stateOf history).sent)
    (hpostponed : (s'.stateOf history).postponed = (s.stateOf history).postponed)
    (howned : s'.historyByRequest = s.historyByRequest) (hcalled : s'.callbacks = s.callbacks)
    (hasked : (s'.stateOf history).postponedRequestEntry → s'.dialogRequests.contains history)
    (hpending : s'.dialogRequests.contains history →
      s'.dialogRequestsPending.contains history = false)
    (hentry : (s'.stateOf history).postponedRequestEntry →
      (s.stateOf history).postponeEntryRequest) : ChatInv s' history where
  toChatCore := hinv.toChatCore.of_maps hsent hpostponed howned hcalled hasked hpending
  waits := by
    unfold State.postponeHistoryRequest
    rw [hsent]
    exact hinv.waits
  nothing_waits := by
    unfold State.postponeHistoryRequest
    rw [hsent, hpostponed]
    exact hinv.nothing_waits
  entry := by
    unfold State.postponeEntryRequest
    rw [hsent]
    exact hentry

/-- What an event about the requests of one chat leads to: it may end one request. -/
structure Keeps (s s' : Histories History Callback) (ended : Option Nat) : Prop where
  inv : Inv s'
  reads : SameReads s s'
  kept : ∀ id h, ended ≠ some id → s.historyByRequest.find? id = some h →
    s'.historyByRequest.find? id = some h

theorem Keeps.refl (hinv : Inv s) (ended : Option Nat) : Keeps s s ended :=
  ⟨hinv, .refl s, fun _ _ _ h => h⟩

end Histories

end MessengerClient
