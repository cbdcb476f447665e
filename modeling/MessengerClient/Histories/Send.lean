import MessengerClient.Histories.Finish

/-!
# MessengerClient.Histories.Send

A new request gets the next id.  It waits for a deletion, or is sent and then makes the
others of its chat wait.
-/

namespace MessengerClient

namespace Histories

variable {History Callback : Type} [LinearOrder History]
variable {s s' s'' : Histories History Callback} {history : History}

/-! ## A new request -/

/-- The next id is the one of no request. -/
theorem Inv.next_fresh (hinv : Inv s) :
    s.historyByRequest.find? (s.requestAutoincrement + 1) = none
      ∧ s.callbacks.find? (s.requestAutoincrement + 1) = none := by
  constructor
  · cases h : s.historyByRequest.find? (s.requestAutoincrement + 1) with
    | none => rfl
    | some history => exact absurd (hinv.fresh _ _ h) (by omega)
  · cases h : s.callbacks.find? (s.requestAutoincrement + 1) with
    | none => rfl
    | some c => exact absurd (hinv.fresh_called _ _ h) (by omega)

theorem Inv.next_not_has (hinv : Inv s) (history : History) :
    (s.stateOf history).sent.find? (s.requestAutoincrement + 1) = none
      ∧ (s.stateOf history).postponed.find? (s.requestAutoincrement + 1) = none := by
  have hnot : ¬ (s.stateOf history).Has (s.requestAutoincrement + 1) := by
    rw [← (hinv.chat history).owned, hinv.next_fresh.1]
    nofun
  rw [State.Has, not_or, Option.not_isSome_iff_eq_none, Option.not_isSome_iff_eq_none] at hnot
  exact hnot

/-- The new id is the chat's. -/
def acceptRequest (s : Histories History Callback) (history : History) :
    Histories History Callback :=
  { s with
    requestAutoincrement := s.requestAutoincrement + 1
    historyByRequest := s.historyByRequest.emplace (s.requestAutoincrement + 1) history }

theorem acceptRequest_owned (hinv : Inv s) (history : History) (id : Nat) (h : History) :
    (s.acceptRequest history).historyByRequest.find? id = some h ↔
      s.historyByRequest.find? id = some h
        ∨ id = s.requestAutoincrement + 1 ∧ h = history := by
  rw [acceptRequest, FlatMap.find?_emplace, hinv.next_fresh.1, Option.getD_none]
  by_cases hid : id = s.requestAutoincrement + 1
  · subst hid
    simp [hinv.next_fresh.1, eq_comm]
  · simp [hid]

/-- A request gets the new id, and perhaps a callback. -/
theorem Touches.of_accept (hinv : Inv s) (hstate : ∀ h, h ≠ history → s'.stateOf h = s.stateOf h)
    (hdialogs : s'.dialogRequests = s.dialogRequests)
    (hpending : s'.dialogRequestsPending = s.dialogRequestsPending)
    (howned : s'.historyByRequest = (s.acceptRequest history).historyByRequest)
    (hauto : s'.requestAutoincrement = s.requestAutoincrement + 1)
    (hcalled : ∀ id h generator, s'.callbacks.find? id = some (h, generator) ↔
      s.callbacks.find? id = some (h, generator)
        ∨ id = s.requestAutoincrement + 1 ∧ s'.callbacks.find? id = some (h, generator)
          ∧ h = history) : Touches s s' history where
  state := hstate
  asked h _ := by rw [hdialogs]
  pending h _ := by rw [hpending]
  owned id h hne := by
    rw [howned, acceptRequest_owned hinv]
    simp [hne]
  called id h generator hne := by
    constructor
    · intro hs
      rcases (hcalled id h generator).mp hs with hold | ⟨-, -, hself⟩
      · exact hold
      · exact absurd hself hne
    · exact fun hs => (hcalled id h generator).mpr (Or.inl hs)
  new_owned id hs := by
    rw [howned, acceptRequest_owned hinv] at hs
    rcases hs with hs | ⟨hid, -⟩
    · exact Or.inl hs
    · right
      omega
  new_called id generator hs := by
    rcases (hcalled id history generator).mp hs with hold | ⟨hid, -, -⟩
    · exact Or.inl hold
    · right
      rw [howned, acceptRequest_owned hinv]
      exact Or.inr ⟨hid, rfl⟩
  autoincrement := by omega

/-- A history request that waits for a deletion. -/
theorem sendRequest_waiting (hinv : Inv s)
    (hdelete : (s.stateOf history).postponeHistoryRequest) :
    Keeps s ((s.acceptRequest history).setState history { s.stateOf history with
      postponed := (s.stateOf history).postponed.emplace (s.requestAutoincrement + 1)
        { generator := .caller } }) none := by
  have hchat := hinv.chat history
  obtain ⟨hsent, hpostponed⟩ := hinv.next_not_has history
  have ht : Touches s ((s.acceptRequest history).setState history { s.stateOf history with
      postponed := (s.stateOf history).postponed.emplace (s.requestAutoincrement + 1)
        { generator := .caller } }) history :=
    .of_accept hinv (fun h hne => stateOf_setState_ne hne) rfl rfl rfl rfl fun id h generator =>
      ⟨Or.inl, fun hs => hs.elim (fun hs => hs) fun hs => hs.2.1⟩
  refine ⟨hinv.of_touches ht ?_, ?_, fun id h _ hs =>
    (acceptRequest_owned hinv history id h).mpr (Or.inl hs)⟩
  · have hfind : ∀ id, ((s.stateOf history).postponed.emplace (s.requestAutoincrement + 1)
        { generator := .caller }).find? id = if id = s.requestAutoincrement + 1 then
          some { generator := .caller } else (s.stateOf history).postponed.find? id := fun id => by
      rw [FlatMap.find?_emplace, hpostponed, Option.getD_none]
    have howned := acceptRequest_owned hinv history
    generalize (s.stateOf history).postponed.emplace (s.requestAutoincrement + 1)
      { generator := .caller } = postponed at hfind ⊢
    have hstate : ((s.acceptRequest history).setState history
        { s.stateOf history with postponed := postponed }).stateOf history
          = { s.stateOf history with postponed := postponed } := stateOf_setState_self _
    exact {
      apart := by
        intro id
        rw [hstate]
        by_cases hid : id = s.requestAutoincrement + 1
        · left
          rw [hid, hsent]
        · show _ ∨ postponed.find? id = none
          rw [hfind, if_neg hid]
          exact hchat.apart id
      asked := by
        rw [hstate]
        exact hchat.asked
      pending := hchat.pending
      sent_caller := by
        rw [hstate]
        exact hchat.sent_caller
      postponed_caller := by
        intro id p hp
        rw [hstate] at hp
        rw [hfind] at hp
        split at hp
        · cases hp
          rfl
        · exact hchat.postponed_caller id p hp
      owned := by
        intro id
        rw [hstate]
        refine (howned id history).trans ?_
        unfold State.Has
        rw [hfind]
        by_cases hid : id = s.requestAutoincrement + 1
        · simp [hid]
        · simp [hid, hchat.owned id, State.Has]
      called := by
        intro id generator hc
        have hne : id ≠ s.requestAutoincrement + 1 := by
          rintro rfl
          cases hinv.next_fresh.2.symm.trans hc
        rw [hstate]
        show postponed.find? id = none
        rw [hfind, if_neg hne]
        exact hchat.called id generator hc
      read := by
        rw [hstate]
        exact hchat.read
      waits := by
        rw [hstate]
        exact hchat.waits
      nothing_waits := by
        rw [hstate]
        exact fun h => absurd hdelete h
      entry := by
        rw [hstate]
        exact hchat.entry }
  · exact .of_ids history (fun h hne => stateOf_setState_ne hne) (by rw [stateOf_setState_self])
      (by rw [stateOf_setState_self]) rfl rfl rfl

/-- A request that is sent, before the others of its chat are looked at. -/
def sendGenerated (s : Histories History Callback) (history : History) (type : RequestType)
    (generator : Generator) : Histories History Callback :=
  ((s.acceptRequest history).generate history (s.requestAutoincrement + 1) generator).setState
    history { s.stateOf history with
      sent := (s.stateOf history).sent.emplace (s.requestAutoincrement + 1)
        { generator := generator, type := type } }

section SendGenerated

variable {type : RequestType} {generator : Generator}

theorem sendGenerated_state (s : Histories History Callback) (history : History)
    (type : RequestType) (generator : Generator) :
    (s.sendGenerated history type generator).stateOf history
      = { s.stateOf history with
          sent := (s.stateOf history).sent.emplace (s.requestAutoincrement + 1)
            { generator := generator, type := type } } := stateOf_setState_self _

theorem sendGenerated_callbacks (history : History) (type : RequestType) (generator : Generator)
    (hinv : Inv s) (id : Nat) :
    (s.sendGenerated history type generator).callbacks.find? id
      = if id = s.requestAutoincrement + 1 then some (history, generator)
        else s.callbacks.find? id := by
  have h : (s.sendGenerated history type generator).callbacks
      = s.callbacks.emplace (s.requestAutoincrement + 1) (history, generator) := rfl
  rw [h, FlatMap.find?_emplace, hinv.next_fresh.2, Option.getD_none]

theorem sendGenerated_sent (history : History) (type : RequestType) (generator : Generator)
    (hinv : Inv s) (id : Nat) :
    ((s.sendGenerated history type generator).stateOf history).sent.find? id
      = if id = s.requestAutoincrement + 1 then some { generator := generator, type := type }
        else (s.stateOf history).sent.find? id := by
  rw [sendGenerated_state, FlatMap.find?_emplace, (hinv.next_not_has history).1, Option.getD_none]

theorem sendGenerated_spec (hinv : Inv s) (hhistory : type = .history → generator = .caller)
    (hread : ∀ tillId, generator = .readInbox tillId → type = .readInbox) :
    Touches s (s.sendGenerated history type generator) history
      ∧ ChatCore (s.sendGenerated history type generator) history := by
  have hchat := hinv.chat history
  have hsent := sendGenerated_sent history type generator hinv
  have hcalled := sendGenerated_callbacks history type generator hinv
  have hstate := sendGenerated_state s history type generator
  have hpostponed : ((s.sendGenerated history type generator).stateOf history).postponed
      = (s.stateOf history).postponed := by rw [hstate]
  have hentry : ((s.sendGenerated history type generator).stateOf history).postponedRequestEntry
      = (s.stateOf history).postponedRequestEntry := by rw [hstate]
  refine ⟨?_, ?_⟩
  · refine .of_accept hinv (fun h hne => stateOf_setState_ne hne) rfl rfl rfl rfl ?_
    intro id h g
    rw [hcalled]
    by_cases hid : id = s.requestAutoincrement + 1
    · subst hid
      rw [if_pos rfl]
      constructor
      · intro hs
        cases hs
        exact Or.inr ⟨rfl, rfl, rfl⟩
      · rintro (hs | ⟨-, hs, -⟩)
        · cases hinv.next_fresh.2.symm.trans hs
        · exact hs
    · simp [hid]
  · exact {
      apart := by
        intro id
        rw [hsent, hpostponed]
        by_cases hid : id = s.requestAutoincrement + 1
        · right
          rw [hid, (hinv.next_not_has history).2]
        · rw [if_neg hid]
          exact hchat.apart id
      asked := by
        rw [hentry]
        exact hchat.asked
      pending := hchat.pending
      sent_caller := by
        intro id r hr htype
        rw [hsent] at hr
        split at hr
        · cases hr
          exact hhistory htype
        · exact hchat.sent_caller id r hr htype
      postponed_caller := by
        rw [hpostponed]
        exact hchat.postponed_caller
      owned := by
        intro id
        refine (acceptRequest_owned hinv history id history).trans ?_
        unfold State.Has
        rw [hsent, hpostponed]
        by_cases hid : id = s.requestAutoincrement + 1
        · simp [hid]
        · simp [hid, hchat.owned id, State.Has]
      called := by
        intro id g hc
        rw [hcalled] at hc
        rw [hpostponed]
        split at hc
        · next hid => rw [hid, (hinv.next_not_has history).2]
        · exact hchat.called id g hc
      read := by
        intro id tillId hc
        rw [hcalled] at hc
        rw [hsent]
        split at hc
        · next hid =>
            obtain rfl : generator = .readInbox tillId := (Prod.mk.inj (Option.some.inj hc)).2
            rw [if_pos hid, hread tillId rfl]
        · next hid =>
            rw [if_neg hid]
            exact hchat.read id tillId hc }

end SendGenerated

/-- The entry of the chat is asked for again, if it was asked for before. -/
theorem checkRequestEntry_spec (hcore : ChatCore s history)
    (hentry : (s.stateOf history).postponedRequestEntry →
      (s.stateOf history).postponeEntryRequest) :
    Touches s (s.checkRequestEntry history) history ∧ SameReads s (s.checkRequestEntry history)
      ∧ ChatCore (s.checkRequestEntry history) history
      ∧ ((s.checkRequestEntry history).stateOf history).sent = (s.stateOf history).sent
      ∧ ((s.checkRequestEntry history).stateOf history).postponed = (s.stateOf history).postponed
      ∧ (((s.checkRequestEntry history).stateOf history).postponedRequestEntry →
        ((s.checkRequestEntry history).stateOf history).postponeEntryRequest)
      ∧ (s.checkRequestEntry history).historyByRequest = s.historyByRequest := by
  unfold checkRequestEntry
  dsimp only
  split
  · next hcond =>
      rw [Bool.and_eq_true_iff, Bool.and_eq_true_iff] at hcond
      obtain ⟨⟨-, hrequest⟩, hasked⟩ := hcond
      refine ⟨?_, ?_, ?_, ?_, ?_, ?_, rfl⟩
      · exact .of_ids history (fun h hne => stateOf_setState_ne hne) (fun _ _ => rfl)
          (fun _ _ => rfl)
          rfl rfl rfl
      · exact .of_ids history (fun h hne => stateOf_setState_ne hne) (by rw [stateOf_setState_self])
          (by rw [stateOf_setState_self]) rfl rfl rfl
      · exact hcore.of_maps (by rw [stateOf_setState_self]) (by rw [stateOf_setState_self]) rfl rfl
          (fun _ => hasked) hcore.pending
      · rw [stateOf_setState_self]
      · rw [stateOf_setState_self]
      · rw [stateOf_setState_self]
        exact fun _ => hrequest
  · exact ⟨.refl s history, .refl s, hcore, rfl, rfl, hentry, rfl⟩

/-- The history requests of a chat go back to wait. -/
theorem postponeSent_spec (hcore : ChatCore s history)
    (hdelete : (s.stateOf history).postponeHistoryRequest)
    (howner : ∀ id h generator, s.callbacks.find? id = some (h, generator) →
      s.historyByRequest.find? id = some history → h = history) :
    Touches s (s.postponeSent history) history ∧ SameReads s (s.postponeSent history)
      ∧ ChatInv (s.postponeSent history) history := by
  have hsent : ∀ id, ((s.postponeSent history).stateOf history).sent.find? id
      = ((s.stateOf history).sent.find? id).filter fun r => r.type != .history := fun id => by
    rw [postponeSent, stateOf_setState_self, FlatMap.find?_filter]
  have hpostponed : ∀ id, ((s.postponeSent history).stateOf history).postponed.find? id
      = ((s.stateOf history).postponed.find? id).or
        ((((s.stateOf history).sent.find? id).filter fun r => r.type == .history).map
          fun r => { generator := r.generator }) := fun id => by
    rw [postponeSent, stateOf_setState_self, FlatMap.find?_emplaceAll_entries,
      FlatMap.find?_mapVal, FlatMap.find?_filter]
  have hcallbacks : ∀ id, (s.postponeSent history).callbacks.find? id
      = (s.callbacks.find? id).filter fun _ =>
        !(((s.stateOf history).sent.find? id).filter fun r => r.type == .history).isSome :=
    fun id => (FlatMap.find?_filter _ _ id).trans (by
      simp only [FlatMap.contains, FlatMap.find?_filter])
  have hcalled_old : ∀ id c, (s.postponeSent history).callbacks.find? id = some c →
      s.callbacks.find? id = some c := by
    intro id c hc
    rw [hcallbacks, Option.filter_eq_some_iff] at hc
    exact hc.1
  have hcalled : ∀ id c, s.callbacks.find? id = some c →
      (∀ r, (s.stateOf history).sent.find? id = some r → r.type ≠ .history) →
      (s.postponeSent history).callbacks.find? id = some c := by
    intro id c hc hother
    rw [hcallbacks, Option.filter_eq_some_iff]
    refine ⟨hc, ?_⟩
    cases hr : (s.stateOf history).sent.find? id with
    | none => rfl
    | some r => simp [Option.filter, hother r hr]
  have hstate : (s.postponeSent history).stateOf history
      = { s.stateOf history with
          sent := ((s.postponeSent history).stateOf history).sent
          postponed := ((s.postponeSent history).stateOf history).postponed } := by
    rw [postponeSent, stateOf_setState_self]
  have hother : ∀ h, h ≠ history → (s.postponeSent history).stateOf h = s.stateOf h :=
    fun h hne => stateOf_setState_ne hne
  have howned : (s.postponeSent history).historyByRequest = s.historyByRequest := rfl
  have hdialogs : (s.postponeSent history).dialogRequests = s.dialogRequests := rfl
  have hpending : (s.postponeSent history).dialogRequestsPending = s.dialogRequestsPending := rfl
  have hrequests : (s.postponeSent history).readRequests = s.readRequests := rfl
  have hbefore : (s.postponeSent history).inboxReadBefore = s.inboxReadBefore := rfl
  have hauto : (s.postponeSent history).requestAutoincrement = s.requestAutoincrement := rfl
  generalize s.postponeSent history = s' at *
  -- A callback of another chat is not one of these requests.
  have hforeign : ∀ id h generator, s.callbacks.find? id = some (h, generator) → h ≠ history →
      (s.stateOf history).sent.find? id = none := by
    intro id h generator hc hne
    cases hr : (s.stateOf history).sent.find? id with
    | none => rfl
    | some r =>
        have hs := (hcore.owned id).mpr (Or.inl (Option.isSome_of_eq_some hr))
        exact absurd (howner id h generator hc hs) hne
  refine ⟨?_, ?_, ?_⟩
  · exact {
      state := hother
      asked := fun h _ => by rw [hdialogs]
      pending := fun h _ => by rw [hpending]
      owned := fun id h _ => by rw [howned]
      called := by
        intro id h generator hne
        constructor
        · exact hcalled_old id _
        · intro hc
          refine hcalled id _ hc fun r hr => ?_
          rw [hforeign id h generator hc hne] at hr
          cases hr
      new_owned := fun id hs => Or.inl (howned ▸ hs)
      new_called := fun id generator hc => Or.inl (hcalled_old id _ hc)
      autoincrement := Nat.le_of_eq hauto.symm }
  · refine ⟨fun h => ?_, fun h => ?_, hrequests, hbefore, fun id h tillId => ?_⟩
    · by_cases hne : h = history
      · rw [hne, hstate]
      · rw [hother h hne]
    · by_cases hne : h = history
      · rw [hne, hstate]
      · rw [hother h hne]
    · constructor
      · exact hcalled_old id _
      · intro hc
        refine hcalled id _ hc fun r hr => ?_
        by_cases hne : h = history
        · subst hne
          rw [hcore.read id tillId hc] at hr
          cases hr
          exact RequestType.noConfusion
        · rw [hforeign id h _ hc hne] at hr
          cases hr
  · have hsent_iff : ∀ id r, (s'.stateOf history).sent.find? id = some r ↔
        (s.stateOf history).sent.find? id = some r ∧ r.type ≠ .history := by
      intro id r
      rw [hsent, Option.filter_eq_some_iff, bne_iff_ne]
    have hdelete' : (s'.stateOf history).postponeHistoryRequest := by
      obtain ⟨id, r, hr, htype⟩ := State.postponeHistoryRequest_iff.mp hdelete
      exact State.postponeHistoryRequest_iff.mpr
        ⟨id, r, (hsent_iff id r).mpr ⟨hr, by rw [htype]; exact RequestType.noConfusion⟩, htype⟩
    exact {
      apart := by
        intro id
        rw [hsent, hpostponed]
        rcases hcore.apart id with hnone | hnone
        · left
          rw [hnone]
          rfl
        · rw [hnone]
          cases (s.stateOf history).sent.find? id with
          | none => exact Or.inl rfl
          | some r =>
              by_cases htype : r.type = .history
              · left
                simp [Option.filter, htype]
              · right
                simp [Option.filter, htype]
      asked := by
        rw [hstate, hdialogs]
        exact hcore.asked
      pending := by
        rw [hdialogs, hpending]
        exact hcore.pending
      sent_caller := fun id r hr htype => absurd htype ((hsent_iff id r).mp hr).2
      postponed_caller := by
        intro id p hp
        rw [hpostponed] at hp
        cases hold : (s.stateOf history).postponed.find? id with
        | some p' =>
            rw [hold] at hp
            cases hp
            exact hcore.postponed_caller id p hold
        | none =>
            rw [hold, Option.none_or, Option.map_eq_some_iff] at hp
            obtain ⟨r, hr, rfl⟩ := hp
            rw [Option.filter_eq_some_iff, beq_iff_eq] at hr
            exact hcore.sent_caller id r hr.1 hr.2
      owned := by
        intro id
        unfold State.Has
        rw [howned, hcore.owned, State.Has, hsent, hpostponed]
        cases (s.stateOf history).postponed.find? id with
        | some p => simp
        | none =>
            cases (s.stateOf history).sent.find? id with
            | none => simp
            | some r =>
                by_cases htype : r.type = .history <;> simp [Option.filter, htype]
      called := by
        intro id generator hc
        rw [hpostponed, hcore.called id generator (hcalled_old id _ hc), Option.none_or]
        rw [hcallbacks, Option.filter_eq_some_iff] at hc
        cases hr : ((s.stateOf history).sent.find? id).filter fun r => r.type == .history with
        | none => rfl
        | some r => simp [hr] at hc
      read := by
        intro id tillId hc
        rw [hsent_iff]
        exact ⟨hcore.read id tillId (hcalled_old id _ hc), RequestType.noConfusion⟩
      waits := fun _ id r hr => ((hsent_iff id r).mp hr).2
      nothing_waits := fun h => absurd hdelete' h
      entry := fun _ => State.postponeEntryRequest_of_history hdelete' }

section SendRequest

variable {type : RequestType} {generator : Generator}

/-- **A request that is sent at once.** -/
theorem sendGenerated_keeps (history : History) (type : RequestType) (generator : Generator)
    (hinv : Inv s) (hhistory : type = .history → generator = .caller)
    (hread : ∀ tillId, generator = .readInbox tillId → type = .readInbox)
    (hfree : type = .history → ¬ (s.stateOf history).postponeHistoryRequest) :
    ∃ s', s.sendRequest history type generator = s' ∧ Inv s'
      ∧ SameReads (s.sendGenerated history type generator) s'
      ∧ s'.historyByRequest = (s.acceptRequest history).historyByRequest := by
  obtain ⟨ht₁, hcore₁⟩ := sendGenerated_spec hinv hhistory hread
  have hchat := hinv.chat history
  have hsent₁ := sendGenerated_sent history type generator hinv
  have hstate₁ := sendGenerated_state s history type generator
  have hentry₁ : ((s.sendGenerated history type generator).stateOf history).postponedRequestEntry →
      ((s.sendGenerated history type generator).stateOf history).postponeEntryRequest := by
    intro h
    rw [hstate₁] at h
    obtain ⟨id, r, hr, htype⟩ := State.postponeEntryRequest_iff.mp (hchat.entry h)
    refine State.postponeEntryRequest_iff.mpr ⟨id, r, ?_, htype⟩
    rw [hsent₁, if_neg, hr]
    rintro rfl
    cases (hinv.next_not_has history).1.symm.trans hr
  have hrequest : s.sendRequest history type generator =
      if (((s.sendGenerated history type generator).checkRequestEntry history).stateOf
          history).postponeHistoryRequest then
        ((s.sendGenerated history type generator).checkRequestEntry history).postponeSent history
      else
        (s.sendGenerated history type generator).checkRequestEntry history := by
    have hcond : ¬ (decide (type = .history) && (s.stateOf history).postponeHistoryRequest) := by
      simpa using hfree
    unfold sendRequest
    exact if_neg hcond
  have howned₁ : (s.sendGenerated history type generator).historyByRequest
      = (s.acceptRequest history).historyByRequest := rfl
  rw [hrequest]
  generalize s.sendGenerated history type generator = s₁ at *
  obtain ⟨ht₂, hr₂, hcore₂, hsent₂, hpostponed₂, hentry₂, howned₂⟩ :=
    checkRequestEntry_spec hcore₁ hentry₁
  generalize s₁.checkRequestEntry history = s₂ at *
  have ht : Touches s s₂ history := ht₁.trans ht₂ fun id h => by
    rw [howned₂]
    exact h
  split
  · next hdelete =>
      have howner : ∀ id h g, s₂.callbacks.find? id = some (h, g) →
          s₂.historyByRequest.find? id = some history → h = history :=
        fun id h g hc hs => (ht.owner hinv hc hs).symm
      obtain ⟨ht₃, hr₃, hinv₃⟩ := postponeSent_spec hcore₂ hdelete howner
      exact ⟨_, rfl, hinv.of_touches (ht.trans ht₃ fun id h => h) hinv₃, hr₂.trans hr₃,
        howned₂.trans howned₁⟩
  · next hdelete =>
      refine ⟨s₂, rfl, hinv.of_touches ht { hcore₂ with
        waits := fun h => absurd h hdelete
        nothing_waits := ?_
        entry := hentry₂ }, hr₂, howned₂.trans howned₁⟩
      intro _
      rw [hpostponed₂, hstate₁]
      refine hchat.nothing_waits fun h => hdelete ?_
      obtain ⟨id, r, hr, htype⟩ := State.postponeHistoryRequest_iff.mp h
      refine State.postponeHistoryRequest_iff.mpr ⟨id, r, ?_, htype⟩
      rw [hsent₂, hsent₁, if_neg, hr]
      rintro rfl
      cases (hinv.next_not_has history).1.symm.trans hr

/-- The request of a caller reads nothing. -/
theorem sendGenerated_sameReads (hinv : Inv s) :
    SameReads s (s.sendGenerated history type .caller) where
  will h := by
    by_cases hne : h = history
    · rw [hne, sendGenerated_state]
    · rw [sendGenerated, stateOf_setState_ne hne]
      rfl
  sent h := by
    by_cases hne : h = history
    · rw [hne, sendGenerated_state]
    · rw [sendGenerated, stateOf_setState_ne hne]
      rfl
  requests := rfl
  before := rfl
  called id h tillId := by
    rw [sendGenerated_callbacks _ _ _ hinv]
    split
    · next hid =>
        subst hid
        simp [hinv.next_fresh.2]
    · rfl

/-- **A request of a caller.** -/
theorem sendRequest_keeps (hinv : Inv s) :
    Keeps s (s.sendRequest history type .caller) none := by
  by_cases hwaits : type = .history ∧ (s.stateOf history).postponeHistoryRequest
  · have hrequest := sendRequest_waiting hinv hwaits.2
    have hcond : (decide (type = .history) && (s.stateOf history).postponeHistoryRequest)
        = true := by
      simpa using hwaits
    unfold sendRequest
    dsimp only
    rw [if_pos hcond]
    exact hrequest
  · obtain ⟨s', hs', hinv', hreads, howned⟩ := sendGenerated_keeps history type
      .caller hinv (fun _ => rfl) (fun _ h => by cases h)
      fun htype hdelete => hwaits ⟨htype, hdelete⟩
    rw [hs']
    refine ⟨hinv', (sendGenerated_sameReads hinv).trans hreads, fun id h _ h' => ?_⟩
    rw [howned, acceptRequest_owned hinv]
    exact Or.inl h'

end SendRequest

end Histories

end MessengerClient
