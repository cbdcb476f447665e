import MessengerClient.Histories.Send

/-!
# MessengerClient.Histories.Dialogs

The callbacks of requests, and the chat list entries that are asked for.
-/

namespace MessengerClient

namespace Histories

variable {History Callback : Type} [LinearOrder History]
variable {s s' s'' : Histories History Callback} {history : History}

/-! ## The other events -/

/-- A callback that was called, or that will not be. -/
theorem Inv.erase_callback (hinv : Inv s) (id : Nat) :
    Inv { s with callbacks := s.callbacks.erase id } := by
  have hold : ∀ i c, (s.callbacks.erase id).find? i = some c → s.callbacks.find? i = some c := by
    intro i c h
    rw [FlatMap.find?_erase] at h
    split at h
    · cases h
    · exact h
  exact {
    chat := fun h => { hinv.chat h with
      called := fun i generator hc => (hinv.chat h).called i generator (hold i _ hc)
      read := fun i tillId hc => (hinv.chat h).read i tillId (hold i _ hc) }
    owner := fun i h generator h' hc => hinv.owner i h generator h' (hold i _ hc)
    fresh := hinv.fresh
    fresh_called := fun i c hc => hinv.fresh_called i c (hold i c hc) }

/-- **A `finish` callback.** -/
theorem finish_keeps {id : Nat} (hinv : Inv s)
    (hcalled : s.callbacks.find? id = some (history, .caller)) :
    ∃ s', { s with callbacks := s.callbacks.erase id }.checkPostponed history id = some s'
      ∧ Keeps s s' (some id) := by
  have hnone : ({ s with callbacks := s.callbacks.erase id } :
      Histories History Callback).callbacks.find? id = none := FlatMap.find?_erase_self _ _
  have hreads : SameReads s { s with callbacks := s.callbacks.erase id } := by
    refine ⟨fun _ => rfl, fun _ => rfl, rfl, rfl, fun i h tillId => ?_⟩
    show (s.callbacks.erase id).find? i = _ ↔ _
    rw [FlatMap.find?_erase]
    split
    · next hid => simp [hid, hcalled]
    · rfl
  obtain ⟨s', hs', hkeeps⟩ := checkPostponed_keeps history (hinv.erase_callback id)
    (fun h hs => hinv.owner id history .caller h hcalled hs)
    ((hinv.chat history).called id .caller hcalled) (fun tillId h => by cases hnone.symm.trans h)
  exact ⟨s', hs', hkeeps.inv, hreads.trans hkeeps.reads, hkeeps.kept⟩

theorem checkEmptyState_keeps (hinv : Inv s) : Keeps s (s.checkEmptyState history) none := by
  obtain ⟨ht, hr, hc⟩ := checkEmptyState_spec (hinv.chat history)
  obtain ⟨states, heq⟩ := checkEmptyState_eq s history
  exact ⟨hinv.of_touches ht hc, hr, fun _ _ _ h => by rw [heq]; exact h⟩

/-- A chat whose requests and dialog entry stay as they are. -/
theorem Inv.setState (hinv : Inv s) {state : State}
    (hsent : state.sent = (s.stateOf history).sent)
    (hpostponed : state.postponed = (s.stateOf history).postponed)
    (hentry : state.postponedRequestEntry = (s.stateOf history).postponedRequestEntry) :
    Inv (s.setState history state) := by
  have hchat := hinv.chat history
  refine hinv.of_touches
    (.of_ids history (fun h hne => stateOf_setState_ne hne) (fun _ _ => rfl) (fun _ _ => rfl)
      rfl rfl rfl)
    (hchat.of_maps ?_ ?_ rfl rfl ?_ hchat.pending ?_)
  · rw [stateOf_setState_self, hsent]
  · rw [stateOf_setState_self, hpostponed]
  · rw [stateOf_setState_self, hentry]
    exact hchat.asked
  · rw [stateOf_setState_self, hentry]
    exact hchat.entry

theorem requestDialogEntry_keeps (hinv : Inv s) (isCommunity : Bool) (callback : Option Callback) :
    Keeps s (s.requestDialogEntry history isCommunity callback) none := by
  have hchat := hinv.chat history
  unfold requestDialogEntry
  split
  · exact .refl hinv _
  · cases hasked : s.dialogRequests.find? history with
    | some callbacks =>
        have hcontains : ∀ h, (s.dialogRequests.insert history
            (callbacks ++ callback.toList)).contains h = s.dialogRequests.contains h := by
          intro h
          simp only [FlatMap.contains, FlatMap.find?_insert]
          split
          · next hh => rw [hh, hasked]; rfl
          · rfl
        refine ⟨hinv.of_touches (.of_ids history (fun _ _ => rfl)
          (fun h _ => hcontains h) (fun _ _ => rfl) rfl rfl rfl)
          (hchat.of_maps rfl rfl rfl rfl ?_ ?_ hchat.entry),
          .of_ids history (fun _ _ => rfl) rfl rfl rfl rfl rfl, fun _ _ _ h => h⟩
        · exact fun h => (hcontains history).trans (hchat.asked h)
        · exact fun h => hchat.pending ((hcontains history).symm.trans h)
    | none =>
        have hnot : s.dialogRequests.contains history = false := by
          rw [FlatMap.contains, hasked]
          rfl
        refine ⟨hinv.of_touches (.of_ids history (fun _ _ => rfl) (fun _ _ => rfl)
          ?_ rfl rfl rfl) (hchat.of_maps rfl rfl rfl rfl hchat.asked ?_ hchat.entry),
          .of_ids history (fun _ _ => rfl) rfl rfl rfl rfl rfl, fun _ _ _ h => h⟩
        · intro h hne
          simp only [FlatMap.contains, FlatMap.find?_insert, if_neg hne]
        · exact fun h => absurd (hnot.symm.trans h) Bool.false_ne_true

theorem takeDialogCallbacks_keeps (hinv : Inv s) :
    Keeps s (s.takeDialogCallbacks history) none := by
  have hchat := hinv.chat history
  unfold takeDialogCallbacks
  split
  · exact .refl hinv _
  · next hentry =>
      refine ⟨hinv.of_touches (.of_ids history (fun _ _ => rfl) ?_ ?_ rfl rfl rfl)
        (hchat.of_maps rfl rfl rfl rfl (fun h => absurd h hentry) ?_ (fun h => absurd h hentry)),
        .of_ids history (fun _ _ => rfl) rfl rfl rfl rfl rfl, fun _ _ _ h => h⟩
      · exact fun h hne => congrArg Option.isSome (FlatMap.find?_erase_ne _ hne)
      · exact fun h hne => congrArg Option.isSome (FlatMap.find?_erase_ne _ hne)
      · intro _
        simp [FlatMap.contains]

/-- The chats whose request can change the entry are marked. -/
theorem sendDialogRequests_state (s : Histories History Callback) (h : History) :
    s.sendDialogRequests.stateOf h
      = if s.dialogRequestsPending.contains h && (s.stateOf h).postponeEntryRequest then
          { s.stateOf h with postponedRequestEntry := true }
        else s.stateOf h := by
  unfold sendDialogRequests stateOf lookup
  dsimp only
  rw [FlatMap.find?_mapEntries]
  cases s.states.find? h with
  | some state => rfl
  | none =>
      have hnone : (s.dialogRequestsPending.contains h
          && (({} : State)).postponeEntryRequest) = false := by
        rw [Bool.and_eq_false_iff]
        exact Or.inr rfl
      simp only [Option.map_none, Option.getD_none, hnone, Bool.false_eq_true, if_false]

theorem sendDialogRequests_asked (s : Histories History Callback) (h : History) :
    s.sendDialogRequests.dialogRequests.contains h
      = (s.dialogRequests.contains h || s.dialogRequestsPending.contains h) := by
  unfold sendDialogRequests FlatMap.contains
  dsimp only
  rw [FlatMap.find?_emplaceAll_entries, Option.isSome_or]

theorem sendDialogRequests_keeps (hinv : Inv s) : Keeps s s.sendDialogRequests none := by
  have hstate := sendDialogRequests_state s
  have hasked := sendDialogRequests_asked s
  have hsent : ∀ h, (s.sendDialogRequests.stateOf h).sent = (s.stateOf h).sent := fun h => by
    rw [hstate]
    split <;> rfl
  have hpostponed : ∀ h, (s.sendDialogRequests.stateOf h).postponed = (s.stateOf h).postponed :=
    fun h => by
      rw [hstate]
      split <;> rfl
  refine ⟨?_, ?_, fun _ _ _ h => h⟩
  · refine ⟨fun h => ?_, hinv.owner, hinv.fresh, hinv.fresh_called⟩
    have hchat := hinv.chat h
    refine hchat.of_maps (hsent h) (hpostponed h) rfl rfl ?_ (fun _ => rfl) ?_
    · rw [hstate, hasked, Bool.or_eq_true]
      split
      · next hcond => exact fun _ => Or.inr (Bool.and_eq_true_iff.mp hcond).1
      · exact fun h => Or.inl (hchat.asked h)
    · rw [hstate]
      split
      · next hcond => exact fun _ => (Bool.and_eq_true_iff.mp hcond).2
      · exact hchat.entry
  · refine ⟨fun h => ?_, fun h => ?_, rfl, rfl, fun _ _ _ => Iff.rfl⟩
    · rw [hstate]
      split <;> rfl
    · rw [hstate]
      split <;> rfl

end Histories

end MessengerClient
