import MessengerClient.RepliesList.Counters
import Mathlib

/-!
# MessengerClient.RepliesList.Unread

The unread count of a thread.  It is counted on the loaded list where the list tells it, moved
along by what was read since the last known count, or left unknown.

A thread is the set of the ids of its messages, and `unread` counts those above a position.
The list is the part of the thread between its ends (`Loaded`), so what it holds between two
positions that it covers is what the thread has there (`card_read`).
-/

namespace MessengerClient

namespace Data

namespace RepliesList

/-! ## Reading -/

def setInboxReadTill (s : RepliesList) (readTillId : MsgId) (unreadCount : Option Int) :
    RepliesList :=
  let newReadTillId := max readTillId 1
  if newReadTillId < s.inboxReadTillId then
    s
  else
    let changed := newReadTillId > s.inboxReadTillId
    let read := { s with inboxReadTillId := newReadTillId }
    let unreadCount :=
      if s.skippedAfter = some 0 ∧ s.list.head?.any (newReadTillId ≥ ·) then some 0
      else unreadCount
    if s.unreadCount ≠ unreadCount ∧ (changed ∨ unreadCount.isSome) then
      { read with unreadCount := unreadCount }
    else
      read

/-- The count before: of the whole thread, where nothing was said to be unread at the start and
something is read now. -/
def wasUnreadCountAfter (s : RepliesList) (afterId : MsgId) : Option Int :=
  let startingMarkingAsRead := s.unreadCount = some 0 ∧ s.inboxReadTillId = 1 ∧ afterId > 1
  if startingMarkingAsRead then some (s.fullCount.getD 0) else s.unreadCount

/-- `none` is the failed `Expects`, `some none` is no count. -/
def computeUnreadCountLocally (s : RepliesList) (rootId afterId : MsgId) :
    Option (Option Int) :=
  if afterId < s.inboxReadTillId then
    none
  else
    let wasUnreadCountAfter := s.wasUnreadCountAfter afterId
    let readTillId := max afterId rootId
    let wasReadTillId := s.inboxReadTillId
    let backLoaded := s.skippedBefore = some 0
    let frontLoaded := s.skippedAfter = some 0
    let fullLoaded := backLoaded ∧ frontLoaded
    let allUnread := readTillId = rootId ∨ fullLoaded ∧ s.list = []
    if allUnread ∧ fullLoaded then
      some (some s.list.length)
    else if frontLoaded ∧ s.list.head?.any (readTillId ≥ ·) then
      some (some 0)
    else if wasReadTillId = readTillId then
      some wasUnreadCountAfter
    else if frontLoaded ∧ s.list.getLast?.any (readTillId ≥ ·) then
      some (some (lowerBound s.list readTillId).1.length)
    else if s.list = [] then
      some none
    else if (frontLoaded ∨ s.list.head?.any (readTillId ≤ ·)) ∧
        (backLoaded ∨ s.list.getLast?.any (wasReadTillId ≥ ·)) then
      let rest := (lowerBound s.list readTillId).2
      let read := (lowerBound rest wasReadTillId).1.length
      some (wasUnreadCountAfter.map fun count => max (count - read) 0)
    else
      some none

/-! ## Threads -/

/-- How many ids of a thread are above a position. -/
def unread (thread : Finset MsgId) (till : MsgId) : Int := (thread.filter (till < ·)).card

/-- The list is the part of the thread between its ends.  A message of the thread that is not
in the list is newer, and then newer ones may be skipped, or older, and then older ones may. -/
structure Loaded (s : RepliesList) (rootId : MsgId) (thread : Finset MsgId) : Prop where
  above : ∀ id ∈ thread, rootId < id
  descending : s.list.Pairwise (· > ·)
  subset : ∀ id ∈ s.list, id ∈ thread
  outside : ∀ id ∈ thread, id ∉ s.list →
    (∀ x ∈ s.list, x < id) ∧ s.skippedAfter ≠ some 0 ∨
      (∀ x ∈ s.list, id < x) ∧ s.skippedBefore ≠ some 0

/-- The unread count is unknown or right. -/
def UnreadRight (s : RepliesList) (thread : Finset MsgId) : Prop :=
  ∀ count, s.unreadCount = some count → count = unread thread s.inboxReadTillId

/-- Nothing is said to be unread before the first reading, and the whole thread is counted. -/
structure Starting (s : RepliesList) (thread : Finset MsgId) : Prop where
  unreadCount : s.unreadCount = some 0
  inboxReadTillId : s.inboxReadTillId = 1
  fullCount : s.fullCount = some (thread.card : Int)

variable {s : RepliesList} {rootId afterId id till : MsgId} {thread : Finset MsgId}

theorem unread_nonneg (thread : Finset MsgId) (till : MsgId) : 0 ≤ unread thread till :=
  Int.natCast_nonneg _

theorem unread_le_card (thread : Finset MsgId) (till : MsgId) : unread thread till ≤ thread.card :=
  Int.ofNat_le.mpr (Finset.card_filter_le _ _)

theorem unread_eq_zero (h : ∀ id ∈ thread, id ≤ till) : unread thread till = 0 := by
  simpa [unread, Finset.card_eq_zero, Finset.filter_eq_empty_iff] using h

theorem unread_eq_card (h : ∀ id ∈ thread, till < id) : unread thread till = thread.card := by
  rw [unread, Finset.filter_true_of_mem h]

theorem unread_insert (hnew : id ∉ thread) :
    unread (insert id thread) till = unread thread till + if till < id then 1 else 0 := by
  rw [unread, Finset.filter_insert]
  split
  · rw [Finset.card_insert_of_notMem (by simp [hnew]), unread, Nat.cast_add, Nat.cast_one]
  · rw [unread, add_zero]

theorem unread_erase (hmem : id ∈ thread) :
    unread (thread.erase id) till = unread thread till - if till < id then 1 else 0 := by
  have hinsert := @unread_insert id till _ (Finset.notMem_erase id thread)
  rw [Finset.insert_erase hmem] at hinsert
  omega

/-- What is read between two positions is no longer unread. -/
theorem unread_add {from_ : MsgId} (h : from_ ≤ till) :
    unread thread from_ =
      (thread.filter fun id => from_ < id ∧ id ≤ till).card + unread thread till := by
  have hsplit : thread.filter (from_ < ·) =
      (thread.filter fun id => from_ < id ∧ id ≤ till) ∪ thread.filter (till < ·) := by
    ext id
    simp only [Finset.mem_filter, Finset.mem_union]
    constructor
    · rintro ⟨hmem, hlt⟩
      cases le_or_gt id till with
      | inl hle => exact .inl ⟨hmem, hlt, hle⟩
      | inr hgt => exact .inr ⟨hmem, hgt⟩
    · rintro (⟨hmem, hlt, -⟩ | ⟨hmem, hgt⟩)
      · exact ⟨hmem, hlt⟩
      · exact ⟨hmem, lt_of_le_of_lt h hgt⟩
  have hdisjoint : Disjoint (thread.filter fun id => from_ < id ∧ id ≤ till)
      (thread.filter (till < ·)) := by
    refine Finset.disjoint_filter.mpr fun id _ hle hgt => ?_
    exact absurd hgt (not_lt.mpr hle.2)
  rw [unread, unread, hsplit, Finset.card_union_of_disjoint hdisjoint, Nat.cast_add]

/-! ## The list and the thread -/

/-- In a list from the newest to the oldest, the binary search parts the ids above a position
from the others. -/
theorem lowerBound_eq {list : List MsgId} (h : list.Pairwise (· > ·)) (till : MsgId) :
    lowerBound list till = (list.filter (till < ·), list.filter (· ≤ till)) := by
  induction list with
  | nil => rfl
  | cons x list ih =>
      obtain ⟨hx, hlist⟩ := List.pairwise_cons.mp h
      rw [lowerBound, Prod.mk.injEq] at ih ⊢
      cases le_or_gt x till with
      | inl hle =>
          have hall : ∀ y ∈ list, y ≤ till := fun y hy => (hx y hy).le.trans hle
          simp only [gt_iff_lt, List.takeWhile_cons, List.dropWhile_cons, List.filter_cons,
            not_lt.mpr hle, hle, decide_false, decide_true, if_true, Bool.false_eq_true, if_false]
          refine ⟨(List.filter_eq_nil_iff.mpr fun y hy => ?_).symm, ?_⟩
          · simpa using hall y hy
          · rw [List.filter_eq_self.mpr fun y hy => decide_eq_true (hall y hy)]
      | inr hgt =>
          simp only [gt_iff_lt, List.takeWhile_cons, List.dropWhile_cons, List.filter_cons,
            hgt, not_le.mpr hgt, decide_false, decide_true, if_true, Bool.false_eq_true, if_false]
          exact ⟨congrArg (x :: ·) (ih hlist).1, (ih hlist).2⟩

namespace Loaded

variable (h : s.Loaded rootId thread)

include h

/-- A message of the thread that the list covers is in the list. -/
theorem mem_list (hid : id ∈ thread) (hfront : s.skippedAfter = some 0 ∨ ∃ x ∈ s.list, id ≤ x)
    (hback : s.skippedBefore = some 0 ∨ ∃ x ∈ s.list, x ≤ id) : id ∈ s.list := by
  by_contra hnot
  cases h.outside id hid hnot with
  | inl hnewer =>
      obtain hzero | ⟨x, hx, hle⟩ := hfront
      · exact hnewer.2 hzero
      · exact absurd (hnewer.1 x hx) (not_lt.mpr hle)
  | inr holder =>
      obtain hzero | ⟨x, hx, hle⟩ := hback
      · exact holder.2 hzero
      · exact absurd (holder.1 x hx) (not_lt.mpr hle)

/-- What a filter leaves of the thread and of the list is as much, where the list covers it. -/
theorem card_filter {p : MsgId → Bool} (hcovered : ∀ id ∈ thread, p id = true → id ∈ s.list) :
    (thread.filter (p · = true)).card = (s.list.filter p).length := by
  have hnodup : s.list.Nodup := h.descending.imp fun hgt => ne_of_gt hgt
  rw [← List.toFinset_card_of_nodup (hnodup.filter p)]
  congr 1
  ext id
  simp only [Finset.mem_filter, List.mem_toFinset, List.mem_filter]
  exact ⟨fun hid => ⟨hcovered id hid.1 hid.2, hid.2⟩, fun hid => ⟨h.subset id hid.1, hid.2⟩⟩

/-- **The unread messages are those of the list** where the list covers all after a position. -/
theorem unread_eq (hfront : s.skippedAfter = some 0)
    (hback : s.skippedBefore = some 0 ∨ ∃ x ∈ s.list, x ≤ till) :
    unread thread till = (s.list.filter (till < ·)).length := by
  have hcard := h.card_filter (p := (decide <| till < ·)) fun id hid hlt => by
    refine h.mem_list hid (.inl hfront) (hback.imp_right ?_)
    rintro ⟨x, hx, hle⟩
    exact ⟨x, hx, hle.trans (of_decide_eq_true hlt).le⟩
  simp only [decide_eq_true_eq] at hcard
  rw [unread, hcard]

/-- **What is read between two positions** is what the list has there, where it covers both. -/
theorem card_read {from_ : MsgId} (hfront : s.skippedAfter = some 0 ∨ ∃ x ∈ s.list, till ≤ x)
    (hback : s.skippedBefore = some 0 ∨ ∃ x ∈ s.list, x ≤ from_) :
    (thread.filter fun id => from_ < id ∧ id ≤ till).card =
      (lowerBound (lowerBound s.list till).2 from_).1.length := by
  have hcard := h.card_filter (p := fun id => decide (from_ < id ∧ id ≤ till)) fun id hid hp => by
    obtain ⟨hlt, hle⟩ := of_decide_eq_true hp
    refine h.mem_list hid (hfront.imp_right ?_) (hback.imp_right ?_)
    · rintro ⟨x, hx, hx'⟩
      exact ⟨x, hx, hle.trans hx'⟩
    · rintro ⟨x, hx, hx'⟩
      exact ⟨x, hx, hx'.trans hlt.le⟩
  simp only [decide_eq_true_eq] at hcard
  rw [lowerBound_eq h.descending, lowerBound_eq (h.descending.filter _), List.filter_filter, hcard]
  simp only [Bool.decide_and]

end Loaded

/-! ## The local count -/

/-- An end of the list that is as `p` says is a message of the list. -/
theorem exists_of_head {p : MsgId → Bool} {list : List MsgId} (h : list.head?.any p = true) :
    ∃ x ∈ list, p x = true := by
  obtain ⟨x, hx, hp⟩ := (Option.any_eq_true _ _).mp h
  exact ⟨x, List.mem_of_mem_head? hx, hp⟩

theorem exists_of_getLast {p : MsgId → Bool} {list : List MsgId} (h : list.getLast?.any p = true) :
    ∃ x ∈ list, p x = true := by
  obtain ⟨x, hx, hp⟩ := (Option.any_eq_true _ _).mp h
  exact ⟨x, List.mem_of_getLast? hx, hp⟩

/-- **The local count is right**, or there is none, where the count before was right or all that
is loaded is read now. -/
theorem computeUnreadCountLocally_of_was (h : s.Loaded rootId thread)
    (hwas : ∀ n, s.wasUnreadCountAfter afterId = some n → n = unread thread s.inboxReadTillId ∨
      s.inboxReadTillId < afterId ∧ ∀ id ∈ s.list, id < afterId)
    (hafter : s.inboxReadTillId ≤ afterId) :
    ∃ count, s.computeUnreadCountLocally rootId afterId = some count ∧
      ∀ n, count = some n → n = unread thread (max afterId rootId) := by
  unfold computeUnreadCountLocally
  rw [if_neg (not_lt.mpr hafter)]
  have hlater : afterId ≤ max afterId rootId := le_max_left _ _
  generalize max afterId rootId = readTillId at hlater ⊢
  dsimp only
  split
  · -- the whole thread is in the list, and all of it is unread or it is empty
    next hfull =>
    obtain ⟨hall, hback, hfront⟩ := hfull
    refine ⟨_, rfl, fun n hn => ?_⟩
    obtain rfl := Option.some.inj hn
    rw [h.unread_eq hfront (.inl hback)]
    obtain hroot | ⟨-, hnil⟩ := hall
    · rw [List.filter_eq_self.mpr fun id hid => ?_]
      exact decide_eq_true (hroot ▸ h.above id (h.subset id hid))
    · rw [hnil, List.filter_nil]
  split
  · -- read till the end of the thread
    next hend =>
    obtain ⟨hfront, hhead⟩ := hend
    obtain ⟨front, hhead, hle⟩ := (Option.any_eq_true _ _).mp hhead
    have hle : front ≤ readTillId := of_decide_eq_true hle
    refine ⟨_, rfl, fun n hn => ?_⟩
    obtain rfl := Option.some.inj hn
    rw [h.unread_eq hfront (.inr ⟨front, List.mem_of_mem_head? hhead, hle⟩),
      List.filter_eq_nil_iff.mpr fun id hid => ?_]
    · rfl
    · simpa using (le_head h.descending hhead id hid).trans hle
  next hnotEnd =>
  split
  · -- the position did not change
    next hsame =>
    refine ⟨_, rfl, fun n hn => ?_⟩
    cases hwas n hn with
    | inl hright => exact hsame ▸ hright
    | inr hread => exact absurd (hread.1.trans_le hlater) (hsame ▸ lt_irrefl _)
  split
  · -- counted on the list
    next hloaded =>
    obtain ⟨last, hlast, hle⟩ := exists_of_getLast hloaded.2
    refine ⟨_, rfl, fun n hn => ?_⟩
    obtain rfl := Option.some.inj hn
    rw [h.unread_eq hloaded.1 (.inr ⟨last, hlast, of_decide_eq_true hle⟩),
      lowerBound_eq h.descending]
  split
  · exact ⟨none, rfl, fun n hn => by cases hn⟩
  next hne =>
  split
  · -- moved along by what was read
    next hcovered =>
    obtain ⟨hfront, hback⟩ := hcovered
    refine ⟨_, rfl, fun n hn => ?_⟩
    obtain ⟨count, hcount, rfl⟩ := Option.map_eq_some_iff.mp hn
    cases hwas count hcount with
    | inr hread =>
      -- the list ends before the new position, so the end of the thread would have been read
      obtain ⟨front, hhead⟩ := Option.isSome_iff_exists.mp (List.isSome_head?.mpr hne)
      have hlt := (hread.2 front (List.mem_of_mem_head? hhead)).trans_le hlater
      obtain hzero | hle := hfront
      · exact absurd ⟨hzero, by simp [hhead, hlt.le]⟩ hnotEnd
      · simp only [hhead, Option.any_some, decide_eq_true_eq] at hle
        exact absurd hlt (not_lt.mpr hle)
    | inl hright =>
      have hfront : s.skippedAfter = some 0 ∨ ∃ x ∈ s.list, readTillId ≤ x := by
        refine hfront.imp_right fun hhead => ?_
        obtain ⟨x, hx, hle⟩ := exists_of_head hhead
        exact ⟨x, hx, of_decide_eq_true hle⟩
      have hback : s.skippedBefore = some 0 ∨ ∃ x ∈ s.list, x ≤ s.inboxReadTillId := by
        refine hback.imp_right fun hlast => ?_
        obtain ⟨x, hx, hle⟩ := exists_of_getLast hlast
        exact ⟨x, hx, of_decide_eq_true hle⟩
      have hadd := @unread_add readTillId thread s.inboxReadTillId (hafter.trans hlater)
      have hnonneg := unread_nonneg thread readTillId
      rw [← hright, h.card_read hfront hback] at hadd
      omega
  · exact ⟨none, rfl, fun n hn => by cases hn⟩

theorem computeUnreadCountLocally_right (h : s.Loaded rootId thread) (hright : s.UnreadRight thread)
    (hafter : s.inboxReadTillId ≤ afterId) :
    ∃ count, s.computeUnreadCountLocally rootId afterId = some count ∧
      ∀ n, count = some n → n = unread thread (max afterId rootId) := by
  refine computeUnreadCountLocally_of_was h (fun n hn => ?_) hafter
  rw [wasUnreadCountAfter] at hn
  split at hn
  · next hstarting =>
    -- nothing is above the first position, and the list is below the new one
    obtain ⟨hcount, hfirst, hlater⟩ := hstarting
    have hlt : s.inboxReadTillId < afterId := hfirst ▸ hlater
    have hzero := hright 0 hcount
    rw [unread, eq_comm, Int.natCast_eq_zero, Finset.card_eq_zero,
      Finset.filter_eq_empty_iff] at hzero
    exact .inr ⟨hlt, fun id hid => (not_lt.mp (hzero (h.subset id hid))).trans_lt hlt⟩
  · exact .inl (hright n hn)

/-- At the first reading the whole thread was unread. -/
theorem computeUnreadCountLocally_starting (h : s.Loaded rootId thread) (hroot : 0 < rootId)
    (hstart : s.Starting thread) (hafter : 1 < afterId) :
    ∃ count, s.computeUnreadCountLocally rootId afterId = some count ∧
      ∀ n, count = some n → n = unread thread (max afterId rootId) := by
  have hfirst := hstart.inboxReadTillId
  refine computeUnreadCountLocally_of_was h (fun n hn => .inl ?_) (hfirst ▸ hafter.le)
  rw [wasUnreadCountAfter, if_pos ⟨hstart.unreadCount, hfirst, hafter⟩, hstart.fullCount] at hn
  have habove : ∀ id ∈ thread, 1 < id := fun id hid =>
    (show (1 : Int) ≤ rootId from hroot).trans_lt (h.above id hid)
  rw [hfirst, unread_eq_card habove]
  exact (Option.some.inj hn).symm

/-! ## What keeps the count -/

/-- A message that joins the thread, or leaves it, moves the count by as much. -/
theorem UnreadRight.changeUnreadCountByPost {thread' : Finset MsgId} {delta : Int}
    (h : s.UnreadRight thread) (hmove : unread thread' s.inboxReadTillId =
      unread thread s.inboxReadTillId + if s.inboxReadTillId < id then delta else 0) :
    (s.changeUnreadCountByPost id delta).UnreadRight thread' := by
  unfold RepliesList.changeUnreadCountByPost
  split
  · exact fun count hcount => by cases hcount
  split
  · next hsome =>
    have hcount := h _ hsome
    have hnonneg := unread_nonneg thread' s.inboxReadTillId
    split
    · next hgt =>
      rw [if_pos hgt] at hmove
      intro n hn
      obtain rfl := Option.some.inj hn
      show max _ 0 = unread thread' s.inboxReadTillId
      omega
    · next hle =>
      rw [if_neg hle, add_zero] at hmove
      exact fun n hn => (h n hn).trans hmove.symm
  · next hnone => exact fun n hn => absurd (hnone.symm.trans hn) (by simp)

/-- Reading keeps the count right, or makes it unknown. -/
theorem UnreadRight.setInboxReadTill (h : s.UnreadRight thread) (hloaded : s.Loaded rootId thread)
    {readTillId : MsgId} {unreadCount : Option Int}
    (hcount : ∀ n, unreadCount = some n → n = unread thread (max readTillId 1)) :
    (s.setInboxReadTill readTillId unreadCount).UnreadRight thread := by
  unfold RepliesList.setInboxReadTill
  generalize max readTillId 1 = newReadTillId at hcount ⊢
  dsimp only
  split
  · exact h
  next hge =>
  have hgiven : ∀ n, (if s.skippedAfter = some 0 ∧ s.list.head?.any (newReadTillId ≥ ·) then some 0
      else unreadCount) = some n → n = unread thread newReadTillId := by
    intro n hn
    split at hn
    · next hend =>
      obtain ⟨front, hhead, hle⟩ := (Option.any_eq_true _ _).mp hend.2
      have hle : front ≤ newReadTillId := of_decide_eq_true hle
      obtain rfl := Option.some.inj hn
      refine (unread_eq_zero fun id hid => ?_).symm
      by_contra hgt
      have hgt := not_le.mp hgt
      have hmem := hloaded.mem_list hid (.inl hend.1)
        (.inr ⟨front, List.mem_of_mem_head? hhead, hle.trans hgt.le⟩)
      exact absurd ((le_head hloaded.descending hhead id hmem).trans hle) (not_le.mpr hgt)
    · exact hcount n hn
  generalize (if s.skippedAfter = some 0 ∧ s.list.head?.any (newReadTillId ≥ ·) then some 0
    else unreadCount) = given at hgiven ⊢
  split
  · exact hgiven
  · next hkept =>
    -- nothing was set: the count is the given one, or the position is the old one
    intro n hn
    have hn : s.unreadCount = some n := hn
    rw [not_and_or, not_not, not_or] at hkept
    cases hkept with
    | inl hsame => exact hgiven n (hsame ▸ hn)
    | inr hold =>
        have hold := le_antisymm (not_lt.mp hold.1) (not_lt.mp hge)
        exact (h n hn).trans (congrArg _ hold.symm)

/-- **The unread count stays unknown or right**: counted locally for a later position, and when
a message joins the thread, leaves it or is read, with a right count or with none.  Before the
first reading nothing may be said to be unread. -/
theorem unread_right (h : s.Loaded rootId thread) :
    (s.UnreadRight thread → ∀ afterId, s.inboxReadTillId ≤ afterId →
      ∃ count, s.computeUnreadCountLocally rootId afterId = some count ∧
        ∀ n, count = some n → n = unread thread (max afterId rootId)) ∧
    (s.Starting thread → 0 < rootId → ∀ afterId, 1 < afterId →
      ∃ count, s.computeUnreadCountLocally rootId afterId = some count ∧
        ∀ n, count = some n → n = unread thread (max afterId rootId)) ∧
    (s.UnreadRight thread →
      (∀ id, id ∉ thread → (s.changeUnreadCountByPost id 1).UnreadRight (insert id thread)) ∧
      (∀ id ∈ thread, (s.changeUnreadCountByPost id (-1)).UnreadRight (thread.erase id)) ∧
      (∀ readTillId unreadCount,
        (∀ n, unreadCount = some n → n = unread thread (max readTillId 1)) →
          (s.setInboxReadTill readTillId unreadCount).UnreadRight thread)) := by
  refine ⟨fun hright afterId => computeUnreadCountLocally_right h hright,
    fun hstart hroot afterId => computeUnreadCountLocally_starting h hroot hstart,
    fun hright => ⟨fun id hnew => ?_, fun id hmem => ?_, fun _ _ => hright.setInboxReadTill h⟩⟩
  · exact hright.changeUnreadCountByPost (unread_insert hnew)
  · refine hright.changeUnreadCountByPost ?_
    rw [unread_erase hmem]
    split <;> omega

/-- The two newest messages of a thread of four are loaded, and three are unread. -/
def newestLoaded : RepliesList where
  list := [9, 7]
  skippedAfter := some 0
  unreadCount := some 3
  inboxReadTillId := 4

theorem unread_right_newest :
    newestLoaded.computeUnreadCountLocally 2 8 = some (some 1) ∧
    ∃ count, newestLoaded.computeUnreadCountLocally 2 8 = some count ∧
        ∀ n, count = some n → n = unread ({3, 5, 7, 9} : Finset Int) (max 8 2) := by
  have hloaded : newestLoaded.Loaded 2 ({3, 5, 7, 9} : Finset Int) :=
    ⟨by decide, by decide, by decide, by decide⟩
  refine ⟨by decide, (unread_right hloaded).1 ?_ 8 (by decide)⟩
  rintro count ⟨⟩
  decide

end RepliesList

end Data

end MessengerClient
