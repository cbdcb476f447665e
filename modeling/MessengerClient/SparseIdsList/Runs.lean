import Mathlib
import MessengerClient.SparseIdsList.Slices

/-!
# MessengerClient.SparseIdsList.Runs

The operations on a list in any order.  Beside the list go the ids that were added and not
removed and the ranges that were added, less the tails that were cut; they are what the
slices hold and cover.
-/

namespace MessengerClient

namespace SparseIdsList

/-! ## Operations -/

/-- What an operation adds, and what it does to the count. -/
structure Added where
  messages : List MsgId
  range : MsgRange
  count : Option Int
  increment : Bool

def Operation.added : Operation → Option Added
  | .addNew messageId => some ⟨[messageId], ⟨messageId, serverMaxMsgId⟩, none, true⟩
  | .addExisting messageId noSkipRange => some ⟨[messageId], noSkipRange, none, false⟩
  | .addSlice messageIds noSkipRange count => some ⟨messageIds, noSkipRange, count, false⟩
  | .removeOne _ | .removeAll | .invalidateBottom => none

/-- Ids and ranges of the server, the ids inside the ranges. -/
def Operation.Valid (op : Operation) : Prop := ∀ a ∈ op.added, ValidAdd a.messages a.range

/-- A count is not supplied and incremented at once. -/
theorem Operation.count_or_increment {op : Operation} {a : Added} (h : op.added = some a) :
    (a.count.isSome && a.increment) = false := by
  cases op <;> cases h <;> simp

theorem perform_of_added (s : SparseIdsList) {op : Operation} {a : Added}
    (h : op.added = some a) :
    s.perform op = (s.addRange a.messages a.range a.count a.increment).map
      fun r => (r.1, .sliceUpdated r.2) := by
  cases op <;> cases h <;> rfl

/-- What is added before the list is settled. -/
def Unsettled (s : SparseIdsList) (a : Added) (slices : List Slice) (slice : Option Slice)
    (added : Int) : Prop :=
  addRangeItemsAndCountNew s.slices a.messages a.range = some (slices, slice, added)

/-- An operation that adds always does so, without an expectation failing. -/
theorem exists_unsettled {s : SparseIdsList} (h : WellFormed s.slices) {a : Added}
    (hv : ValidAdd a.messages a.range) : ∃ slices slice added, Unsettled s a slices slice added := by
  by_cases hskip : Skipped a.messages a.range
  · refine ⟨s.slices, none, 0, ?_⟩
    unfold Unsettled addRangeItemsAndCountNew
    have hskip : a.range.from_ = a.range.till ∧ a.messages = [] := hskip
    rw [if_neg hv.range.le.not_gt, if_pos hskip]
  · obtain ⟨before, mid, after, -, heq⟩ := addItems_spec h hv.range hskip
    exact ⟨_, _, _, heq⟩

theorem perform_unsettled {s : SparseIdsList} {op : Operation} {a : Added}
    (ha : op.added = some a) {slices : List Slice} {slice : Option Slice} {added : Int}
    (h : Unsettled s a slices slice added) :
    let settled := settle slices (newCount s.count a.count a.increment added)
    let clamped := clampCount slice settled.count
    s.perform op =
      some ({ settled with count := clamped }, .sliceUpdated (sliceUpdate slice clamped)) := by
  have hnot := Operation.count_or_increment ha
  rw [perform_of_added s ha, addRange, if_neg (by simp [hnot]), h]
  rfl

/-! ## Runs -/

/-- The ids that an operation leaves, of those that there were. -/
def Operation.newIds (ids : Set MsgId) (op : Operation) : Set MsgId :=
  match op with
  | .addNew messageId => ids ∪ {messageId}
  | .addExisting messageId _ => ids ∪ {messageId}
  | .addSlice messageIds _ _ => ids ∪ {id | id ∈ messageIds}
  | .removeOne messageId => ids \ {messageId}
  | .removeAll => ∅
  | .invalidateBottom => ids

/-- The covered ids that an operation leaves, of those that there were. -/
def Operation.newCovered (s : SparseIdsList) (covered : Set MsgId) (op : Operation) : Set MsgId :=
  match op with
  | .addNew messageId => covered ∪ Set.Icc messageId serverMaxMsgId
  | .addExisting _ noSkipRange => covered ∪ Set.Icc noSkipRange.from_ noSkipRange.till
  | .addSlice messageIds noSkipRange _ =>
      {id | id ∈ covered ∨
        (¬ Skipped messageIds noSkipRange ∧ noSkipRange.from_ ≤ id ∧ id ≤ noSkipRange.till)}
  | .removeOne _ => covered
  | .removeAll => Set.Icc 0 serverMaxMsgId
  | .invalidateBottom => {id | id ∈ covered ∧ ¬ Cut s.slices id}

/-- The operation finds the list complete and stretches its only slice. -/
def Operation.Stretches (s : SparseIdsList) (op : Operation) : Prop :=
  ∃ a ∈ op.added, ∃ slices slice added, Unsettled s a slices slice added ∧
    stretches slices (newCount s.count a.count a.increment added) = true

/-- A list, and what was added to it. -/
structure Tracked where
  list : SparseIdsList := {}
  ids : Set MsgId := ∅
  covered : Set MsgId := ∅
  /-- No operation found the list complete. -/
  incomplete : Prop := True

/-- Operations on server ids, starting with the empty list. -/
def tracking : System Tracked Operation where
  init t := t = {}
  step t op t' := op.Valid ∧ (∃ e, t.list.perform op = some (t'.list, e)) ∧
    t'.ids = op.newIds t.ids ∧ t'.covered = op.newCovered t.list t.covered ∧
    t'.incomplete = (t.incomplete ∧ ¬ op.Stretches t.list)

/-- The slices hold and cover what was added. -/
structure Tracked.Exact (t : Tracked) : Prop where
  wellFormed : WellFormed t.list.slices
  stored : ∀ id, Stored t.list.slices id ↔ id ∈ t.ids
  covered : t.incomplete → ∀ id, Covered t.list.slices id ↔ id ∈ t.covered

/-- **One addition.**  It keeps the slices well-formed, and they hold and cover just what
is added besides what they did. -/
theorem unsettled_spec {s : SparseIdsList} (h : WellFormed s.slices) {a : Added}
    (hv : ValidAdd a.messages a.range) {slices : List Slice} {slice : Option Slice} {added : Int}
    (hu : Unsettled s a slices slice added) :
    WellFormed slices ∧ (∀ id, Stored slices id ↔ Stored s.slices id ∨ id ∈ a.messages) ∧
      ∀ id, Covered slices id ↔ Covered s.slices id ∨
        (¬ Skipped a.messages a.range ∧ a.range.from_ ≤ id ∧ id ≤ a.range.till) := by
  unfold Unsettled at hu
  by_cases hskip : Skipped a.messages a.range
  · have hskip' : a.range.from_ = a.range.till ∧ a.messages = [] := hskip
    rw [addRangeItemsAndCountNew, if_neg hv.range.le.not_gt, if_pos hskip'] at hu
    cases hu
    exact ⟨h, fun id => by simp [hskip'.2], fun id => by simp [hskip]⟩
  · obtain ⟨before, mid, after, ht, heq⟩ := addItems_spec h hv.range hskip
    rw [heq] at hu
    cases hu
    refine ⟨wellFormed_added h hv ht, stored_added ht, fun id => ?_⟩
    rw [covered_added ht]
    simp [hskip]

theorem newIds_of_added {op : Operation} {a : Added} (h : op.added = some a) (ids : Set MsgId) :
    op.newIds ids = {id | id ∈ ids ∨ id ∈ a.messages} := by
  cases op <;> cases h <;> ext id <;> simp [Operation.newIds, or_comm]

theorem newCovered_of_added {op : Operation} {a : Added} (h : op.added = some a)
    (s : SparseIdsList) (covered : Set MsgId) :
    op.newCovered s covered = {id | id ∈ covered ∨
      (¬ Skipped a.messages a.range ∧ a.range.from_ ≤ id ∧ id ≤ a.range.till)} := by
  cases op <;> cases h <;> ext id <;> simp [Operation.newCovered, Skipped]

/-- An operation that adds keeps a tracked list exact. -/
theorem Tracked.Exact.add {t t' : Tracked} (h : t.Exact) {op : Operation} {a : Added}
    (ha : op.added = some a) (hstep : tracking.step t op t') : t'.Exact := by
  obtain ⟨hvalid, ⟨e, hperform⟩, hids, hcovered, hincomplete⟩ := hstep
  have hv := hvalid a ha
  obtain ⟨slices, slice, added, hu⟩ := exists_unsettled h.wellFormed hv
  obtain ⟨hwf, hstored, hcov⟩ := unsettled_spec h.wellFormed hv hu
  rw [perform_unsettled ha hu] at hperform
  have hlist := congrArg SparseIdsList.slices (Prod.ext_iff.mp (Option.some.inj hperform)).1
  dsimp only at hlist
  refine ⟨?_, fun id => ?_, fun hin id => ?_⟩
  · rw [← hlist]
    exact wellFormed_settle _ hwf
  · rw [← hlist, stored_settle, hstored, h.stored, hids, newIds_of_added ha]
    rfl
  · rw [hincomplete] at hin
    have hnot : stretches slices (newCount t.list.count a.count a.increment added) = false := by
      rw [← Bool.not_eq_true]
      exact fun hs => hin.2 ⟨a, ha, slices, slice, added, hu, hs⟩
    rw [← hlist, covered_settle hnot, hcov, h.covered hin.1, hcovered, newCovered_of_added ha]
    rfl

/-- Every operation keeps a tracked list exact. -/
theorem Tracked.Exact.step {t t' : Tracked} {op : Operation} (h : t.Exact)
    (hstep : tracking.step t op t') : t'.Exact := by
  cases op with
  | addNew messageId => exact h.add rfl hstep
  | addExisting messageId noSkipRange => exact h.add rfl hstep
  | addSlice messageIds noSkipRange count => exact h.add rfl hstep
  | removeOne messageId =>
      obtain ⟨-, ⟨e, hperform⟩, hids, hcovered, hincomplete⟩ := hstep
      have hlist : t.list.removeOne messageId = t'.list :=
        (Prod.ext_iff.mp (Option.some.inj hperform)).1
      refine ⟨?_, fun id => ?_, fun hin id => ?_⟩
      · rw [← hlist]
        exact wellFormed_removeOne t.list h.wellFormed messageId
      · rw [← hlist, stored_removeOne t.list h.wellFormed, h.stored, hids]
        rfl
      · rw [hincomplete] at hin
        rw [← hlist, covered_removeOne t.list h.wellFormed, h.covered hin.1, hcovered]
        rfl
  | removeAll =>
      obtain ⟨-, ⟨e, hperform⟩, hids, hcovered, -⟩ := hstep
      have hlist : t.list.removeAll = t'.list := (Prod.ext_iff.mp (Option.some.inj hperform)).1
      refine ⟨?_, fun id => ?_, fun _ id => ?_⟩
      · rw [← hlist]
        exact WellFormed.cons_iff.mpr ⟨wellFormed_full (by simp), by simp, WellFormed.nil⟩
      · rw [← hlist, hids]
        simp [removeAll, Operation.newIds]
      · rw [← hlist, hcovered]
        simp [removeAll, Operation.newCovered, MsgRange.full]
  | invalidateBottom =>
      obtain ⟨-, ⟨e, hperform⟩, hids, hcovered, hincomplete⟩ := hstep
      have hlist : t.list.invalidateBottom = t'.list :=
        (Prod.ext_iff.mp (Option.some.inj hperform)).1
      refine ⟨?_, fun id => ?_, fun hin id => ?_⟩
      · rw [← hlist]
        exact wellFormed_invalidateBottom t.list h.wellFormed
      · rw [← hlist, stored_invalidateBottom, h.stored, hids]
        rfl
      · rw [hincomplete] at hin
        rw [← hlist, covered_invalidateBottom t.list h.wellFormed, h.covered hin.1, hcovered]
        rfl

end SparseIdsList

end MessengerClient
