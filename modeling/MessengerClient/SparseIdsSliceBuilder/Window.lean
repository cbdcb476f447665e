import MessengerClient.SparseIdsList.Counts
import MessengerClient.SparseIdsSliceBuilder

/-!
# MessengerClient.SparseIdsSliceBuilder.Window

When the numbers of a window fit together: what is skipped before it, its ids and what is
skipped after it make the count.

Slicing moves ids into the skipped numbers and cannot break this.  What can is a count that
changes while the skipped numbers stay, or ids that come into the window without coming out
of what was skipped: `applyUpdate_iff` and `removeOne_iff` say exactly when it breaks.
-/

namespace MessengerClient

open SparseIdsList (SliceUpdate Result Event Operation)

namespace SparseIdsSliceBuilder

/-- The numbers of a window fit together, and with the count the skipped numbers are known
both or neither. -/
structure Window (b : SparseIdsSliceBuilder) : Prop where
  known : b.fullCount.isSome → b.skippedBefore.isSome = b.skippedAfter.isSome
  before : ∀ s ∈ b.skippedBefore, 0 ≤ s
  after : ∀ a ∈ b.skippedAfter, 0 ≤ a
  sum : ∀ c ∈ b.fullCount, ∀ s ∈ b.skippedBefore, ∀ a ∈ b.skippedAfter,
    s + b.ids.card + a = c

/-! ## Slicing -/

/-- How many of the ids are before the key above the limit, and after it. -/
def overBefore (b : SparseIdsSliceBuilder) (ids : Finset MsgId) : Int :=
  if b.key = 0 then 0 else max (rank ids b.key - b.limitBefore) 0
def overAfter (b : SparseIdsSliceBuilder) (ids : Finset MsgId) : Int :=
  if b.key = 0 then 0 else max (ids.card - rank ids b.key - b.limitAfter - 1) 0

/-- `b'` is `b` with ids moved into the skipped ones. -/
structure Sliced (b b' : SparseIdsSliceBuilder) (before after : Int) : Prop where
  fullCount : b'.fullCount = b.fullCount
  skippedBefore : b'.skippedBefore = b.skippedBefore.map (· + before)
  skippedAfter : b'.skippedAfter = b.skippedAfter.map (· + after)
  card : (b'.ids.card : Int) + before + after = b.ids.card

theorem Sliced.refl (b : SparseIdsSliceBuilder) : Sliced b b 0 0 :=
  ⟨rfl, by simp, by simp, by simp⟩

theorem sliceBegin_sliced (b : SparseIdsSliceBuilder) {n : Int} (hn : n ≤ b.ids.card) :
    Sliced b (b.sliceBegin n).1 (max n 0) 0 := by
  unfold sliceBegin
  split
  · next hpos =>
      rw [max_eq_left hpos.le]
      refine ⟨rfl, rfl, by simp, ?_⟩
      rw [card_dropFront]
      omega
  · next hpos =>
      rw [max_eq_right (not_lt.mp hpos)]
      split <;> exact Sliced.refl b

theorem sliceEnd_sliced (b : SparseIdsSliceBuilder) {n : Int} (hn : n ≤ b.ids.card) :
    Sliced b (b.sliceEnd n).1 0 (max n 0) := by
  unfold sliceEnd
  split
  · next hpos =>
      rw [max_eq_left hpos.le]
      refine ⟨rfl, by simp, rfl, ?_⟩
      rw [card_dropBack]
      omega
  · next hpos =>
      rw [max_eq_right (not_lt.mp hpos)]
      split <;> exact Sliced.refl b

theorem sliceToLimits_sliced (b : SparseIdsSliceBuilder) :
    Sliced b b.sliceToLimits.1 (b.overBefore b.ids) (b.overAfter b.ids) := by
  unfold sliceToLimits overBefore overAfter
  split
  · exact Sliced.refl b
  · have hrank := rank_le_card (s := b.ids) (a := b.key)
    have hfirst : b.removeFromBegin = rank b.ids b.key - b.limitBefore := rfl
    have hlast : b.removeFromEnd = b.ids.card - rank b.ids b.key - b.limitAfter - 1 := rfl
    have hbegin := b.sliceBegin_sliced (n := b.removeFromBegin) (by omega)
    have hcard := hbegin.card
    have hend := (b.sliceBegin b.removeFromBegin).1.sliceEnd_sliced (n := b.removeFromEnd)
      (by omega)
    rw [← hfirst, ← hlast]
    refine ⟨hend.fullCount.trans hbegin.fullCount, ?_, ?_, ?_⟩
    · rw [hend.skippedBefore, hbegin.skippedBefore, Option.map_map]
      simp [Function.comp_def]
    · rw [hend.skippedAfter, hbegin.skippedAfter, Option.map_map]
      simp [Function.comp_def]
    · have := hend.card
      dsimp only
      omega

theorem Sliced.over_nonneg (b : SparseIdsSliceBuilder) (ids : Finset MsgId) :
    0 ≤ b.overBefore ids ∧ 0 ≤ b.overAfter ids := by
  unfold overBefore overAfter
  split <;> simp

/-- Slicing keeps the sum, and makes the skipped numbers no less. -/
theorem window_iff_of_sliced {b b' : SparseIdsSliceBuilder} {before after : Int}
    (h : Sliced b b' before after) :
    Window b' ↔ (b.fullCount.isSome → b.skippedBefore.isSome = b.skippedAfter.isSome) ∧
      (∀ s ∈ b.skippedBefore, 0 ≤ s + before) ∧ (∀ a ∈ b.skippedAfter, 0 ≤ a + after) ∧
      ∀ c ∈ b.fullCount, ∀ s ∈ b.skippedBefore, ∀ a ∈ b.skippedAfter,
        s + b.ids.card + a = c := by
  have hcard := h.card
  have hmap (o : Option Int) (n : Int) (p : Int → Prop) :
      (∀ s ∈ o.map (· + n), p s) ↔ ∀ s ∈ o, p (s + n) := by simp
  constructor
  · rintro ⟨hknown, hbefore, hafter, hsum⟩
    rw [h.fullCount, h.skippedBefore, h.skippedAfter, Option.isSome_map, Option.isSome_map] at hknown
    rw [h.skippedBefore, hmap] at hbefore
    rw [h.skippedAfter, hmap] at hafter
    refine ⟨hknown, hbefore, hafter, fun c hc s hs a ha => ?_⟩
    have := hsum c (h.fullCount ▸ hc) (s + before) (by rw [h.skippedBefore]; simpa using hs)
      (a + after) (by rw [h.skippedAfter]; simpa using ha)
    omega
  · rintro ⟨hknown, hbefore, hafter, hsum⟩
    refine ⟨?_, ?_, ?_, fun c hc => ?_⟩
    · rw [h.fullCount, h.skippedBefore, h.skippedAfter, Option.isSome_map, Option.isSome_map]
      exact hknown
    · rw [h.skippedBefore, hmap]
      exact hbefore
    · rw [h.skippedAfter, hmap]
      exact hafter
    · rw [h.skippedBefore, hmap]
      intro s hs
      rw [h.skippedAfter, hmap]
      intro a ha
      have := hsum c (h.fullCount ▸ hc) s hs a ha
      omega

/-- Slicing keeps a window. -/
theorem Window.sliceToLimits {b : SparseIdsSliceBuilder} (h : Window b) :
    Window b.sliceToLimits.1 := by
  obtain ⟨hb, ha⟩ := Sliced.over_nonneg b b.ids
  refine (window_iff_of_sliced b.sliceToLimits_sliced).mpr ⟨h.known, fun s hs => ?_,
    fun a has => ?_, h.sum⟩
  · have := h.before s hs
    omega
  · have := h.after a has
    omega

/-! ## Filling -/

/-- The count fits the ids and what is known to be skipped: it is their sum, or it leaves
something for the side that is not known, which may be what is about to be sliced off. -/
def Fits (b : SparseIdsSliceBuilder) (c : Int) (ids : Finset MsgId) (before after : Option Int) :
    Prop :=
  match before, after with
  | some before, some after => before + ids.card + after = c
  | some before, none => before + ids.card ≤ c + b.overAfter ids
  | none, some after => ids.card + after ≤ c + b.overBefore ids
  | none, none => True

/-- **Filling.**  The numbers fit together afterwards just when the count fits them. -/
theorem window_fill_iff (b : SparseIdsSliceBuilder) (hb : ∀ s ∈ b.skippedBefore, 0 ≤ s)
    (ha : ∀ a ∈ b.skippedAfter, 0 ≤ a) :
    Window b.fillSkippedAndSliceToLimits.1 ↔
      ∀ c ∈ b.fullCount, b.Fits c b.ids b.skippedBefore b.skippedAfter := by
  obtain ⟨hover₁, hover₂⟩ := Sliced.over_nonneg b b.ids
  rw [fillSkippedAndSliceToLimits, window_iff_of_sliced b.fillSkipped.sliceToLimits_sliced]
  have hbegin : b.fillSkipped.overBefore b.fillSkipped.ids = b.overBefore b.ids := by
    unfold fillSkipped
    split <;> rfl
  have hend : b.fillSkipped.overAfter b.fillSkipped.ids = b.overAfter b.ids := by
    unfold fillSkipped
    split <;> rfl
  rw [hbegin, hend]
  clear hbegin hend
  unfold fillSkipped Fits
  generalize b.overBefore b.ids = before at hover₁ ⊢
  generalize b.overAfter b.ids = after at hover₂ ⊢
  obtain ⟨key, limitBefore, limitAfter, ids, fullCount, skippedBefore, skippedAfter⟩ := b
  cases fullCount with
  | none =>
      simp only [Option.isSome_none, Bool.false_eq_true, false_implies, true_and, Option.mem_def,
        reduceCtorEq, and_true, implies_true, iff_true]
      constructor
      · intro s hs
        have := hb s hs
        omega
      · intro a has
        have := ha a has
        omega
  | some c =>
      cases skippedBefore with
      | none =>
          cases skippedAfter with
          | none => simp
          | some a =>
              have := ha a rfl
              simp
              omega
      | some s =>
          have := hb s rfl
          cases skippedAfter with
          | none =>
              simp
              omega
          | some a =>
              have := ha a rfl
              simp
              omega

/-! ## Updates -/

/-- What an update says about the ids before it, and after it. -/
def saysBefore (update : SliceUpdate) : Option Int :=
  if update.range.from_ = 0 then some 0 else none
def saysAfter (update : SliceUpdate) : Option Int :=
  if update.range.till = serverMaxMsgId then some 0 else none

/-- What is still skipped before the window when an update has brought some of it. -/
def leftBefore (b : SparseIdsSliceBuilder) (update : SliceUpdate) (messages : Finset MsgId) :
    Option Int :=
  if update.range.from_ = 0 then some 0
  else if b.ids ≠ ∅ ∧ 0 ≤ front b.ids then
    b.skippedBefore.map fun s => max (s - rank messages (front b.ids)) 0
  else none

/-- What is still skipped after the window when an update has brought some of it. -/
def leftAfter (b : SparseIdsSliceBuilder) (update : SliceUpdate) (messages : Finset MsgId) :
    Option Int :=
  if update.range.till = serverMaxMsgId then some 0
  else if b.ids ≠ ∅ ∧ 0 ≤ back b.ids then
    b.skippedAfter.map fun a => max (a - above messages (back b.ids)) 0
  else none

/-- The count of an update agrees with what the builder has.  Where no ids come with it, it
is the old count, or one that the window alone reaches, or it fits the old skipped numbers;
where ids come, the count then in force fits the new ids and what is left of the skipped
numbers. -/
def Agrees (b : SparseIdsSliceBuilder) (update : SliceUpdate) : Prop :=
  let messages := (b.needMergeMessages update).getD ∅
  if messages = ∅ then
    ∀ c ∈ update.count, b.fullCount = some c ∨ c ≤ b.ids.card ∨
      b.Fits c b.ids b.skippedBefore b.skippedAfter
  else
    ∀ c ∈ update.count.or b.fullCount,
      b.Fits c (b.ids ∪ messages) (b.leftBefore update messages) (b.leftAfter update messages)

theorem front_le {ids : Finset MsgId} {id : MsgId} (h : id ∈ ids) : front ids ≤ id := by
  rw [front, dif_pos ⟨id, h⟩]
  exact Finset.min'_le ids id h

theorem le_back {ids : Finset MsgId} {id : MsgId} (h : id ∈ ids) : id ≤ back ids := by
  rw [back, dif_pos ⟨id, h⟩]
  exact Finset.le_max' ids id h

theorem back_mem {ids : Finset MsgId} (h : ids ≠ ∅) : back ids ∈ ids := by
  rw [back, dif_pos (Finset.nonempty_iff_ne_empty.mpr h)]
  exact Finset.max'_mem ids _

theorem skippedBefore_mergeIds (b : SparseIdsSliceBuilder) (update : SliceUpdate)
    (messages : Finset MsgId) :
    (b.mergeIds update.count messages (saysBefore update) (saysAfter update)).skippedBefore =
      b.leftBefore update messages := by
  unfold mergeIds saysBefore leftBefore adjustSkippedBefore
  dsimp only
  by_cases hfrom : update.range.from_ = 0
  · rw [if_pos hfrom, if_pos hfrom]
    simp
  · rw [if_neg hfrom, if_neg hfrom]
    by_cases hids : b.ids = ∅
    · simp [hids]
    · rw [if_neg hids]
      dsimp only
      rw [rank_union_of_le fun id hid => front_le hid]
      simp [hids]

/-- What follows an id of a set is what is above it. -/
theorem card_sub_rank {ids : Finset MsgId} {id : MsgId} (h : id ∈ ids) :
    (ids.card : Int) - rank ids id - 1 = above ids id := by
  have := rank_add_above h
  omega

theorem skippedAfter_mergeIds (b : SparseIdsSliceBuilder) (update : SliceUpdate)
    {messages : Finset MsgId} (hmessages : messages ≠ ∅) :
    (b.mergeIds update.count messages (saysBefore update) (saysAfter update)).skippedAfter =
      b.leftAfter update messages := by
  have hsplit {id : MsgId} (hid : id ∈ b.ids ∪ messages) := card_sub_rank hid
  unfold mergeIds saysAfter leftAfter adjustSkippedAfter
  dsimp only
  by_cases htill : update.range.till = serverMaxMsgId
  · rw [if_pos htill, if_pos htill]
    dsimp only
    rw [hsplit (Finset.mem_union_right _ (back_mem hmessages))]
    simp
  · rw [if_neg htill, if_neg htill]
    by_cases hids : b.ids = ∅
    · simp [hids]
    · rw [if_neg hids]
      dsimp only
      rw [hsplit (Finset.mem_union_left _ (back_mem hids)),
        above_union_of_le fun id hid => le_back hid]
      simp [hids]

theorem leftBefore_nonneg (b : SparseIdsSliceBuilder) (update : SliceUpdate)
    (messages : Finset MsgId) : ∀ s ∈ b.leftBefore update messages, 0 ≤ s := by
  intro s hs
  unfold leftBefore at hs
  split at hs
  · cases hs
    exact le_rfl
  · split at hs
    · obtain ⟨s', -, rfl⟩ := Option.map_eq_some_iff.mp hs
      exact le_max_right _ _
    · cases hs

theorem leftAfter_nonneg (b : SparseIdsSliceBuilder) (update : SliceUpdate)
    (messages : Finset MsgId) : ∀ a ∈ b.leftAfter update messages, 0 ≤ a := by
  intro a ha
  unfold leftAfter at ha
  split at ha
  · cases ha
    exact le_rfl
  · split at ha
    · obtain ⟨a', -, rfl⟩ := Option.map_eq_some_iff.mp ha
      exact le_max_right _ _
    · cases ha

/-- Filling changes nothing in a window. -/
theorem Window.fill {b : SparseIdsSliceBuilder} (h : Window b) :
    Window b.fillSkippedAndSliceToLimits.1 := by
  have hsame : b.fillSkipped = b := by
    unfold fillSkipped
    split
    · next hc hb ha => exact absurd (h.known (by simp [hc])) (by simp [hb, ha])
    · next hc hb ha => exact absurd (h.known (by simp [hc])) (by simp [hb, ha])
    · rfl
  rw [fillSkippedAndSliceToLimits, hsame]
  exact h.sliceToLimits

/-- A count alone. -/
theorem window_setCount_iff {b : SparseIdsSliceBuilder} (h : Window b) (count : Option Int) :
    Window (b.setCount count).fillSkippedAndSliceToLimits.1 ↔
      ∀ c ∈ count, b.fullCount = some c ∨ c ≤ b.ids.card ∨
        b.Fits c b.ids b.skippedBefore b.skippedAfter := by
  cases count with
  | none => simpa [setCount] using h.fill
  | some c =>
      simp only [Option.mem_def, Option.some.injEq, forall_eq', setCount]
      split
      · next hc => exact ⟨fun _ => Or.inl hc, fun _ => h.fill⟩
      · next hc =>
          split
          · next hle =>
              refine ⟨fun _ => Or.inr (Or.inl hle), fun _ => Window.fill ⟨?_, ?_, ?_, ?_⟩⟩
              · simp
              · simp
              · simp
              · simp
          · next hle =>
              have hfill := window_fill_iff { b with fullCount := some c } h.before h.after
              rw [hfill]
              simp only [Option.mem_def, Option.some.injEq, forall_eq']
              exact ⟨fun hf => Or.inr (Or.inr hf),
                fun hf => (hf.resolve_left hc).resolve_left hle⟩

/-- **An update.**  A window takes it just when the count agrees. -/
theorem applyUpdate_iff {b : SparseIdsSliceBuilder} (h : Window b) (update : SliceUpdate) :
    Window (b.applyUpdate update).1.1 ↔ b.Agrees update := by
  unfold applyUpdate Agrees
  split
  · next hnone =>
      rw [Bool.and_eq_true, Option.isNone_iff_eq_none, Option.isNone_iff_eq_none] at hnone
      simp [hnone.1, hnone.2, h]
  · next hsome =>
      unfold mergeSliceData
      generalize (b.needMergeMessages update).getD ∅ = messages
      dsimp only
      by_cases hmessages : messages = ∅
      · rw [if_pos hmessages, if_pos hmessages]
        exact window_setCount_iff h update.count
      · rw [if_neg hmessages, if_neg hmessages]
        have hbefore := b.skippedBefore_mergeIds update messages
        have hafter := b.skippedAfter_mergeIds update hmessages
        unfold saysBefore saysAfter at hbefore hafter
        rw [window_fill_iff, hbefore, hafter]
        · rfl
        · rw [hbefore]
          exact b.leftBefore_nonneg update messages
        · rw [hafter]
          exact b.leftAfter_nonneg update messages

/-! ## Removals -/

/-- One of the ids in the window is removed, or one of those that are skipped. -/
def RemovesKnown (b : SparseIdsSliceBuilder) (messageId : MsgId) : Prop :=
  ∀ c ∈ b.fullCount, 0 < c → ∀ s ∈ b.skippedBefore, ∀ a ∈ b.skippedAfter,
    messageId ∈ b.ids ∨ b.ids ≠ ∅ ∧
      (messageId < front b.ids ∧ 0 < s ∨ back b.ids < messageId ∧ 0 < a)

theorem Window.decrement_before {b : SparseIdsSliceBuilder} (h : Window b) :
    ∀ s ∈ decrement b.skippedBefore, 0 ≤ s := by
  intro s hs
  obtain ⟨s', hs', rfl⟩ := Option.map_eq_some_iff.mp hs
  have := h.before s' hs'
  split <;> omega

theorem Window.decrement_after {b : SparseIdsSliceBuilder} (h : Window b) :
    ∀ a ∈ decrement b.skippedAfter, 0 ≤ a := by
  intro a ha
  obtain ⟨a', ha', rfl⟩ := Option.map_eq_some_iff.mp ha
  have := h.after a' ha'
  split <;> omega

@[simp] theorem isSome_decrement (n : Option Int) : (decrement n).isSome = n.isSome :=
  Option.isSome_map

theorem mem_decrement {o : Option Int} {n : Int} :
    n ∈ decrement o ↔ ∃ n' ∈ o, n = if 0 < n' then n' - 1 else n' := by
  rw [decrement, Option.mem_map]
  exact exists_congr fun n' => and_congr_right fun _ => eq_comm

/-- An id of the window is removed with one from the count. -/
theorem Window.erase {b : SparseIdsSliceBuilder} (h : Window b) {messageId : MsgId}
    (hid : messageId ∈ b.ids) :
    Window { b with fullCount := decrement b.fullCount, ids := b.ids.erase messageId } := by
  refine ⟨fun hc => h.known (by simpa using hc), h.before, h.after, fun c hc s hs a ha => ?_⟩
  obtain ⟨c', hc', rfl⟩ := mem_decrement.mp hc
  have hsum := h.sum c' hc' s hs a ha
  have hcard := Finset.card_erase_add_one hid
  have := h.before s hs
  have := h.after a ha
  rw [if_pos (by omega)]
  dsimp only
  omega

/-- An id outside of the window is removed with one from the count. -/
theorem Window.removeSkipped {b : SparseIdsSliceBuilder} (h : Window b) {messageId : MsgId}
    (hid : messageId ∉ b.ids) (hk : b.RemovesKnown messageId) :
    Window (({ b with fullCount := decrement b.fullCount } : SparseIdsSliceBuilder).removeSkipped
      messageId) := by
  have hknown : (decrement b.fullCount).isSome →
      b.skippedBefore.isSome = b.skippedAfter.isSome := by simpa using h.known
  have hone (c s a : Int) (hc : c ∈ b.fullCount) (hs : s ∈ b.skippedBefore)
      (ha : a ∈ b.skippedAfter) : s + b.ids.card + a = c ∧ 0 ≤ s ∧ 0 ≤ a ∧
        (0 < c → b.ids ≠ ∅ ∧
          (messageId < front b.ids ∧ 0 < s ∨ back b.ids < messageId ∧ 0 < a)) :=
    ⟨h.sum c hc s hs a ha, h.before s hs, h.after a ha,
      fun hpos => (hk c hc hpos s hs a ha).resolve_left hid⟩
  unfold SparseIdsSliceBuilder.removeSkipped
  dsimp only
  split
  · next hempty =>
      refine ⟨hknown, h.before, h.after, fun c hc s hs a ha => ?_⟩
      obtain ⟨c', hc', rfl⟩ := mem_decrement.mp hc
      obtain ⟨hsum, -, -, hpos⟩ := hone c' s a hc' hs ha
      rw [if_neg fun hpos' => (hpos hpos').1 hempty]
      exact hsum
  · next hne =>
      have hcard : 0 < b.ids.card := Finset.card_pos.mpr (Finset.nonempty_iff_ne_empty.mpr hne)
      split
      · next hfront =>
          refine ⟨?_, h.decrement_before, h.after, fun c hc s hs a ha => ?_⟩
          · simpa using h.known
          · obtain ⟨c', hc', rfl⟩ := mem_decrement.mp hc
            obtain ⟨s', hs', rfl⟩ := mem_decrement.mp hs
            obtain ⟨hsum, hs0, ha0, -⟩ := hone c' s' a hc' hs' ha
            have hpos : 0 < s' := by
              have hany := hfront.2
              rw [Option.mem_def.mp hs'] at hany
              simpa using hany
            rw [if_pos hpos, if_pos (by omega)]
            dsimp only
            omega
      · next hfront =>
          split
          · refine ⟨?_, h.before, h.decrement_after, fun c hc s hs a ha => ?_⟩
            · simpa using h.known
            · next hback =>
                obtain ⟨c', hc', rfl⟩ := mem_decrement.mp hc
                obtain ⟨a', ha', rfl⟩ := mem_decrement.mp ha
                obtain ⟨hsum, hs0, ha0, -⟩ := hone c' s a' hc' hs ha'
                have hpos : 0 < a' := by
                  have hany := hback.2
                  rw [Option.mem_def.mp ha'] at hany
                  simpa using hany
                rw [if_pos hpos, if_pos (by omega)]
                dsimp only
                omega
          · next hback =>
              refine ⟨hknown, h.before, h.after, fun c hc s hs a ha => ?_⟩
              obtain ⟨c', hc', rfl⟩ := mem_decrement.mp hc
              obtain ⟨hsum, hs0, ha0, hpos⟩ := hone c' s a hc' hs ha
              rw [Option.mem_def.mp hs] at hfront
              rw [Option.mem_def.mp ha] at hback
              rcases (hpos (by omega)).2 with hin | hin
              · exact absurd ⟨hin.1, by simpa using hin.2⟩ hfront
              · exact absurd ⟨hin.1, by simpa using hin.2⟩ hback

theorem Window.removeOne {b : SparseIdsSliceBuilder} (h : Window b) {messageId : MsgId}
    (hk : b.RemovesKnown messageId) : Window (b.removeOne messageId).1.1 := by
  unfold SparseIdsSliceBuilder.removeOne
  dsimp only
  by_cases hid : messageId ∈ b.ids
  · rw [if_pos hid]
    split
    · exact h
    · exact (h.erase hid).sliceToLimits
  · rw [if_neg hid]
    split
    · exact h
    · exact (h.removeSkipped hid hk).sliceToLimits

/-- **A removal.**  A window takes it just when it removes one of the known ids. -/
theorem removeOne_iff {b : SparseIdsSliceBuilder} (h : Window b) (messageId : MsgId) :
    Window (b.removeOne messageId).1.1 ↔ b.RemovesKnown messageId := by
  refine ⟨fun hw c hc hpos s hs a ha => ?_, h.removeOne⟩
  by_contra hnot
  rw [not_or] at hnot
  obtain ⟨hid, hnot⟩ := hnot
  have hsame : ({ b with fullCount := decrement b.fullCount } : SparseIdsSliceBuilder).removeSkipped
      messageId = { b with fullCount := decrement b.fullCount } := by
    unfold SparseIdsSliceBuilder.removeSkipped
    dsimp only
    rw [Option.mem_def.mp hs, Option.mem_def.mp ha]
    split
    · rfl
    · next hne =>
        rw [if_neg fun hfront => hnot ⟨hne, Or.inl ⟨hfront.1, by simpa using hfront.2⟩⟩,
          if_neg fun hback => hnot ⟨hne, Or.inr ⟨hback.1, by simpa using hback.2⟩⟩]
  have hcount : c - 1 ∈ decrement b.fullCount :=
    mem_decrement.mpr ⟨c, hc, by rw [if_pos hpos]⟩
  have hchanged : ({ b with fullCount := decrement b.fullCount } : SparseIdsSliceBuilder) ≠ b := by
    intro heq
    have hsame := congrArg fullCount heq
    dsimp only at hsame
    rw [hsame, Option.mem_def.mp hc] at hcount
    have := Option.some.inj hcount
    omega
  unfold SparseIdsSliceBuilder.removeOne at hw
  dsimp only at hw
  rw [if_neg hid, hsame, if_neg hchanged] at hw
  have hsum := ((window_iff_of_sliced (sliceToLimits_sliced _)).mp hw).2.2.2 (c - 1) hcount s hs a ha
  have := h.sum c hc s hs a ha
  dsimp only at hsum
  omega

theorem window_removeAll (b : SparseIdsSliceBuilder) : Window b.removeAll :=
  ⟨by simp [removeAll], by simp [removeAll], by simp [removeAll], by simp [removeAll]⟩

theorem Window.invalidateBottom {b : SparseIdsSliceBuilder} (h : Window b) :
    Window b.invalidateBottom.1 :=
  Window.sliceToLimits ⟨by simp, h.before, by simp, by simp⟩

/-! ## The start -/

inductive Action
  | operation (op : Operation)
  | watch (key : MsgId) (limitBefore limitAfter : Nat)

/-- What the list tells agrees with what the builder has. -/
def FollowedBy (b : SparseIdsSliceBuilder) : Event → Prop
  | .sliceUpdated update => b.Agrees update
  | .oneRemoved messageId => b.RemovesKnown messageId
  | .allRemoved => True
  | .bottomInvalidated => True

theorem Window.handle {b : SparseIdsSliceBuilder} (h : Window b) {e : Event}
    (he : b.FollowedBy e) : Window (b.handle e).1 := by
  cases e with
  | sliceUpdated update => exact (applyUpdate_iff h update).mpr he
  | oneRemoved messageId => exact h.removeOne he
  | allRemoved => exact window_removeAll b
  | bottomInvalidated => exact h.invalidateBottom

end SparseIdsSliceBuilder

end MessengerClient
