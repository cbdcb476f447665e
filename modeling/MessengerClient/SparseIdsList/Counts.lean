import MessengerClient.SparseIdsList.Runs

/-!
# MessengerClient.SparseIdsList.Counts

The count of a list against the ids that it holds, and what a lookup makes of both.

`removeOne` takes one off the count whether the id was there or not, and what is added
below the count (or a count that is supplied below what is held) is put right only against
the changed slice.  Where an operation does neither, the count stays at least the number of
the ids, and this is all that the skipped counters of a lookup rest on.
-/

namespace MessengerClient

namespace SparseIdsList

/-! ## All the ids -/

/-- The ids of all the slices. -/
def allIds : List Slice → Finset MsgId
  | [] => ∅
  | slice :: l => slice.messages ∪ allIds l

@[simp] theorem mem_allIds {l : List Slice} {id : MsgId} : id ∈ allIds l ↔ Stored l id := by
  induction l with
  | nil => simp [allIds]
  | cons slice l ih => rw [allIds, Finset.mem_union, ih, stored_cons]

/-- A slice with the full range is the only one. -/
theorem WellFormed.eq_of_full {l : List Slice} (h : WellFormed l) {slice : Slice}
    (hs : slice ∈ l) (hfull : slice.range = MsgRange.full) : l = [slice] := by
  obtain ⟨before, after, rfl⟩ := List.append_of_mem hs
  have hone (s : Slice) (hs : s ∈ before ++ slice :: after) := h.one hs
  rw [append_iff, cons_iff] at h
  obtain ⟨-, ⟨-, hlt, -⟩, hcross⟩ := h
  have hbefore : before = [] := by
    refine List.eq_nil_iff_forall_not_mem.mpr fun a ha => ?_
    have ha' := hone a (List.mem_append_left _ ha)
    have hlt := hcross a ha slice List.mem_cons_self
    rw [hfull] at hlt
    exact absurd (ha'.bounds.1.trans ha'.le) hlt.not_ge
  have hafter : after = [] := by
    refine List.eq_nil_iff_forall_not_mem.mpr fun b hb => ?_
    have hb' := hone b (List.mem_append_right _ (List.mem_cons_of_mem _ hb))
    have hlt := hlt b hb
    rw [hfull] at hlt
    exact absurd (hb'.le.trans hb'.bounds.2) hlt.not_ge
  rw [hbefore, hafter, List.nil_append]

/-! ## Counted lists -/

/-- The count is at least the number of the ids, and just that when no id is unknown. -/
structure Counted (s : SparseIdsList) : Prop where
  wellFormed : WellFormed s.slices
  card_le : ∀ c ∈ s.count, ((allIds s.slices).card : Int) ≤ c
  full : ∀ c ∈ s.count, ∀ slice ∈ s.slices, slice.range = MsgRange.full →
    c = slice.messages.card

theorem Counted.initial : Counted {} := ⟨WellFormed.nil, by simp, by simp⟩

/-- The count that is in force after an addition covers what is held then, or what the
addition does not touch holds nothing. -/
def Covers (s : SparseIdsList) (a : Added) : Prop :=
  ∀ c ∈ a.count.or s.count,
    ((allIds s.slices ∪ a.messages.toFinset).card : Int) ≤ c ∨
      if Skipped a.messages a.range then s.slices.length ≤ 1
      else ∀ slice ∈ s.slices, ¬ Touches slice a.range → slice.messages = ∅

/-- Where the count is kept: an id is removed that is held, or one of those that are not;
and what is added without its being counted is within the count. -/
def CountKept (s : SparseIdsList) : Operation → Prop
  | .addNew _ => True
  | .addExisting messageId noSkipRange => Covers s ⟨[messageId], noSkipRange, none, false⟩
  | .addSlice messageIds noSkipRange count => Covers s ⟨messageIds, noSkipRange, count, false⟩
  | .removeOne messageId =>
      ∀ c ∈ s.count, Stored s.slices messageId ∨ ((allIds s.slices).card : Int) < c
  | .removeAll => True
  | .invalidateBottom => True

/-- A supplied count is at least the number of the ids it comes with. -/
def Operation.CountValid (op : Operation) : Prop :=
  ∀ a ∈ op.added, ∀ c ∈ a.count, (a.messages.toFinset.card : Int) ≤ c

/-- Operations on server ids and counts, starting with the empty list. -/
def counting : System SparseIdsList Operation where
  init s := s = {}
  step s op s' := op.Valid ∧ op.CountValid ∧ ∃ e, s.perform op = some (s', e)

/-! ## Adding -/

theorem mem_clampCount {slice : Option Slice} {count : Option Int} {c : Int} :
    c ∈ clampCount slice count ↔
      ∃ c₀ ∈ count, c = (slice.elim c₀ fun slice => max c₀ slice.messages.card) := by
  cases slice with
  | none => simp [clampCount]
  | some slice => simp [clampCount, eq_comm]

theorem completes_eq_false {count : Option Int} {slice : Slice} {c : Int} (hc : c ∈ count)
    (h : completes count slice = false) : (slice.messages.card : Int) < c := by
  rw [Option.mem_def] at hc
  simpa [completes, hc] using h

/-- A list with one slice is counted once it is settled. -/
theorem counted_settle_one {slice : Slice} {count : Option Int} (h : WellFormed [slice]) :
    Counted (settle [slice] count) := by
  have hids : allIds (settle [slice] count).slices = slice.messages := by simp [settle, allIds]
  refine ⟨wellFormed_settle count h, fun c hc => ?_, fun c hc slice' hs hfull => ?_⟩
  · rw [hids]
    cases hcompletes : completes count slice with
    | true =>
        simp only [settle, hcompletes, if_true] at hc
        cases hc
        exact le_rfl
    | false =>
        simp only [settle, hcompletes, Bool.false_eq_true, if_false] at hc
        split at hc
        · cases hc
          exact le_rfl
        · exact (completes_eq_false hc hcompletes).le
  · simp only [settle, List.mem_singleton] at hs hc
    subst hs
    rw [if_pos hfull] at hc
    cases hc
    rfl

/-- Clamping changes nothing where the count is right. -/
theorem Counted.clamp {s : SparseIdsList} (h : Counted s) {slice : Option Slice}
    (hs : ∀ x ∈ slice, x.messages ⊆ allIds s.slices) :
    Counted { s with count := clampCount slice s.count } := by
  have hsame : clampCount slice s.count = s.count := by
    cases slice with
    | none => rfl
    | some slice =>
        cases hc : s.count with
        | none => rfl
        | some c =>
            have hcard := Finset.card_le_card (hs slice (Option.mem_some_self slice))
            have hle := h.card_le c hc
            exact congrArg some (max_eq_left (by omega))
  rw [hsame]
  exact h

/-- Where there is not just one slice, nothing is settled. -/
theorem settle_of_ne {slices : List Slice} (h : ∀ slice, slices ≠ [slice]) (count : Option Int) :
    settle slices count = { slices := slices, count := count } := by
  unfold settle
  split
  · next slice => exact absurd rfl (h slice)
  · rfl

theorem allIds_added {slices before mid after : List Slice} {messages : List MsgId} {r : MsgRange}
    (ht : Touched (·.range.from_) (·.range.till) r.from_ r.till slices before mid after) :
    allIds (before ++ joinAll ⟨messages.toFinset, r⟩ mid :: after) =
      allIds slices ∪ messages.toFinset := by
  ext id
  rw [mem_allIds, stored_added ht, Finset.mem_union, mem_allIds, List.mem_toFinset]

/-- A new id is counted among the new ids of the slice it comes into. -/
theorem card_add_one_le {mid : List Slice} {id : MsgId} {r : MsgRange} (hnew : ¬ Stored mid id) :
    firstCard mid + 1 ≤ (joinAll ⟨[id].toFinset, r⟩ mid).messages.card := by
  have hid : id ∈ (joinAll ⟨[id].toFinset, r⟩ mid).messages := mem_joinAll.mpr (Or.inl (by simp))
  cases mid with
  | nil =>
      have := Finset.card_pos.mpr ⟨id, hid⟩
      simp only [firstCard, List.head?_nil, Option.map_none, Option.getD_none]
      omega
  | cons first mid =>
      have hsub : insert id first.messages ⊆ (joinAll ⟨[id].toFinset, r⟩ (first :: mid)).messages := by
        refine Finset.insert_subset hid fun x hx => mem_joinAll.mpr (Or.inr ?_)
        exact stored_cons.mpr (Or.inl hx)
      have hnot : id ∉ first.messages := fun h => hnew (stored_cons.mpr (Or.inl h))
      have hcard := Finset.card_le_card hsub
      rw [Finset.card_insert_of_notMem hnot] at hcard
      simp only [firstCard, List.head?_cons, Option.map_some, Option.getD_some]
      omega

/-- **An id is added.**  The count grows at least by as much as there are new ids. -/
theorem card_le_newCount {s : SparseIdsList} (h : Counted s) {before mid after : List Slice}
    {id : MsgId} {r : MsgRange} {c : Int}
    (ht : Touched (·.range.from_) (·.range.till) r.from_ r.till s.slices before mid after)
    (hc : c ∈ newCount s.count none true
      ((joinAll ⟨[id].toFinset, r⟩ mid).messages.card - firstCard mid)) :
    ((allIds s.slices ∪ [id].toFinset).card : Int) ≤ c := by
  simp only [newCount, Option.isSome_none, Bool.false_eq_true, if_false, Bool.true_and,
    decide_eq_true_eq] at hc
  by_cases hid : Stored s.slices id
  · have hsame : allIds s.slices ∪ [id].toFinset = allIds s.slices := by
      rw [Finset.union_eq_left]
      simpa using hid
    rw [hsame]
    split at hc
    · next hpos =>
        obtain ⟨c₀, hc₀, rfl⟩ := Option.map_eq_some_iff.mp hc
        have := h.card_le c₀ hc₀
        omega
    · exact h.card_le c hc
  · have hnew : ¬ Stored mid id := by
      rw [ht.eq, stored_append, stored_append] at hid
      tauto
    have hadded := card_add_one_le (r := r) hnew
    rw [if_pos (by omega)] at hc
    obtain ⟨c₀, hc₀, rfl⟩ := Option.map_eq_some_iff.mp hc
    have hle := h.card_le c₀ hc₀
    have hunion := Finset.card_union_le (allIds s.slices) [id].toFinset
    have hone : [id].toFinset.card = 1 := by simp
    omega

/-- What a range does not touch holds nothing, so what is left is in the joined slice. -/
theorem allIds_subset_joined {slices before mid after : List Slice} (messages : List MsgId)
    {r : MsgRange}
    (ht : Touched (·.range.from_) (·.range.till) r.from_ r.till slices before mid after)
    (hempty : ∀ slice ∈ slices, ¬ Touches slice r → slice.messages = ∅) :
    allIds (before ++ joinAll ⟨messages.toFinset, r⟩ mid :: after) ⊆
      (joinAll ⟨messages.toFinset, r⟩ mid).messages := by
  intro id hid
  rw [mem_allIds, stored_append, stored_cons] at hid
  rcases hid with ⟨a, ha, hid⟩ | hid | ⟨b, hb, hid⟩
  · have hnot : ¬ Touches a r := fun h => (ht.before a ha).not_ge h.1
    rw [hempty a (ht.eq ▸ List.mem_append_left _ ha) hnot] at hid
    cases hid
  · exact hid
  · have hnot : ¬ Touches b r := fun h => (ht.after b hb).not_ge h.2
    rw [hempty b (ht.eq ▸ List.mem_append_right _ (List.mem_append_right _ hb)) hnot] at hid
    cases hid

/-- An id is added and counted, or what is added is covered by the count. -/
theorem kept_of_added {s : SparseIdsList} {op : Operation} {a : Added} (ha : op.added = some a)
    (hk : CountKept s op) :
    (∃ id, a.messages = [id] ∧ a.count = none ∧ a.increment = true) ∨
      (a.increment = false ∧ Covers s a) := by
  cases op <;> cases ha
  · exact Or.inl ⟨_, rfl, rfl, rfl⟩
  · exact Or.inr ⟨rfl, hk⟩
  · exact Or.inr ⟨rfl, hk⟩

/-- What is skipped changes no slice. -/
theorem unsettled_of_skipped {s : SparseIdsList} {a : Added} {slices : List Slice}
    {slice : Option Slice} {added : Int} (hv : ValidAdd a.messages a.range)
    (hskip : Skipped a.messages a.range) (hu : Unsettled s a slices slice added) :
    slices = s.slices ∧ slice = none ∧ added = 0 := by
  have hskip' : a.range.from_ = a.range.till ∧ a.messages = [] := hskip
  unfold Unsettled at hu
  rw [addRangeItemsAndCountNew, if_neg hv.range.le.not_gt, if_pos hskip'] at hu
  cases hu
  exact ⟨rfl, rfl, rfl⟩

/-- The count that is in force, where nothing is added to it. -/
theorem newCount_of_not_increment (old count : Option Int) (added : Int) :
    newCount old count false added = count.or old := by
  cases count <;> rfl

/-- **The count after an addition.**  Clamped to the changed slice it is at least the number
of the ids, even where the slices are not settled. -/
theorem card_le_clamped {s : SparseIdsList} (h : Counted s) {a : Added}
    (hv : ValidAdd a.messages a.range)
    (hcount : ∀ c ∈ a.count, (a.messages.toFinset.card : Int) ≤ c)
    (hk : (∃ id, a.messages = [id] ∧ a.count = none ∧ a.increment = true) ∨
      (a.increment = false ∧ Covers s a))
    {slices : List Slice} {slice : Option Slice} {added : Int}
    (hu : Unsettled s a slices slice added) (hne : ∀ x, slices ≠ [x]) {c : Int}
    (hc : c ∈ clampCount slice (newCount s.count a.count a.increment added)) :
    ((allIds slices).card : Int) ≤ c := by
  by_cases hskip : Skipped a.messages a.range
  · obtain ⟨rfl, rfl, rfl⟩ := unsettled_of_skipped hv hskip hu
    rcases hk with ⟨id, hid, -⟩ | ⟨hincrement, hk⟩
    · exact absurd hskip.2 (by simp [hid])
    · rw [hincrement, newCount_of_not_increment] at hc
      rcases hk c hc with hle | hlength
      · rw [hskip.2, List.toFinset_nil, Finset.union_empty] at hle
        exact hle
      · rw [if_pos hskip] at hlength
        cases hslices : s.slices with
        | nil =>
            simp only [allIds, Finset.card_empty, Nat.cast_zero]
            have hc : c ∈ a.count.or s.count := hc
            cases hcnt : a.count with
            | some c' =>
                rw [hcnt, Option.some_or] at hc
                cases hc
                have := hcount c hcnt
                omega
            | none =>
                rw [hcnt, Option.none_or] at hc
                have := h.card_le c hc
                omega
        | cons x l =>
            rw [hslices, List.length_cons] at hlength
            have hnil : l = [] := List.length_eq_zero_iff.mp (by omega)
            exact absurd (hslices.trans (by rw [hnil])) (hne x)
  · obtain ⟨before, mid, after, ht, heq⟩ := addItems_spec h.wellFormed hv.range hskip
    unfold Unsettled at hu
    rw [heq] at hu
    cases hu
    obtain ⟨c₀, hc₀, hmax⟩ := mem_clampCount.mp hc
    rw [Option.elim_some] at hmax
    rcases hk with ⟨id, hid, hnone, hincrement⟩ | ⟨hincrement, hk⟩
    · rw [allIds_added ht]
      rw [hid, hnone, hincrement] at hc₀
      have := card_le_newCount h ht hc₀
      rw [hid]
      omega
    · rw [hincrement, newCount_of_not_increment] at hc₀
      rcases hk c₀ hc₀ with hle | hempty
      · rw [allIds_added ht]
        omega
      · rw [if_neg hskip] at hempty
        have := Finset.card_le_card (allIds_subset_joined a.messages ht hempty)
        omega

/-- The changed slice is one of the slices. -/
theorem mem_of_unsettled {s : SparseIdsList} (h : WellFormed s.slices) {a : Added}
    (hv : ValidAdd a.messages a.range) {slices : List Slice} {slice : Option Slice} {added : Int}
    (hu : Unsettled s a slices slice added) : ∀ x ∈ slice, x ∈ slices := by
  by_cases hskip : Skipped a.messages a.range
  · obtain ⟨-, rfl, -⟩ := unsettled_of_skipped hv hskip hu
    simp
  · obtain ⟨before, mid, after, -, heq⟩ := addItems_spec h hv.range hskip
    unfold Unsettled at hu
    rw [heq] at hu
    cases hu
    rintro x ⟨⟩
    simp

/-- An operation that adds keeps a counted list counted. -/
theorem Counted.add {s s' : SparseIdsList} (h : Counted s) {op : Operation} {a : Added}
    (ha : op.added = some a) (hstep : counting.step s op s') (hk : CountKept s op) :
    Counted s' := by
  obtain ⟨hvalid, hcount, e, hperform⟩ := hstep
  have hv := hvalid a ha
  obtain ⟨slices, slice, added, hu⟩ := exists_unsettled h.wellFormed hv
  have hwf := (unsettled_spec h.wellFormed hv hu).1
  have hmem := mem_of_unsettled h.wellFormed hv hu
  rw [perform_unsettled ha hu] at hperform
  have hs' := (Prod.ext_iff.mp (Option.some.inj hperform)).1
  dsimp only at hs'
  subst hs'
  by_cases hone : ∃ x, slices = [x]
  · obtain ⟨x, rfl⟩ := hone
    refine (counted_settle_one hwf).clamp fun y hy => ?_
    rw [List.mem_singleton.mp (hmem y hy)]
    simp [settle, allIds]
  · have hne : ∀ x, slices ≠ [x] := fun x hx => hone ⟨x, hx⟩
    rw [settle_of_ne hne]
    refine ⟨hwf, fun c hc => ?_, fun c hc x hx hfull => ?_⟩
    · exact card_le_clamped h hv (hcount a ha) (kept_of_added ha hk) hu hne hc
    · exact absurd (hwf.eq_of_full hx hfull) (hne x)

/-! ## Removing -/

theorem allIds_removeOne (s : SparseIdsList) (h : WellFormed s.slices) (id : MsgId) :
    allIds (s.removeOne id).slices = (allIds s.slices).erase id := by
  ext x
  rw [mem_allIds, stored_removeOne s h, Finset.mem_erase, mem_allIds, and_comm]

theorem Counted.removeOne {s : SparseIdsList} (h : Counted s) {id : MsgId}
    (hk : ∀ c ∈ s.count, Stored s.slices id ∨ ((allIds s.slices).card : Int) < c) :
    Counted (s.removeOne id) := by
  have hwf := wellFormed_removeOne s h.wellFormed id
  have hids := allIds_removeOne s h.wellFormed id
  have hcard (c : Int) (hc : c ∈ s.count) :
      ((allIds (s.removeOne id).slices).card : Int) ≤ c - 1 ∧
        (((allIds s.slices).card : Int) = c →
          ((allIds (s.removeOne id).slices).card : Int) = c - 1) := by
    rw [hids]
    have hle := h.card_le c hc
    rcases hk c hc with hid | hlt
    · have herase := Finset.card_erase_add_one (mem_allIds.mpr hid)
      omega
    · have herase := Finset.card_erase_le (s := allIds s.slices) (a := id)
      omega
  refine ⟨hwf, fun c hc => ?_, fun c hc slice hs hfull => ?_⟩
  · obtain ⟨c₀, hc₀, rfl⟩ := Option.map_eq_some_iff.mp hc
    exact (hcard c₀ hc₀).1
  · obtain ⟨c₀, hc₀, rfl⟩ := Option.map_eq_some_iff.mp hc
    have hsingle := hwf.eq_of_full hs hfull
    have hnew : allIds (s.removeOne id).slices = slice.messages := by
      rw [hsingle]
      simp [allIds]
    have hold : ((allIds s.slices).card : Int) = c₀ := by
      rcases removeOne_slices s h.wellFormed id with ⟨heq, -⟩ | ⟨before, x, after, heq, -, hrem⟩
      · rw [heq] at hsingle
        rw [hsingle, h.full c₀ hc₀ slice (by simp [hsingle]) hfull]
        simp [allIds]
      · rw [hrem] at hsingle
        have hlength := congrArg List.length hsingle
        simp only [List.length_append, List.length_cons, List.length_nil] at hlength
        have hb : before = [] := List.length_eq_zero_iff.mp (by omega)
        have ha : after = [] := List.length_eq_zero_iff.mp (by omega)
        subst hb ha
        rw [List.nil_append] at heq hsingle
        have hx : x.range = MsgRange.full := by
          rw [← hfull, ← List.singleton_inj.mp hsingle]
          rfl
        rw [heq, h.full c₀ hc₀ x (by simp [heq]) hx]
        simp [allIds]
    rw [← hnew]
    exact ((hcard c₀ hc₀).2 hold).symm

/-- **One operation.**  Where the count is kept, a counted list stays counted. -/
theorem Counted.step {s s' : SparseIdsList} {op : Operation} (h : Counted s)
    (hk : CountKept s op) (hstep : counting.step s op s') : Counted s' := by
  cases op with
  | addNew messageId => exact h.add rfl hstep hk
  | addExisting messageId noSkipRange => exact h.add rfl hstep hk
  | addSlice messageIds noSkipRange count => exact h.add rfl hstep hk
  | removeOne messageId =>
      obtain ⟨-, -, e, hperform⟩ := hstep
      cases hperform
      exact h.removeOne hk
  | removeAll =>
      obtain ⟨-, -, e, hperform⟩ := hstep
      cases hperform
      refine ⟨WellFormed.cons_iff.mpr ⟨wellFormed_full (by simp), by simp, WellFormed.nil⟩, ?_, ?_⟩
      · rintro c ⟨⟩
        simp [SparseIdsList.removeAll, allIds]
      · rintro c ⟨⟩ slice hs -
        rw [List.mem_singleton.mp hs]
        rfl
  | invalidateBottom =>
      obtain ⟨-, -, e, hperform⟩ := hstep
      cases hperform
      exact ⟨wellFormed_invalidateBottom s h.wellFormed, by simp [SparseIdsList.invalidateBottom],
        by simp [SparseIdsList.invalidateBottom]⟩

/-! ## Looking up -/

/-- What is skipped is not negative, and with the ids that are given it makes the count. -/
structure Result.Consistent (r : Result) : Prop where
  before : ∀ b ∈ r.skippedBefore, 0 ≤ b
  after : ∀ a ∈ r.skippedAfter, 0 ≤ a
  sum : ∀ c ∈ r.count, ∀ b ∈ r.skippedBefore, ∀ a ∈ r.skippedAfter,
    b + r.messageIds.card + a = c

end SparseIdsList

end MessengerClient
