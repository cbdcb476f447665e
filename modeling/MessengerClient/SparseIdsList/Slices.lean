import MessengerClient.SparseIdsList
import Mathlib.Order.Interval.Set.LinearOrder

/-!
# MessengerClient.SparseIdsList.Slices

The slices of a list stay in order and apart, with their ids inside, and they cover what
was added.

Adding a range joins the slices that it touches into one (`addItems_spec`), and this is the
only place where an expectation could fail.  That the slices cover no more than the added
ranges is so only up to the step that finds the list complete, which stretches its last
slice to the full range.
-/

namespace MessengerClient

namespace SparseIdsList

/-! ## Well-formed slices -/

/-- The slices are in order and apart, and their ids are inside. -/
structure WellFormed (slices : List Slice) : Prop where
  apart : Spaced (·.range.from_) (·.range.till) slices
  inside : ∀ slice ∈ slices, ∀ id ∈ slice.messages,
    slice.range.from_ ≤ id ∧ id ≤ slice.range.till
  bounds : ∀ slice ∈ slices, 0 ≤ slice.range.from_ ∧ slice.range.till ≤ serverMaxMsgId

/-- A range of server ids. -/
structure ValidRange (r : MsgRange) : Prop where
  le : r.from_ ≤ r.till
  nonneg : 0 ≤ r.from_
  le_max : r.till ≤ serverMaxMsgId

/-- The ids that are in one of the slices. -/
def Stored (slices : List Slice) (id : MsgId) : Prop := ∃ slice ∈ slices, id ∈ slice.messages

/-- The ids that are in the range of one of the slices. -/
def Covered (slices : List Slice) (id : MsgId) : Prop :=
  ∃ slice ∈ slices, slice.range.from_ ≤ id ∧ id ≤ slice.range.till

theorem stored_append {l₁ l₂ : List Slice} {id : MsgId} :
    Stored (l₁ ++ l₂) id ↔ Stored l₁ id ∨ Stored l₂ id := by
  simp only [Stored, List.mem_append, or_and_right, exists_or]

theorem covered_append {l₁ l₂ : List Slice} {id : MsgId} :
    Covered (l₁ ++ l₂) id ↔ Covered l₁ id ∨ Covered l₂ id := by
  simp only [Covered, List.mem_append, or_and_right, exists_or]

@[simp] theorem stored_cons {slice : Slice} {l : List Slice} {id : MsgId} :
    Stored (slice :: l) id ↔ id ∈ slice.messages ∨ Stored l id := by
  simp only [Stored, List.mem_cons, or_and_right, exists_or, exists_eq_left]

@[simp] theorem covered_cons {slice : Slice} {l : List Slice} {id : MsgId} :
    Covered (slice :: l) id ↔
      (slice.range.from_ ≤ id ∧ id ≤ slice.range.till) ∨ Covered l id := by
  simp only [Covered, List.mem_cons, or_and_right, exists_or, exists_eq_left]

@[simp] theorem not_stored_nil {id : MsgId} : ¬ Stored [] id := by simp [Stored]

@[simp] theorem not_covered_nil {id : MsgId} : ¬ Covered [] id := by simp [Covered]

namespace WellFormed

variable {l l₁ l₂ : List Slice} {slice : Slice}

theorem nil : WellFormed [] := ⟨Spaced.nil, by simp, by simp⟩

theorem append_iff :
    WellFormed (l₁ ++ l₂) ↔ WellFormed l₁ ∧ WellFormed l₂ ∧
      ∀ a ∈ l₁, ∀ b ∈ l₂, a.range.till < b.range.from_ := by
  constructor
  · rintro ⟨hapart, hinside, hbounds⟩
    obtain ⟨h₁, h₂, h₁₂⟩ := Spaced.append_iff.mp hapart
    exact ⟨⟨h₁, fun s hs => hinside s (List.mem_append_left _ hs),
        fun s hs => hbounds s (List.mem_append_left _ hs)⟩,
      ⟨h₂, fun s hs => hinside s (List.mem_append_right _ hs),
        fun s hs => hbounds s (List.mem_append_right _ hs)⟩, h₁₂⟩
  · rintro ⟨h₁, h₂, h₁₂⟩
    refine ⟨Spaced.append_iff.mpr ⟨h₁.apart, h₂.apart, h₁₂⟩, fun s hs => ?_, fun s hs => ?_⟩
    · cases List.mem_append.mp hs with
      | inl hs => exact h₁.inside s hs
      | inr hs => exact h₂.inside s hs
    · cases List.mem_append.mp hs with
      | inl hs => exact h₁.bounds s hs
      | inr hs => exact h₂.bounds s hs

/-- One slice is well-formed by itself. -/
structure One (slice : Slice) : Prop where
  le : slice.range.from_ ≤ slice.range.till
  inside : ∀ id ∈ slice.messages, slice.range.from_ ≤ id ∧ id ≤ slice.range.till
  bounds : 0 ≤ slice.range.from_ ∧ slice.range.till ≤ serverMaxMsgId

theorem cons_iff :
    WellFormed (slice :: l) ↔
      One slice ∧ (∀ b ∈ l, slice.range.till < b.range.from_) ∧ WellFormed l := by
  constructor
  · rintro ⟨hapart, hinside, hbounds⟩
    obtain ⟨hle, hlt, hl⟩ := Spaced.cons_iff.mp hapart
    rw [List.forall_mem_cons] at hinside hbounds
    exact ⟨⟨hle, hinside.1, hbounds.1⟩, hlt, hl, hinside.2, hbounds.2⟩
  · rintro ⟨hone, hlt, hl⟩
    exact ⟨Spaced.cons_iff.mpr ⟨hone.le, hlt, hl.apart⟩,
      List.forall_mem_cons.mpr ⟨hone.inside, hl.inside⟩,
      List.forall_mem_cons.mpr ⟨hone.bounds, hl.bounds⟩⟩

theorem one (h : WellFormed l) (hs : slice ∈ l) : One slice :=
  ⟨h.apart.le slice hs, h.inside slice hs, h.bounds slice hs⟩

end WellFormed

/-! ## Joining the touched slices -/

/-- A slice that is joined with all the slices that it touches. -/
def joinAll (slice : Slice) (mid : List Slice) : Slice := mid.foldl Slice.join slice

theorem join_comm (a b : Slice) : a.join b = b.join a := by
  rw [Slice.join, Slice.join, Finset.union_comm, min_comm, max_comm]

/-- A slice touches a range. -/
def Touches (slice : Slice) (r : MsgRange) : Prop :=
  r.from_ ≤ slice.range.till ∧ slice.range.from_ ≤ r.till

/-- What has taken in a range goes on to be joined with what touches it. -/
theorem foldlM_merge {mid : List Slice} {slice : Slice} {r : MsgRange}
    (hfrom : slice.range.from_ ≤ r.from_) (htill : r.till ≤ slice.range.till)
    (hmid : ∀ it ∈ mid, Touches it r) :
    mid.foldlM Slice.merge slice = some (joinAll slice mid) := by
  induction mid generalizing slice with
  | nil => rfl
  | cons it mid ih =>
      rw [List.forall_mem_cons] at hmid
      obtain ⟨⟨h₁, h₂⟩, hmid⟩ := hmid
      have hmerge : slice.merge it = some (slice.join it) :=
        if_pos ⟨h₂.trans htill, hfrom.trans h₁⟩
      rw [List.foldlM_cons, hmerge]
      exact ih ((min_le_left _ _).trans hfrom) (htill.trans (le_max_left _ _)) hmid

theorem mem_joinAll {mid : List Slice} {slice : Slice} {id : MsgId} :
    id ∈ (joinAll slice mid).messages ↔ id ∈ slice.messages ∨ Stored mid id := by
  induction mid generalizing slice with
  | nil => simp [joinAll]
  | cons it mid ih =>
      have hstep : joinAll slice (it :: mid) = joinAll (slice.join it) mid := rfl
      rw [hstep, ih, stored_cons, Slice.join, Finset.mem_union, or_assoc]

theorem lt_from_joinAll {mid : List Slice} {slice : Slice} {k : MsgId} :
    k < (joinAll slice mid).range.from_ ↔
      k < slice.range.from_ ∧ ∀ it ∈ mid, k < it.range.from_ := by
  induction mid generalizing slice with
  | nil => simp [joinAll]
  | cons it mid ih =>
      have hstep : joinAll slice (it :: mid) = joinAll (slice.join it) mid := rfl
      rw [hstep, ih, List.forall_mem_cons, Slice.join, lt_min_iff, and_assoc]

theorem till_joinAll_lt {mid : List Slice} {slice : Slice} {k : MsgId} :
    (joinAll slice mid).range.till < k ↔
      slice.range.till < k ∧ ∀ it ∈ mid, it.range.till < k := by
  induction mid generalizing slice with
  | nil => simp [joinAll]
  | cons it mid ih =>
      have hstep : joinAll slice (it :: mid) = joinAll (slice.join it) mid := rfl
      rw [hstep, ih, List.forall_mem_cons, Slice.join, max_lt_iff, and_assoc]

/-- **Joining.**  What touches a range makes one range with it. -/
theorem covered_joinAll {mid : List Slice} {slice : Slice} {r : MsgRange} {id : MsgId}
    (hfrom : slice.range.from_ ≤ r.from_) (htill : r.till ≤ slice.range.till)
    (hmid : ∀ it ∈ mid, Touches it r) :
    (joinAll slice mid).range.from_ ≤ id ∧ id ≤ (joinAll slice mid).range.till ↔
      (slice.range.from_ ≤ id ∧ id ≤ slice.range.till) ∨ Covered mid id := by
  induction mid generalizing slice with
  | nil => simp [joinAll]
  | cons it mid ih =>
      rw [List.forall_mem_cons] at hmid
      obtain ⟨⟨h₁, h₂⟩, hmid⟩ := hmid
      have hstep : joinAll slice (it :: mid) = joinAll (slice.join it) mid := rfl
      have hunion := Set.Icc_union_Icc' (h₂.trans htill) (hfrom.trans h₁)
      have hjoin : (slice.join it).range.from_ ≤ id ∧ id ≤ (slice.join it).range.till ↔
          (slice.range.from_ ≤ id ∧ id ≤ slice.range.till) ∨
            (it.range.from_ ≤ id ∧ id ≤ it.range.till) := by
        have := Set.ext_iff.mp hunion id
        rw [Set.mem_union, Set.mem_Icc, Set.mem_Icc, Set.mem_Icc] at this
        exact this.symm
      rw [hstep, ih ((min_le_left _ _).trans hfrom) (htill.trans (le_max_left _ _)) hmid, hjoin,
        covered_cons, or_assoc]

/-! ## Adding -/

/-- Nothing is added by a range of one point without an id. -/
def Skipped (messages : List MsgId) (r : MsgRange) : Prop := r.from_ = r.till ∧ messages = []

instance (messages : List MsgId) (r : MsgRange) : Decidable (Skipped messages r) :=
  inferInstanceAs (Decidable (_ ∧ _))

/-- Ids and the range they are in. -/
structure ValidAdd (messages : List MsgId) (r : MsgRange) : Prop where
  range : ValidRange r
  inside : ∀ id ∈ messages, r.from_ ≤ id ∧ id ≤ r.till

/-- The number of ids in the first of the slices that are joined. -/
def firstCard (mid : List Slice) : Int := (mid.head?.map fun slice => (slice.messages.card : Int)).getD 0

theorem emplace_between {before after : List Slice} {slice : Slice}
    (hbefore : ∀ s ∈ before, s.range.from_ < slice.range.from_)
    (hafter : ∀ s ∈ after, slice.range.from_ < s.range.from_) :
    emplace (before ++ after) slice = (before ++ slice :: after, slice) := by
  have hi : lowerBound (·.range.from_) slice.range.from_ (before ++ after) = before.length := by
    rw [lowerBound, takeWhile_append_of_all]
    · intro s hs
      simpa using hbefore s hs
    · intro s hs
      simpa using (hafter s (List.mem_of_mem_head? hs)).le
  unfold emplace
  rw [hi]
  simp only [List.take_left, List.drop_left]
  rw [List.getElem?_append_right (Nat.le_refl _), Nat.sub_self]
  cases after with
  | nil => rfl
  | cons s after => exact if_pos (hafter s List.mem_cons_self)

theorem uniteAndAdd_touched (before after : List Slice) {mid : List Slice} {first : Slice}
    (more : Slice) (hmid : ∀ it ∈ first :: mid, Touches it more.range) :
    uniteAndAdd (before ++ (first :: mid ++ after)) before.length
        (before.length + (mid.length + 1)) more =
      some (before ++ joinAll more (first :: mid) :: after, joinAll more (first :: mid),
        ((joinAll more (first :: mid)).messages.card : Int) - first.messages.card) := by
  obtain ⟨⟨h₁, h₂⟩, hmid⟩ := List.forall_mem_cons.mp hmid
  have hfirst : first.merge more = some (more.join first) :=
    join_comm first more ▸ if_pos ⟨h₁, h₂⟩
  have hrest : ((before ++ (first :: mid ++ after)).take (before.length + (mid.length + 1))).drop
      (before.length + 1) = mid := by
    rw [List.take_length_add_append, ← List.drop_drop, List.drop_left]
    simp
  have hdrop : (before ++ (first :: mid ++ after)).drop (before.length + (mid.length + 1)) =
      after := by
    rw [← List.drop_drop, List.drop_left]
    simp
  have hmerge : mid.foldlM Slice.merge (more.join first) = some (joinAll (more.join first) mid) :=
    foldlM_merge (min_le_left _ _) (le_max_left _ _) hmid
  unfold uniteAndAdd
  rw [hrest, hdrop, List.take_left, List.getElem?_append_right (Nat.le_refl _), Nat.sub_self]
  simp only [List.cons_append, List.getElem?_cons_zero, Option.bind_eq_bind, Option.bind_some,
    hfirst, hmerge]
  rfl

/-- **Adding.**  The slices that the range touches become one with it; there is nothing
else that adding does to the slices. -/
theorem addItems_spec {slices : List Slice} (h : WellFormed slices) {messages : List MsgId}
    {r : MsgRange} (hr : ValidRange r) (hskip : ¬ Skipped messages r) :
    ∃ before mid after,
      Touched (·.range.from_) (·.range.till) r.from_ r.till slices before mid after ∧
      addRangeItemsAndCountNew slices messages r =
        some (before ++ joinAll ⟨messages.toFinset, r⟩ mid :: after,
          some (joinAll ⟨messages.toFinset, r⟩ mid),
          (joinAll ⟨messages.toFinset, r⟩ mid).messages.card - firstCard mid) := by
  have hsplit := h.apart.split r.from_ r.till
  have hlower := hsplit.lowerBound h.apart.le hr.le
  have hupper := hsplit.upperBound h.apart.le hr.le
  revert hsplit hlower hupper
  generalize slices.takeWhile (fun a => decide (a.range.till < r.from_)) = before
  generalize slices.dropWhile (fun a => decide (a.range.till < r.from_)) = rest
  generalize rest.takeWhile (fun a => decide (a.range.from_ ≤ r.till)) = mid
  generalize rest.dropWhile (fun a => decide (a.range.from_ ≤ r.till)) = after
  intro hsplit hlower hupper
  refine ⟨before, mid, after, hsplit, ?_⟩
  have hskip : ¬ (r.from_ = r.till ∧ messages = []) := hskip
  unfold addRangeItemsAndCountNew
  rw [if_neg hr.le.not_gt, if_neg hskip]
  simp only [hlower, hupper]
  have heq := hsplit.eq
  cases mid with
  | nil =>
      rw [List.length_nil, Nat.add_zero, if_neg (Nat.lt_irrefl _), heq, List.nil_append,
        emplace_between]
      · simp [joinAll, firstCard]
      · intro s hs
        exact (h.apart.le s (heq ▸ List.mem_append_left _ hs)).trans_lt (hsplit.before s hs)
      · intro s hs
        exact hr.le.trans_lt (hsplit.after s hs)
  | cons first mid =>
      have hunite := uniteAndAdd_touched before after ⟨messages.toFinset, r⟩ hsplit.mid
      rw [List.length_cons, if_pos (by omega), heq, hunite]
      rfl

section Added

variable {slices before mid after : List Slice} {messages : List MsgId} {r : MsgRange}

theorem covered_united (messages : List MsgId) (hmid : ∀ it ∈ mid, Touches it r) (id : MsgId) :
    (joinAll ⟨messages.toFinset, r⟩ mid).range.from_ ≤ id ∧
        id ≤ (joinAll ⟨messages.toFinset, r⟩ mid).range.till ↔
      (r.from_ ≤ id ∧ id ≤ r.till) ∨ Covered mid id :=
  covered_joinAll le_rfl le_rfl hmid

theorem one_united (h : WellFormed mid) (hv : ValidAdd messages r)
    (hmid : ∀ it ∈ mid, Touches it r) :
    WellFormed.One (joinAll ⟨messages.toFinset, r⟩ mid) := by
  have hcovered := covered_united messages hmid
  refine ⟨?_, fun id hid => ?_, ?_, ?_⟩
  · have hfrom := (hcovered r.from_).mpr (Or.inl ⟨le_rfl, hv.range.le⟩)
    exact hfrom.1.trans hfrom.2
  · rw [hcovered]
    cases mem_joinAll.mp hid with
    | inl hid => exact Or.inl (hv.inside id (List.mem_toFinset.mp hid))
    | inr hid =>
        obtain ⟨it, hit, hid⟩ := hid
        exact Or.inr ⟨it, hit, h.inside it hit id hid⟩
  · rw [← Int.sub_one_lt_iff, lt_from_joinAll]
    refine ⟨Int.sub_one_lt_iff.mpr hv.range.nonneg, fun it hit => ?_⟩
    exact Int.sub_one_lt_iff.mpr (h.bounds it hit).1
  · rw [← Int.lt_add_one_iff, till_joinAll_lt]
    refine ⟨Int.lt_add_one_iff.mpr hv.range.le_max, fun it hit => ?_⟩
    exact Int.lt_add_one_iff.mpr (h.bounds it hit).2

theorem wellFormed_added (h : WellFormed slices) (hv : ValidAdd messages r)
    (ht : Touched (·.range.from_) (·.range.till) r.from_ r.till slices before mid after) :
    WellFormed (before ++ joinAll ⟨messages.toFinset, r⟩ mid :: after) := by
  rw [ht.eq, WellFormed.append_iff, WellFormed.append_iff] at h
  obtain ⟨hbefore, ⟨hmid, hafter, hma⟩, hb⟩ := h
  rw [WellFormed.append_iff, WellFormed.cons_iff]
  refine ⟨hbefore, ⟨one_united hmid hv ht.mid, fun b hb => ?_, hafter⟩, fun a ha b hba => ?_⟩
  · rw [till_joinAll_lt]
    exact ⟨ht.after b hb, fun it hit => hma it hit b hb⟩
  · cases List.mem_cons.mp hba with
    | inl h =>
        rw [h, lt_from_joinAll]
        exact ⟨ht.before a ha, fun it hit => hb a ha it (List.mem_append_left _ hit)⟩
    | inr h => exact hb a ha b (List.mem_append_right _ h)

theorem stored_added
    (ht : Touched (·.range.from_) (·.range.till) r.from_ r.till slices before mid after)
    (id : MsgId) :
    Stored (before ++ joinAll ⟨messages.toFinset, r⟩ mid :: after) id ↔
      Stored slices id ∨ id ∈ messages := by
  rw [ht.eq, stored_append, stored_append, stored_append, stored_cons, mem_joinAll,
    List.mem_toFinset]
  tauto

theorem covered_added
    (ht : Touched (·.range.from_) (·.range.till) r.from_ r.till slices before mid after)
    (id : MsgId) :
    Covered (before ++ joinAll ⟨messages.toFinset, r⟩ mid :: after) id ↔
      Covered slices id ∨ (r.from_ ≤ id ∧ id ≤ r.till) := by
  rw [ht.eq, covered_append, covered_append, covered_append, covered_cons,
    covered_united messages ht.mid]
  tauto

end Added

/-! ## Settling -/

/-- The step stretches the only slice. -/
def stretches (slices : List Slice) (count : Option Int) : Bool :=
  match slices with
  | [slice] => completes count slice && decide (slice.range ≠ MsgRange.full)
  | _ => false

theorem stored_settle (slices : List Slice) (count : Option Int) (id : MsgId) :
    Stored (settle slices count).slices id ↔ Stored slices id := by
  unfold settle
  split
  · simp
  · rfl

theorem covered_settle {slices : List Slice} {count : Option Int}
    (h : stretches slices count = false) (id : MsgId) :
    Covered (settle slices count).slices id ↔ Covered slices id := by
  unfold settle
  split
  · next slice =>
      have hrange : (if completes count slice then MsgRange.full else slice.range) =
          slice.range := by
        split
        · next hc =>
            simp only [stretches, hc, Bool.true_and, decide_eq_false_iff_not, not_not] at h
            exact h.symm
        · rfl
      simp [hrange]
  · rfl

theorem full_le : MsgRange.full.from_ ≤ MsgRange.full.till := by decide

theorem wellFormed_full {messages : Finset MsgId}
    (h : ∀ id ∈ messages, 0 ≤ id ∧ id ≤ serverMaxMsgId) :
    WellFormed.One ⟨messages, MsgRange.full⟩ := ⟨full_le, h, le_rfl, le_rfl⟩

theorem wellFormed_settle {slices : List Slice} (count : Option Int) (h : WellFormed slices) :
    WellFormed (settle slices count).slices := by
  unfold settle
  split
  · next slice =>
      have hone := h.one (List.mem_singleton_self slice)
      refine WellFormed.cons_iff.mpr ⟨?_, by simp, WellFormed.nil⟩
      split
      · refine wellFormed_full fun id hid => ?_
        have hid := hone.inside id hid
        exact ⟨hone.bounds.1.trans hid.1, hid.2.trans hone.bounds.2⟩
      · exact hone
  · exact h

/-! ## Removing -/

/-- The slice without an id. -/
def Slice.erase (slice : Slice) (id : MsgId) : Slice :=
  { slice with messages := slice.messages.erase id }

/-- Only the slice around an id is changed when the id is removed, if there is one. -/
theorem removeOne_slices (s : SparseIdsList) (h : WellFormed s.slices) (id : MsgId) :
    ((s.removeOne id).slices = s.slices ∧ ¬ Covered s.slices id) ∨
      ∃ before slice after, s.slices = before ++ slice :: after ∧
        (slice.range.from_ ≤ id ∧ id ≤ slice.range.till) ∧
        (s.removeOne id).slices = before ++ slice.erase id :: after := by
  have hsplit := h.apart.split id id
  have hlower := hsplit.lowerBound h.apart.le le_rfl
  revert hsplit hlower
  generalize s.slices.takeWhile (fun a => decide (a.range.till < id)) = before
  generalize s.slices.dropWhile (fun a => decide (a.range.till < id)) = rest
  generalize rest.takeWhile (fun a => decide (a.range.from_ ≤ id)) = mid
  generalize rest.dropWhile (fun a => decide (a.range.from_ ≤ id)) = after
  intro hsplit hlower
  have heq := hsplit.eq
  unfold removeOne
  simp only [hlower]
  cases mid with
  | nil =>
      left
      rw [List.nil_append] at heq
      constructor
      · rw [heq, List.getElem?_append_right (Nat.le_refl _), Nat.sub_self]
        cases after with
        | nil => rfl
        | cons b after =>
            have hb := hsplit.after b List.mem_cons_self
            exact if_neg hb.not_ge
      · rw [heq, covered_append]
        rintro (⟨a, ha, -, htill⟩ | ⟨b, hb, hfrom, -⟩)
        · exact absurd (hsplit.before a ha) htill.not_gt
        · exact absurd (hsplit.after b hb) hfrom.not_gt
  | cons slice mid =>
      right
      have hslice := hsplit.mid slice List.mem_cons_self
      refine ⟨before, slice, mid ++ after, heq, ⟨hslice.2, hslice.1⟩, ?_⟩
      rw [heq, List.getElem?_append_right (Nat.le_refl _), Nat.sub_self]
      simp only [List.cons_append, List.getElem?_cons_zero]
      rw [if_pos hslice.2, List.set_append_right _ _ (Nat.le_refl _), Nat.sub_self]
      rfl

theorem wellFormed_removeOne (s : SparseIdsList) (h : WellFormed s.slices) (id : MsgId) :
    WellFormed (s.removeOne id).slices := by
  rcases removeOne_slices s h id with ⟨heq, -⟩ | ⟨before, slice, after, heq, -, hnew⟩
  · rw [heq]
    exact h
  · rw [heq, WellFormed.append_iff, WellFormed.cons_iff] at h
    rw [hnew, WellFormed.append_iff, WellFormed.cons_iff]
    obtain ⟨hbefore, ⟨hone, hlt, hafter⟩, hcross⟩ := h
    refine ⟨hbefore, ⟨⟨hone.le, fun x hx => ?_, hone.bounds⟩, hlt, hafter⟩, fun a ha b hb => ?_⟩
    · exact hone.inside x (Finset.mem_of_mem_erase hx)
    · cases List.mem_cons.mp hb with
      | inl h => exact h ▸ hcross a ha slice List.mem_cons_self
      | inr h => exact hcross a ha b (List.mem_cons_of_mem _ h)

theorem covered_removeOne (s : SparseIdsList) (h : WellFormed s.slices) (id x : MsgId) :
    Covered (s.removeOne id).slices x ↔ Covered s.slices x := by
  rcases removeOne_slices s h id with ⟨heq, -⟩ | ⟨before, slice, after, heq, -, hnew⟩
  · rw [heq]
  · rw [heq, hnew, covered_append, covered_append, covered_cons, covered_cons]
    rfl

/-- What is stored is covered. -/
theorem WellFormed.covered {slices : List Slice} (h : WellFormed slices) {id : MsgId}
    (hid : Stored slices id) : Covered slices id := by
  obtain ⟨slice, hslice, hid⟩ := hid
  exact ⟨slice, hslice, h.inside slice hslice id hid⟩

/-- An id that a slice covers is in no other slice. -/
theorem WellFormed.not_covered_other {before after : List Slice} {slice : Slice} {id : MsgId}
    (h : WellFormed (before ++ slice :: after))
    (hid : slice.range.from_ ≤ id ∧ id ≤ slice.range.till) :
    ¬ Covered before id ∧ ¬ Covered after id := by
  rw [append_iff, cons_iff] at h
  obtain ⟨-, ⟨-, hlt, -⟩, hcross⟩ := h
  constructor
  · rintro ⟨a, ha, -, htill⟩
    exact absurd ((hcross a ha slice List.mem_cons_self).trans_le hid.1) htill.not_gt
  · rintro ⟨b, hb, hfrom, -⟩
    exact absurd (hid.2.trans_lt (hlt b hb)) hfrom.not_gt

theorem stored_removeOne (s : SparseIdsList) (h : WellFormed s.slices) (id x : MsgId) :
    Stored (s.removeOne id).slices x ↔ Stored s.slices x ∧ x ≠ id := by
  rcases removeOne_slices s h id with ⟨heq, hnot⟩ | ⟨before, slice, after, heq, hid, hnew⟩
  · rw [heq]
    refine ⟨fun hx => ⟨hx, ?_⟩, And.left⟩
    rintro rfl
    exact hnot (h.covered hx)
  · rw [heq] at h
    have hother := h.not_covered_other hid
    rw [WellFormed.append_iff, WellFormed.cons_iff] at h
    have hbefore (hx : Stored before x) : x ≠ id := by
      rintro rfl
      exact hother.1 (h.1.covered hx)
    have hafter (hx : Stored after x) : x ≠ id := by
      rintro rfl
      exact hother.2 (h.2.1.2.2.covered hx)
    rw [heq, hnew, stored_append, stored_append, stored_cons, stored_cons, Slice.erase,
      Finset.mem_erase]
    tauto

/-! ## Invalidating -/

/-- The tail that `invalidateBottom` cuts off. -/
def Cut (slices : List Slice) (id : MsgId) : Prop :=
  ∃ last ∈ slices.getLast?, last.range.till = serverMaxMsgId ∧ last.bottom < id

theorem Slice.bottom_spec {slice : Slice} (h : WellFormed.One slice) :
    (slice.range.from_ ≤ slice.bottom ∧ slice.bottom ≤ slice.range.till) ∧
      ∀ id ∈ slice.messages, id ≤ slice.bottom := by
  unfold Slice.bottom
  split
  · next hne =>
      exact ⟨h.inside _ (Finset.max'_mem _ hne), fun id hid => Finset.le_max' _ id hid⟩
  · next hne =>
      rw [Finset.not_nonempty_iff_eq_empty] at hne
      exact ⟨⟨le_rfl, h.le⟩, by simp [hne]⟩

/-- Only the end of the last slice is changed, if it is the end of the full range. -/
theorem invalidateBottom_slices (s : SparseIdsList) :
    ((s.invalidateBottom).slices = s.slices ∧ ∀ id, ¬ Cut s.slices id) ∨
      ∃ before last, s.slices = before ++ [last] ∧ last.range.till = serverMaxMsgId ∧
        (s.invalidateBottom).slices =
          before ++ [{ last with range := ⟨last.range.from_, last.bottom⟩ }] := by
  unfold invalidateBottom Cut
  cases hlast : s.slices.getLast? with
  | none => left; exact ⟨rfl, by simp⟩
  | some last =>
      by_cases htill : last.range.till = serverMaxMsgId
      · right
        obtain ⟨before, heq⟩ := List.getLast?_eq_some_iff.mp hlast
        refine ⟨before, last, heq, htill, ?_⟩
        simp only [htill, if_true, heq, List.dropLast_concat]
      · left
        simp [htill]

theorem wellFormed_invalidateBottom (s : SparseIdsList) (h : WellFormed s.slices) :
    WellFormed s.invalidateBottom.slices := by
  rcases invalidateBottom_slices s with ⟨heq, -⟩ | ⟨before, last, heq, -, hnew⟩
  · rw [heq]
    exact h
  · rw [heq, WellFormed.append_iff] at h
    rw [hnew, WellFormed.append_iff]
    obtain ⟨hbefore, hlast, hcross⟩ := h
    have hone := (WellFormed.cons_iff.mp hlast).1
    have hbottom := Slice.bottom_spec hone
    refine ⟨hbefore, WellFormed.cons_iff.mpr ⟨⟨hbottom.1.1, fun id hid => ?_, ?_⟩, by simp, ?_⟩, ?_⟩
    · exact ⟨(hone.inside id hid).1, hbottom.2 id hid⟩
    · exact ⟨hone.bounds.1, hbottom.1.2.trans hone.bounds.2⟩
    · exact WellFormed.nil
    · intro a ha b hb
      rw [List.mem_singleton.mp hb]
      exact hcross a ha last (List.mem_singleton_self last)

theorem stored_invalidateBottom (s : SparseIdsList) (id : MsgId) :
    Stored s.invalidateBottom.slices id ↔ Stored s.slices id := by
  rcases invalidateBottom_slices s with ⟨heq, -⟩ | ⟨before, last, heq, -, hnew⟩
  · rw [heq]
  · rw [heq, hnew, stored_append, stored_append, stored_cons, stored_cons]

theorem covered_invalidateBottom (s : SparseIdsList) (h : WellFormed s.slices) (id : MsgId) :
    Covered s.invalidateBottom.slices id ↔ Covered s.slices id ∧ ¬ Cut s.slices id := by
  rcases invalidateBottom_slices s with ⟨heq, hcut⟩ | ⟨before, last, heq, htill, hnew⟩
  · rw [heq]
    exact ⟨fun hid => ⟨hid, hcut id⟩, And.left⟩
  · have hlast := h.one (show last ∈ s.slices by rw [heq]; simp)
    have hbottom := (Slice.bottom_spec hlast).1
    have hcut : Cut s.slices id ↔ last.bottom < id := by
      rw [Cut, heq, List.getLast?_concat]
      simp [htill]
    rw [heq, WellFormed.append_iff] at h
    have hbefore (hid : Covered before id) : id ≤ last.bottom := by
      obtain ⟨a, ha, -, hle⟩ := hid
      have hlt := h.2.2 a ha last (List.mem_singleton_self last)
      exact (hle.trans hlt.le).trans hbottom.1
    rw [hcut, heq, hnew, covered_append, covered_append, covered_cons, covered_cons, not_lt]
    have htill : id ≤ last.bottom → id ≤ last.range.till := fun hid => hid.trans hbottom.2
    have hnil : ¬ Covered [] id := not_covered_nil
    dsimp only
    tauto

end SparseIdsList

end MessengerClient
