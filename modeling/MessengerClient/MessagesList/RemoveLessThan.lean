import MessengerClient.MessagesList
import MessengerClient.Lib.Runs
import Mathlib.Algebra.Order.Group.Finset

/-!
# MessengerClient.MessagesList.RemoveLessThan

What `removeLessThan` removes from a list that was built by the operations.

The slices that end at the position or before it are dropped whole, also the one that ends at the
position and stores it.  What is left of the slice around the position starts with the first
position of all then.
-/

namespace MessengerClient

namespace Data

namespace MessagesList

/-! ## Well-formed slices -/

/-- The slices are in order and apart, and their positions are inside. -/
structure WellFormed (slices : List Slice) : Prop where
  apart : Spaced (·.range.from_) (·.range.till) slices
  inside : ∀ slice ∈ slices, ∀ p ∈ slice.messages, slice.range.from_ ≤ p ∧ p ≤ slice.range.till

/-- The positions that are in one of the slices. -/
def stored : List Slice → Finset MessagePosition
  | [] => ∅
  | slice :: slices => slice.messages ∪ stored slices

variable {slices l₁ l₂ rest : List Slice} {slice : Slice} {m p : MessagePosition}
  {messages : List MessagePosition} {r : MessagesRange} {s s' : MessagesList}

namespace WellFormed

theorem nil : WellFormed [] := ⟨Spaced.nil, by simp⟩

theorem cons_iff :
    WellFormed (slice :: rest) ↔
      (slice.range.from_ ≤ slice.range.till ∧
        ∀ p ∈ slice.messages, slice.range.from_ ≤ p ∧ p ≤ slice.range.till) ∧
      (∀ b ∈ rest, slice.range.till < b.range.from_) ∧ WellFormed rest := by
  constructor
  · intro ⟨hapart, hinside⟩
    obtain ⟨hle, hlt, hrest⟩ := Spaced.cons_iff.mp hapart
    rw [List.forall_mem_cons] at hinside
    exact ⟨⟨hle, hinside.1⟩, hlt, hrest, hinside.2⟩
  · intro ⟨hone, hlt, hrest⟩
    exact ⟨Spaced.cons_iff.mpr ⟨hone.1, hlt, hrest.apart⟩,
      List.forall_mem_cons.mpr ⟨hone.2, hrest.inside⟩⟩

/-- A slice is replaced by one in the same range that stores no other positions. -/
theorem set (h : WellFormed slices) {i : Nat} (hi : slices[i]? = some slice) {slice' : Slice}
    (hfrom : slice'.range.from_ = slice.range.from_)
    (hle : slice'.range.from_ ≤ slice'.range.till) (htill : slice'.range.till ≤ slice.range.till)
    (hinside : ∀ p ∈ slice'.messages, slice'.range.from_ ≤ p ∧ p ≤ slice'.range.till) :
    WellFormed (slices.set i slice') := by
  induction slices generalizing i with
  | nil => simp at hi
  | cons first rest ih =>
      obtain ⟨hone, hlt, hrest⟩ := cons_iff.mp h
      cases i with
      | zero =>
          obtain rfl : first = slice := by simpa using hi
          exact cons_iff.mpr ⟨⟨hle, hinside⟩, fun b hb => htill.trans_lt (hlt b hb), hrest⟩
      | succ i =>
          rw [List.getElem?_cons_succ] at hi
          refine cons_iff.mpr ⟨hone, fun b hb => ?_, ih hrest hi⟩
          rcases List.mem_or_eq_of_mem_set hb with hb | rfl
          · exact hlt b hb
          · rw [hfrom]
            exact hlt slice (List.mem_of_getElem? hi)

end WellFormed

/-! ## Adding -/

/-- Positions and the range they are in. -/
def ValidAdd (messages : List MessagePosition) (r : MessagesRange) : Prop :=
  ∀ p ∈ messages, r.from_ ≤ p ∧ p ≤ r.till

/-- A slice that is joined with all the slices that it touches. -/
def joinAll (slice : Slice) (mid : List Slice) : Slice := mid.foldl Slice.join slice

theorem join_comm (a b : Slice) : a.join b = b.join a := by
  rw [Slice.join, Slice.join, Finset.union_comm, min_comm, max_comm]

theorem mem_joinAll {mid : List Slice} :
    p ∈ (joinAll slice mid).messages ↔ p ∈ slice.messages ∨ ∃ it ∈ mid, p ∈ it.messages := by
  induction mid generalizing slice with
  | nil => simp [joinAll]
  | cons it mid ih =>
      rw [show joinAll slice (it :: mid) = joinAll (slice.join it) mid from rfl, ih, Slice.join,
        Finset.mem_union, or_assoc]
      simp

/-- What has taken in a range goes on to be joined with what touches it. -/
theorem foldlM_merge {mid : List Slice} (hfrom : slice.range.from_ ≤ r.from_)
    (htill : r.till ≤ slice.range.till)
    (hmid : ∀ it ∈ mid, r.from_ ≤ it.range.till ∧ it.range.from_ ≤ r.till) :
    mid.foldlM Slice.merge slice = some (joinAll slice mid) := by
  induction mid generalizing slice with
  | nil => rfl
  | cons it mid ih =>
      obtain ⟨⟨h₁, h₂⟩, hmid⟩ := List.forall_mem_cons.mp hmid
      have hmerge : slice.merge it = some (slice.join it) :=
        if_pos ⟨h₂.trans htill, hfrom.trans h₁⟩
      rw [List.foldlM_cons, hmerge]
      exact ih ((min_le_left _ _).trans hfrom) (htill.trans (le_max_left _ _)) hmid

section Added

variable {before mid after : List Slice}

theorem lt_from_joinAll : p < (joinAll slice mid).range.from_ ↔
    p < slice.range.from_ ∧ ∀ it ∈ mid, p < it.range.from_ :=
  lt_lo_foldl (fun slice : Slice => slice.range.from_) fun _ _ => rfl

theorem till_joinAll_lt : (joinAll slice mid).range.till < p ↔
    slice.range.till < p ∧ ∀ it ∈ mid, it.range.till < p :=
  hi_foldl_lt (fun slice : Slice => slice.range.till) fun _ _ => rfl

/-- What the new positions are joined with keeps its positions inside. -/
theorem inside_joinAll (hv : ValidAdd messages r)
    (hmid : ∀ it ∈ mid, ∀ p ∈ it.messages, it.range.from_ ≤ p ∧ p ≤ it.range.till)
    (hp : p ∈ (joinAll ⟨messages.toFinset, r⟩ mid).messages) :
    (joinAll ⟨messages.toFinset, r⟩ mid).range.from_ ≤ p ∧
      p ≤ (joinAll ⟨messages.toFinset, r⟩ mid).range.till := by
  rw [← not_lt, ← not_lt, lt_from_joinAll, till_joinAll_lt]
  rcases mem_joinAll.mp hp with hp | ⟨it, hit, hp⟩
  · obtain ⟨hfrom, htill⟩ := hv p (List.mem_toFinset.mp hp)
    exact ⟨fun h => not_lt_of_ge hfrom h.1, fun h => not_lt_of_ge htill h.1⟩
  · obtain ⟨hfrom, htill⟩ := hmid it hit p hp
    exact ⟨fun h => not_lt_of_ge hfrom (h.2 it hit), fun h => not_lt_of_ge htill (h.2 it hit)⟩

theorem from_le_till_joinAll (hle : r.from_ ≤ r.till) :
    (joinAll ⟨messages.toFinset, r⟩ mid).range.from_ ≤
      (joinAll ⟨messages.toFinset, r⟩ mid).range.till := by
  have hfrom : (joinAll ⟨messages.toFinset, r⟩ mid).range.from_ ≤ r.from_ :=
    not_lt.mp fun h => lt_irrefl _ (lt_from_joinAll.mp h).1
  have htill : r.till ≤ (joinAll ⟨messages.toFinset, r⟩ mid).range.till :=
    not_lt.mp fun h => lt_irrefl _ (till_joinAll_lt.mp h).1
  exact hfrom.trans (hle.trans htill)

theorem emplace_between (hbefore : ∀ s ∈ before, s.range.from_ < slice.range.from_)
    (hafter : ∀ s ∈ after, slice.range.from_ < s.range.from_) :
    emplace (before ++ after) slice = (before ++ slice :: after, slice) := by
  have hi : lowerBound (·.range.from_) slice.range.from_ (before ++ after) = before.length := by
    rw [lowerBound, takeWhile_append_of_all]
    · intro s hs
      simpa using hbefore s hs
    · intro s hs
      simpa using (hafter s (List.mem_of_mem_head? hs)).le
  unfold emplace
  rw [hi]
  simp only [List.take_left, List.drop_left]
  rw [List.getElem?_append_right (Nat.le_refl _), Nat.sub_self]
  cases after with
  | nil => rfl
  | cons s after => exact if_pos (hafter s List.mem_cons_self)

theorem uniteAndAdd_touched {first : Slice} (more : Slice)
    (hmid : ∀ it ∈ first :: mid,
      more.range.from_ ≤ it.range.till ∧ it.range.from_ ≤ more.range.till) :
    (uniteAndAdd (before ++ (first :: mid ++ after)) before.length
        (before.length + (mid.length + 1)) more).map (·.1) =
      some (before ++ joinAll more (first :: mid) :: after) := by
  obtain ⟨⟨h₁, h₂⟩, hmid⟩ := List.forall_mem_cons.mp hmid
  have hfirst : first.merge more = some (more.join first) :=
    join_comm first more ▸ if_pos ⟨h₁, h₂⟩
  have hrest : ((before ++ (first :: mid ++ after)).take (before.length + (mid.length + 1))).drop
      (before.length + 1) = mid := by
    rw [List.take_length_add_append, ← List.drop_drop, List.drop_left]
    simp
  have hdrop : (before ++ (first :: mid ++ after)).drop (before.length + (mid.length + 1)) =
      after := by
    rw [← List.drop_drop, List.drop_left]
    simp
  have hmerge : mid.foldlM Slice.merge (more.join first) = some (joinAll (more.join first) mid) :=
    foldlM_merge (min_le_left _ _) (le_max_left _ _) hmid
  unfold uniteAndAdd
  rw [hrest, hdrop, List.take_left, List.getElem?_append_right (Nat.le_refl _), Nat.sub_self]
  simp only [List.cons_append, List.getElem?_cons_zero, Option.bind_eq_bind, Option.bind_some,
    hfirst, hmerge]
  rfl

/-- **Adding** joins what the range touches with the new positions. -/
theorem addItems_spec (messages : List MessagePosition) (h : WellFormed slices)
    (hr : r.from_ ≤ r.till) :
    ∃ before mid after,
      Touched (·.range.from_) (·.range.till) r.from_ r.till slices before mid after ∧
      (addRangeItemsAndCountNew slices messages r).map (·.1) =
        some (before ++ joinAll ⟨messages.toFinset, r⟩ mid :: after) := by
  have hsplit := h.apart.split r.from_ r.till
  have hlower := hsplit.lowerBound h.apart.le hr
  have hupper := hsplit.upperBound h.apart.le hr
  revert hsplit hlower hupper
  generalize slices.takeWhile (fun a => decide (a.range.till < r.from_)) = before
  generalize slices.dropWhile (fun a => decide (a.range.till < r.from_)) = rest
  generalize rest.takeWhile (fun a => decide (a.range.from_ ≤ r.till)) = mid
  generalize rest.dropWhile (fun a => decide (a.range.from_ ≤ r.till)) = after
  intro hsplit hlower hupper
  refine ⟨before, mid, after, hsplit, ?_⟩
  unfold addRangeItemsAndCountNew
  rw [if_pos hr]
  simp only [hlower, hupper]
  have heq := hsplit.eq
  cases mid with
  | nil =>
      rw [List.length_nil, Nat.add_zero, if_neg (Nat.lt_irrefl _), heq, List.nil_append,
        emplace_between]
      · rfl
      · intro s hs
        exact (h.apart.le s (heq ▸ List.mem_append_left _ hs)).trans_lt (hsplit.before s hs)
      · intro s hs
        exact hr.trans_lt (hsplit.after s hs)
  | cons first mid =>
      rw [List.length_cons, if_pos (by omega), heq]
      exact uniteAndAdd_touched ⟨messages.toFinset, r⟩ hsplit.mid

theorem wellFormed_add (h : WellFormed slices) (hr : r.from_ ≤ r.till) (hv : ValidAdd messages r)
    {added : List Slice} (hadd : (addRangeItemsAndCountNew slices messages r).map (·.1) = some added) :
    WellFormed added := by
  obtain ⟨before, mid, after, htouched, heq⟩ := addItems_spec messages h hr
  obtain rfl := Option.some.inj (heq.symm.trans hadd)
  have hmem : ∀ slice ∈ before ++ (mid ++ after), slice ∈ slices := fun slice hslice => by
    rw [htouched.eq]
    exact hslice
  have hmid : ∀ it ∈ mid, ∀ p ∈ it.messages, it.range.from_ ≤ p ∧ p ≤ it.range.till := fun it hit =>
    h.inside it (hmem it (by simp [hit]))
  refine ⟨htouched.spaced h.apart (from_le_till_joinAll hr) (fun k hk hall => ?_)
    (fun k hk hall => ?_), fun slice hslice p hp => ?_⟩
  · exact lt_from_joinAll.mpr ⟨hk, hall⟩
  · exact till_joinAll_lt.mpr ⟨hk, hall⟩
  · rcases List.mem_append.mp hslice with hb | hslice
    · exact h.inside slice (hmem slice (by simp [hb])) p hp
    · rcases List.mem_cons.mp hslice with rfl | ha
      · exact inside_joinAll hv hmid hp
      · exact h.inside slice (hmem slice (by simp [ha])) p hp

end Added

/-! ## The operations -/

theorem wellFormed_addRange (h : WellFormed s.slices) (hv : r.from_ ≤ r.till → ValidAdd messages r)
    {count : Option Int} {incrementCount : Bool} {update : MessagesSliceUpdate}
    (hadd : s.addRange messages r count incrementCount = some (s', update)) :
    WellFormed s'.slices := by
  unfold addRange at hadd
  split at hadd
  · cases hadd
  · obtain ⟨added, hadded, hsome⟩ := Option.bind_eq_some_iff.mp hadd
    obtain ⟨rfl, -⟩ := Prod.mk.inj (Option.some.inj hsome)
    have hr : r.from_ ≤ r.till := by
      unfold addRangeItemsAndCountNew at hadded
      split at hadded
      · assumption
      · cases hadded
    exact wellFormed_add h hr (hv hr) (by rw [hadded]; rfl)

theorem wellFormed_removeOne (h : WellFormed s.slices) : WellFormed (s.removeOne p).1.slices := by
  unfold removeOne
  dsimp only
  split
  · exact h
  · next slice hslice =>
      split
      · have hmem := List.mem_of_getElem? hslice
        exact h.set hslice rfl (h.apart.le slice hmem) le_rfl fun q hq =>
          h.inside slice hmem q (Finset.mem_of_mem_erase hq)
      · exact h

theorem Slice.bottom_spec (hle : slice.range.from_ ≤ slice.range.till)
    (hinside : ∀ p ∈ slice.messages, slice.range.from_ ≤ p ∧ p ≤ slice.range.till) :
    (slice.range.from_ ≤ slice.bottom ∧ slice.bottom ≤ slice.range.till) ∧
      ∀ p ∈ slice.messages, p ≤ slice.bottom := by
  unfold Slice.bottom
  split
  · next hne =>
      exact ⟨hinside _ (Finset.max'_mem _ hne), fun p hp => Finset.le_max' _ p hp⟩
  · next hne =>
      rw [Finset.not_nonempty_iff_eq_empty] at hne
      exact ⟨⟨le_rfl, hle⟩, by simp [hne]⟩

theorem wellFormed_invalidateBottom (h : WellFormed s.slices) :
    WellFormed s.invalidateBottom.slices := by
  unfold invalidateBottom
  dsimp only
  split
  · exact h
  · next last hlast =>
      split
      · obtain ⟨before, heq⟩ := List.getLast?_eq_some_iff.mp hlast
        have hmem : last ∈ s.slices := by simp [heq]
        have hbottom := Slice.bottom_spec (h.apart.le last hmem) (h.inside last hmem)
        have hset : s.slices.set before.length
            { last with range := ⟨last.range.from_, last.bottom⟩ } =
            s.slices.dropLast ++ [{ last with range := ⟨last.range.from_, last.bottom⟩ }] := by
          rw [heq, List.set_append_right _ _ (Nat.le_refl _), Nat.sub_self, List.dropLast_concat]
          rfl
        rw [← hset]
        have hlast : s.slices[before.length]? = some last := by simp [heq]
        refine h.set hlast rfl hbottom.1.1 hbottom.1.2 fun p hp => ?_
        exact ⟨(h.inside last hmem p hp).1, hbottom.2 p hp⟩
      · exact h

/-! ## removeLessThan -/

/-- What is left of the slice around the position is not before the first position of all. -/
def CutsInside (slices : List Slice) (m : MessagePosition) : Prop :=
  ∀ slice ∈ slices, slice.range.from_ ≤ m → m < slice.range.till →
    minMessagePosition ≤ slice.range.till ∧
      ∀ p ∈ slice.messages, m ≤ p → minMessagePosition ≤ p

theorem removeLoop_acc (removed : Int) :
    removeLoop m slices removed =
      ((removeLoop m slices 0).1, removed + (removeLoop m slices 0).2) := by
  induction slices generalizing removed with
  | nil => simp [removeLoop]
  | cons slice rest ih =>
      unfold removeLoop
      split
      · rw [ih, ih (0 + _)]
        simp [Int.add_assoc]
      · split <;> simp

/-- The slices in order and apart are kept exactly where the cut is inside. -/
theorem wellFormed_removeLoop_iff (h : WellFormed slices) :
    WellFormed (removeLoop m slices 0).1 ↔ CutsInside slices m := by
  induction slices with
  | nil => simp [removeLoop, WellFormed.nil, CutsInside]
  | cons slice rest ih =>
      obtain ⟨⟨hle, hinside⟩, hlt, hrest⟩ := WellFormed.cons_iff.mp h
      unfold CutsInside at ih ⊢
      rw [removeLoop, List.forall_mem_cons]
      split
      · next htill =>
          rw [removeLoop_acc, ih hrest]
          exact (and_iff_right fun _ hm => absurd hm (not_lt_of_ge htill)).symm
      · next htill =>
          rw [not_le] at htill
          have hlater : ∀ it ∈ rest, it.range.from_ ≤ m → m < it.range.till →
              minMessagePosition ≤ it.range.till ∧
                ∀ p ∈ it.messages, m ≤ p → minMessagePosition ≤ p := fun it hit hfrom _ =>
            absurd hfrom (not_le_of_gt (htill.trans (hlt it hit)))
          rw [and_iff_left hlater]
          split
          · next hfrom =>
              rw [WellFormed.cons_iff, and_iff_left (show _ ∧ _ from ⟨hlt, hrest⟩)]
              constructor
              · intro ⟨hmin, hcut⟩ _ _
                exact ⟨hmin, fun p hp hmp => (hcut p (Finset.mem_filter.mpr ⟨hp, hmp⟩)).1⟩
              · intro hcut
                obtain ⟨hmin, hcut⟩ := hcut hfrom htill
                refine ⟨hmin, fun p hp => ?_⟩
                obtain ⟨hp, hmp⟩ := Finset.mem_filter.mp hp
                exact ⟨hcut p hp hmp, (hinside p hp).2⟩
          · next hfrom =>
              exact iff_of_true h fun hm => absurd hm hfrom

/-- What the operations of a run meet: positions are added in their range, and what is cut stays
inside. -/
def Meets (s : MessagesList) : Operation → Prop
  | .addSlice messageIds noSkipRange _ => ValidAdd messageIds noSkipRange
  | .removeLessThan messageId => CutsInside s.slices messageId
  | _ => True

theorem WellFormed.step {op : Operation} {update : Option MessagesSliceUpdate}
    (h : WellFormed s.slices) (hmeets : Meets s op) (hstep : s.perform op = some (s', update)) :
    WellFormed s'.slices := by
  cases op with
  | addOne messageId =>
      obtain ⟨⟨added, _⟩, hadd, heq⟩ := Option.map_eq_some_iff.mp hstep
      obtain ⟨rfl, -⟩ := Prod.mk.inj heq
      exact wellFormed_addRange h (fun _ => by simp [ValidAdd]) hadd
  | addNew messageId =>
      obtain ⟨⟨added, _⟩, hadd, heq⟩ := Option.map_eq_some_iff.mp hstep
      obtain ⟨rfl, -⟩ := Prod.mk.inj heq
      exact wellFormed_addRange h (fun hle => by simpa [ValidAdd] using hle) hadd
  | addSlice messageIds noSkipRange count =>
      obtain ⟨⟨added, _⟩, hadd, heq⟩ := Option.map_eq_some_iff.mp hstep
      obtain ⟨rfl, -⟩ := Prod.mk.inj heq
      exact wellFormed_addRange h (fun _ => hmeets) hadd
  | removeOne messageId =>
      obtain rfl := congrArg Prod.fst (Option.some.inj hstep)
      exact wellFormed_removeOne h
  | removeLessThan messageId =>
      obtain rfl := congrArg Prod.fst (Option.some.inj hstep)
      exact (wellFormed_removeLoop_iff h).mpr hmeets
  | invalidate =>
      obtain rfl := congrArg Prod.fst (Option.some.inj hstep)
      exact WellFormed.nil
  | invalidateBottom =>
      obtain rfl := congrArg Prod.fst (Option.some.inj hstep)
      exact wellFormed_invalidateBottom h

/-- One message on a date. -/
def dated (date : Int) : MessagePosition := { fullId := { peer := { value := 7 }, msg := 5 }, date }

/-- The list after `addOne`. -/
def one : MessagesList := { slices := [⟨{dated 20}, ⟨dated 20, dated 20⟩⟩] }

end MessagesList

end Data

end MessengerClient
