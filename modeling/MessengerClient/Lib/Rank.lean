import Mathlib.Data.Finset.Max
import Mathlib.Data.Finset.Card
import Mathlib.Algebra.Order.Ring.Int
import Mathlib.Order.Interval.Finset.Nat

/-!
# MessengerClient.Lib.Rank

Positions in a finite set that is kept in order: the rank of a value is the number of
elements below it, which is where a binary search finds it, and `between s i j` are the
elements at the positions from `i` up to `j`.
-/

namespace MessengerClient

variable {α : Type*} [LinearOrder α]

/-- The position of the first element that is not below `a`. -/
def rank (s : Finset α) (a : α) : Nat := (s.filter (· < a)).card

/-- The number of the elements above `a`. -/
def above (s : Finset α) (a : α) : Nat := (s.filter (a < ·)).card

/-- The elements at the positions from `i` up to `j`. -/
def between (s : Finset α) (i j : Nat) : Finset α := s.filter fun a => i ≤ rank s a ∧ rank s a < j

/-- The set without its first `n` elements. -/
def dropFront (s : Finset α) (n : Nat) : Finset α := between s n s.card

/-- The set without its last `n` elements. -/
def dropBack (s : Finset α) (n : Nat) : Finset α := between s 0 (s.card - n)

variable {s : Finset α} {a b : α}

theorem rank_le_card : rank s a ≤ s.card := Finset.card_filter_le _ _

theorem rank_mono (h : a ≤ b) : rank s a ≤ rank s b :=
  Finset.card_le_card fun _ hc => by
    rw [Finset.mem_filter] at hc ⊢
    exact ⟨hc.1, hc.2.trans_le h⟩

theorem rank_lt_rank (ha : a ∈ s) (h : a < b) : rank s a < rank s b := by
  have hsub : s.filter (· < a) ⊆ s.filter (· < b) := fun c hc => by
    rw [Finset.mem_filter] at hc ⊢
    exact ⟨hc.1, hc.2.trans h⟩
  have hmem : a ∈ s.filter (· < b) := Finset.mem_filter.mpr ⟨ha, h⟩
  have hnot : a ∉ s.filter (· < a) := by simp
  exact Finset.card_lt_card ((Finset.ssubset_iff_of_subset hsub).mpr ⟨a, hmem, hnot⟩)

theorem rank_lt_card (ha : a ∈ s) : rank s a < s.card :=
  Finset.card_lt_card ((Finset.filter_ssubset).mpr ⟨a, ha, lt_irrefl a⟩)

/-- An element stands between the ones below it and the ones above it. -/
theorem rank_add_above (ha : a ∈ s) : rank s a + above s a + 1 = s.card := by
  have hle := Finset.card_filter_add_card_filter_not (s := s) (· < a)
  have hnot : s.filter (fun b => ¬ b < a) = insert a (s.filter (a < ·)) := by
    ext b
    rw [Finset.mem_insert, Finset.mem_filter, Finset.mem_filter, not_lt, le_iff_eq_or_lt]
    constructor
    · rintro ⟨hb, rfl | h⟩
      · exact Or.inl rfl
      · exact Or.inr ⟨hb, h⟩
    · rintro (rfl | ⟨hb, h⟩)
      · exact ⟨ha, Or.inl rfl⟩
      · exact ⟨hb, Or.inr h⟩
  rw [hnot, Finset.card_insert_of_notMem (by simp)] at hle
  rw [rank, above]
  omega

/-- Elements that are not below do not count. -/
theorem rank_union_of_le {t : Finset α} (h : ∀ b ∈ s, a ≤ b) : rank (s ∪ t) a = rank t a := by
  have hs : s.filter (· < a) = ∅ := Finset.filter_eq_empty_iff.mpr fun b hb => (h b hb).not_gt
  rw [rank, Finset.filter_union, hs, Finset.empty_union, rank]

theorem above_union_of_le {t : Finset α} (h : ∀ b ∈ s, b ≤ a) : above (s ∪ t) a = above t a := by
  have hs : s.filter (a < ·) = ∅ := Finset.filter_eq_empty_iff.mpr fun b hb => (h b hb).not_gt
  rw [above, Finset.filter_union, hs, Finset.empty_union, above]

theorem rank_injOn : Set.InjOn (rank s) s := by
  intro a ha b hb h
  rcases lt_trichotomy a b with hab | hab | hab
  · exact absurd h (rank_lt_rank ha hab).ne
  · exact hab
  · exact absurd h (rank_lt_rank hb hab).ne'

/-- Every position holds an element. -/
theorem image_rank : s.image (rank s) = Finset.range s.card := by
  refine Finset.eq_of_subset_of_card_le (fun n hn => ?_) ?_
  · obtain ⟨a, ha, rfl⟩ := Finset.mem_image.mp hn
    exact Finset.mem_range.mpr (rank_lt_card ha)
  · rw [Finset.card_range, Finset.card_image_of_injOn rank_injOn]

theorem between_subset (i j : Nat) : between s i j ⊆ s := Finset.filter_subset _ _

@[simp] theorem card_between (i j : Nat) : (between s i j).card = min j s.card - i := by
  have himage : (between s i j).image (rank s) = Finset.Ico i (min j s.card) := by
    ext n
    rw [Finset.mem_Ico, Finset.mem_image]
    constructor
    · rintro ⟨a, ha, rfl⟩
      obtain ⟨has, hi, hj⟩ := Finset.mem_filter.mp ha
      exact ⟨hi, lt_min hj (rank_lt_card has)⟩
    · rintro ⟨hi, hj⟩
      rw [lt_min_iff] at hj
      have hn : n ∈ s.image (rank s) := by
        rw [image_rank]
        exact Finset.mem_range.mpr hj.2
      obtain ⟨a, ha, rfl⟩ := Finset.mem_image.mp hn
      exact ⟨a, Finset.mem_filter.mpr ⟨ha, hi, hj.1⟩, rfl⟩
  have hcard := congrArg Finset.card himage
  rwa [Finset.card_image_of_injOn (rank_injOn.mono (between_subset i j)), Nat.card_Ico] at hcard

@[simp] theorem card_dropFront (n : Nat) : (dropFront s n).card = s.card - n := by
  rw [dropFront, card_between, min_self]

@[simp] theorem card_dropBack (n : Nat) : (dropBack s n).card = s.card - n := by
  rw [dropBack, card_between]
  omega

theorem dropFront_subset (n : Nat) : dropFront s n ⊆ s := between_subset n s.card

theorem dropBack_subset (n : Nat) : dropBack s n ⊆ s := between_subset 0 (s.card - n)

end MessengerClient
