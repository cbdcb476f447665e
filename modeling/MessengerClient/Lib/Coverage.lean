import Mathlib

/-!
# MessengerClient.Lib.Coverage

Counting half-open integer ranges `(lo, hi]`.  Someone who receives disjoint
ranges one by one can remember just two numbers, the largest upper end and the
sum of the lengths; `covered_eq_Ioc_iff` says that the two numbers agree exactly
when the received ranges leave no hole.
-/

namespace MessengerClient

/-- The half-open range `(lo, hi]`. -/
structure Range where
  lo : Int
  hi : Int
deriving DecidableEq, Repr

namespace Range

/-- The integers of a range, `Finset.Ioc r.lo r.hi` by its computable instance. -/
def span (r : Range) : Finset Int := Int.instLocallyFiniteOrder.finsetIoc r.lo r.hi

/-- Number of integers of a range with `lo ≤ hi`. -/
def len (r : Range) : Int := r.hi - r.lo

@[simp] theorem mem_span {r : Range} {p : Int} : p ∈ r.span ↔ r.lo < p ∧ p ≤ r.hi :=
  Finset.mem_Ioc

theorem card_span {r : Range} (h : r.lo ≤ r.hi) : (r.span.card : Int) = r.len := by
  rw [show r.span = Finset.Ioc r.lo r.hi from rfl, Int.card_Ioc, len]
  omega

theorem disjoint_span_iff {r s : Range} (hr : r.lo < r.hi) (hs : s.lo < s.hi) :
    Disjoint r.span s.span ↔ r.hi ≤ s.lo ∨ s.hi ≤ r.lo := by
  rw [Finset.disjoint_left]
  constructor
  · intro h
    by_contra hc
    have hmem : min r.hi s.hi ∈ r.span := by simp; omega
    exact h hmem (by simp; omega)
  · intro h p hp hq
    simp only [mem_span] at hp hq
    omega

end Range

/-- The integers met by a list of ranges. -/
def covered : List Range → Finset Int
  | [] => ∅
  | r :: rs => r.span ∪ covered rs

/-- The sum of the lengths. -/
def total (rs : List Range) : Int := (rs.map Range.len).sum

/-- The largest of `a` and the upper ends. -/
def top (a : Int) (rs : List Range) : Int := rs.foldl (fun m r => max m r.hi) a

/-- No two ranges of the list meet. -/
def Apart (rs : List Range) : Prop := rs.Pairwise fun r s => Disjoint r.span s.span

/-- The ranges of the list cut `(a, b]` into pieces. -/
structure Tiles (rs : List Range) (a b : Int) : Prop where
  le : a ≤ b
  proper : ∀ r ∈ rs, r.lo < r.hi
  apart : Apart rs
  cover : covered rs = Finset.Ioc a b

theorem mem_covered {rs : List Range} {p : Int} : p ∈ covered rs ↔ ∃ r ∈ rs, p ∈ r.span := by
  induction rs with
  | nil => simp [covered]
  | cons r rs ih => simp [covered, ih]

theorem mem_covered_append {rs ss : List Range} {p : Int} :
    p ∈ covered (rs ++ ss) ↔ p ∈ covered rs ∨ p ∈ covered ss := by
  simp only [mem_covered, List.mem_append, or_and_right, exists_or]

/-- A range that starts where an interval ends extends it. -/
theorem covered_append_next {rs : List Range} {r : Range} {a : Int}
    (h : covered rs = Finset.Ioc a r.lo) (ha : a ≤ r.lo) (hr : r.lo ≤ r.hi) :
    covered (rs ++ [r]) = Finset.Ioc a r.hi := by
  ext p
  rw [mem_covered_append, h]
  simp only [covered, Finset.union_empty, Range.mem_span, Finset.mem_Ioc]
  omega

theorem total_append (rs ss : List Range) : total (rs ++ ss) = total rs + total ss := by
  simp [total]

theorem top_append_singleton (a : Int) (rs : List Range) (r : Range) :
    top a (rs ++ [r]) = max (top a rs) r.hi := by
  simp [top]

theorem apart_append_singleton {rs : List Range} {r : Range} :
    Apart (rs ++ [r]) ↔ Apart rs ∧ ∀ s ∈ rs, Disjoint s.span r.span := by
  simp [Apart, List.pairwise_append]

theorem le_top (a : Int) (rs : List Range) : a ≤ top a rs := by
  induction rs using List.reverseRecOn with
  | nil => exact le_refl a
  | append_singleton rs r ih => rw [top_append_singleton]; exact le_max_of_le_left ih

theorem hi_le_top {a : Int} {rs : List Range} {r : Range} (h : r ∈ rs) : r.hi ≤ top a rs := by
  induction rs using List.reverseRecOn with
  | nil => simp at h
  | append_singleton rs s ih =>
      rw [top_append_singleton]
      cases List.mem_append.mp h with
      | inl hm => exact le_max_of_le_left (ih hm)
      | inr hm => exact le_max_of_le_right (le_of_eq (List.mem_singleton.mp hm ▸ rfl))

theorem top_le {a b : Int} {rs : List Range} (ha : a ≤ b) (h : ∀ r ∈ rs, r.hi ≤ b) :
    top a rs ≤ b := by
  induction rs using List.reverseRecOn with
  | nil => exact ha
  | append_singleton rs r ih =>
      rw [top_append_singleton]
      exact max_le (ih fun s hs => h s (List.mem_append_left _ hs)) (h r (by simp))

/-- Disjoint ranges cover as many integers as their lengths add up to. -/
theorem card_covered {rs : List Range} (hp : ∀ r ∈ rs, r.lo ≤ r.hi) (hd : Apart rs) :
    ((covered rs).card : Int) = total rs := by
  induction rs with
  | nil => rfl
  | cons r rs ih =>
      obtain ⟨hhead, htail⟩ := List.pairwise_cons.mp hd
      have hdis : Disjoint r.span (covered rs) := by
        rw [Finset.disjoint_left]
        intro p hr hrs
        obtain ⟨s, hs, hps⟩ := mem_covered.mp hrs
        exact Finset.disjoint_left.mp (hhead s hs) hr hps
      have ihr := ih (fun s hs => hp s (List.mem_cons_of_mem r hs)) htail
      rw [covered, Finset.card_union_of_disjoint hdis, Nat.cast_add, ihr,
        Range.card_span (hp r List.mem_cons_self)]
      simp [total]

theorem covered_subset_Ioc {a : Int} {rs : List Range} (ha : ∀ r ∈ rs, a ≤ r.lo) :
    covered rs ⊆ Finset.Ioc a (top a rs) := by
  intro p hp
  obtain ⟨r, hr, hpr⟩ := mem_covered.mp hp
  have hlo := ha r hr
  have hhi := hi_le_top (a := a) hr
  simp only [Range.mem_span] at hpr
  rw [Finset.mem_Ioc]
  omega

/-- **No hole exactly when the two numbers agree**: disjoint ranges above `a`
cover `(a, top]` if and only if their lengths add up to `top - a`. -/
theorem covered_eq_Ioc_iff {a : Int} {rs : List Range} (hp : ∀ r ∈ rs, r.lo ≤ r.hi)
    (hd : Apart rs) (ha : ∀ r ∈ rs, a ≤ r.lo) :
    covered rs = Finset.Ioc a (top a rs) ↔ top a rs = a + total rs := by
  have hcard := card_covered hp hd
  have htop := le_top a rs
  have hIoc : ((Finset.Ioc a (top a rs)).card : Int) = top a rs - a := by
    rw [Int.card_Ioc]; omega
  constructor
  · intro h
    rw [h, hIoc] at hcard
    omega
  · intro h
    refine Finset.eq_of_subset_of_card_le (covered_subset_Ioc ha) ?_
    omega

/-- The sum never overtakes the largest end. -/
theorem total_le_top {a : Int} {rs : List Range} (hp : ∀ r ∈ rs, r.lo ≤ r.hi)
    (hd : Apart rs) (ha : ∀ r ∈ rs, a ≤ r.lo) : a + total rs ≤ top a rs := by
  have hcard := card_covered hp hd
  have hle := Finset.card_le_card (covered_subset_Ioc ha)
  have htop := le_top a rs
  rw [Int.card_Ioc] at hle
  omega

/-- Of values carrying ranges that do not meet, an integer picks at most one. -/
theorem Apart.eq_of_mem {α : Type*} {f : α → Range} {us : List α} (h : Apart (us.map f))
    {x y : α} (hx : x ∈ us) (hy : y ∈ us) {p : Int} (hpx : p ∈ (f x).span)
    (hpy : p ∈ (f y).span) : x = y := by
  have : Std.Symm fun a b => Disjoint (f a).span (f b).span := ⟨fun _ _ h => h.symm⟩
  by_contra hne
  have hdis := (List.pairwise_map.mp h).forall hx hy hne
  exact Finset.disjoint_left.mp hdis hpx hpy

namespace Tiles

variable {rs : List Range} {a b : Int}

theorem bounds (h : Tiles rs a b) {r : Range} (hr : r ∈ rs) : a ≤ r.lo ∧ r.hi ≤ b := by
  have hp := h.proper r hr
  have hlow : r.lo + 1 ∈ covered rs := mem_covered.mpr ⟨r, hr, by simp; omega⟩
  have hhigh : r.hi ∈ covered rs := mem_covered.mpr ⟨r, hr, by simp; omega⟩
  rw [h.cover, Finset.mem_Ioc] at hlow hhigh
  omega

theorem top_eq (h : Tiles rs a b) : top a rs = b := by
  refine le_antisymm (top_le h.le fun r hr => (h.bounds hr).2) ?_
  rcases h.le.eq_or_lt with heq | hlt
  · exact heq ▸ le_top a rs
  · have hb : b ∈ covered rs := by rw [h.cover, Finset.mem_Ioc]; omega
    obtain ⟨r, hr, hbr⟩ := mem_covered.mp hb
    exact ((Range.mem_span.mp hbr).2).trans (hi_le_top hr)

theorem total_eq (h : Tiles rs a b) : a + total rs = b := by
  have hiff := covered_eq_Ioc_iff (a := a) (fun r hr => (h.proper r hr).le) h.apart
    (fun r hr => (h.bounds hr).1)
  rw [h.top_eq] at hiff
  exact (hiff.mp h.cover).symm

end Tiles

end MessengerClient
