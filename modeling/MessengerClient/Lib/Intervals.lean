import Mathlib.Order.Lattice
import Mathlib.Order.Interval.Set.Defs
import Mathlib.Data.List.Sort
import Mathlib.Algebra.Order.Ring.Int

/-!
# MessengerClient.Lib.Intervals

Lists of half-open intervals: the points that a list covers, and the one list that covers them
with intervals that are not empty, stand in order and do not touch.
-/

namespace MessengerClient

variable {α K : Type*} [LinearOrder K] {lo hi : α → K} {l l' l₁ l₂ : List α} {a b : α} {s t : K}

/-- Some interval of the list holds the point. -/
def Covers (lo hi : α → K) (l : List α) (t : K) : Prop := ∃ a ∈ l, lo a ≤ t ∧ t < hi a

@[simp] theorem covers_nil : ¬Covers lo hi [] t := by
  simp [Covers]

@[simp] theorem covers_cons :
    Covers lo hi (a :: l) t ↔ (lo a ≤ t ∧ t < hi a) ∨ Covers lo hi l t := by
  simp [Covers]

@[simp] theorem covers_append :
    Covers lo hi (l₁ ++ l₂) t ↔ Covers lo hi l₁ t ∨ Covers lo hi l₂ t := by
  simp [Covers, or_and_right, exists_or]

theorem covers_flatMap {β : Type*} {f : β → List α} {m : List β} :
    Covers lo hi (m.flatMap f) t ↔ ∃ b ∈ m, Covers lo hi (f b) t := by
  constructor
  · rintro ⟨a, ha, hat⟩
    obtain ⟨b, hb, hab⟩ := List.mem_flatMap.mp ha
    exact ⟨b, hb, a, hab, hat⟩
  · rintro ⟨b, hb, a, hab, hat⟩
    exact ⟨a, List.mem_flatMap.mpr ⟨b, hb, hab⟩, hat⟩

theorem covers_reverse : Covers lo hi l.reverse t ↔ Covers lo hi l t := by
  simp [Covers]

theorem covers_perm (h : l.Perm l') : Covers lo hi l t ↔ Covers lo hi l' t := by
  simp only [Covers, h.mem_iff]

/-! ## Canonical lists -/

/-- No interval is empty, and each ends before the next one starts. -/
structure Canonical (lo hi : α → K) (l : List α) : Prop where
  lt : ∀ a ∈ l, lo a < hi a
  apart : l.Pairwise fun a b => hi a < lo b

theorem canonical_nil : Canonical lo hi [] := ⟨by simp, List.Pairwise.nil⟩

theorem canonical_cons :
    Canonical lo hi (a :: l) ↔ lo a < hi a ∧ (∀ b ∈ l, hi a < lo b) ∧ Canonical lo hi l := by
  constructor
  · intro h
    obtain ⟨hfirst, hrest⟩ := List.pairwise_cons.mp h.apart
    exact ⟨h.lt a List.mem_cons_self, hfirst, fun b hb => h.lt b (List.mem_cons_of_mem a hb), hrest⟩
  · intro ⟨ha, hfirst, hrest⟩
    exact ⟨List.forall_mem_cons.mpr ⟨ha, hrest.lt⟩, List.pairwise_cons.mpr ⟨hfirst, hrest.apart⟩⟩

theorem canonical_append :
    Canonical lo hi (l₁ ++ l₂) ↔
      Canonical lo hi l₁ ∧ Canonical lo hi l₂ ∧ ∀ a ∈ l₁, ∀ b ∈ l₂, hi a < lo b := by
  constructor
  · intro h
    obtain ⟨h₁, h₂, hacross⟩ := List.pairwise_append.mp h.apart
    exact ⟨⟨fun a ha => h.lt a (List.mem_append_left _ ha), h₁⟩,
      ⟨fun a ha => h.lt a (List.mem_append_right _ ha), h₂⟩, hacross⟩
  · intro ⟨h₁, h₂, hacross⟩
    exact ⟨List.forall_mem_append.mpr ⟨h₁.lt, h₂.lt⟩,
      List.pairwise_append.mpr ⟨h₁.apart, h₂.apart, hacross⟩⟩

namespace Canonical

theorem filter (h : Canonical lo hi l) (p : α → Bool) : Canonical lo hi (l.filter p) :=
  ⟨fun a ha => h.lt a (List.mem_filter.mp ha).1, h.apart.filter p⟩

/-- Two intervals of the list are the same or apart. -/
theorem apart_or (h : Canonical lo hi l) (ha : a ∈ l) (hb : b ∈ l) :
    a = b ∨ hi a < lo b ∨ hi b < lo a := by
  induction l with
  | nil => cases ha
  | cons c l ih =>
      obtain ⟨-, hfirst, hrest⟩ := canonical_cons.mp h
      rcases List.mem_cons.mp ha with hac | hal
      · rcases List.mem_cons.mp hb with hbc | hbl
        · exact .inl (hac.trans hbc.symm)
        · exact .inr (.inl (hac ▸ hfirst b hbl))
      · rcases List.mem_cons.mp hb with hbc | hbl
        · exact .inr (.inr (hbc ▸ hfirst a hal))
        · exact ih hrest hal hbl

theorem eq_of_mem (h : Canonical lo hi l) (ha : a ∈ l) (hb : b ∈ l) (hat : lo a ≤ t ∧ t < hi a)
    (hbt : lo b ≤ t ∧ t < hi b) : a = b := by
  rcases h.apart_or ha hb with heq | hlt | hlt
  · exact heq
  · exact absurd (hat.2.trans hlt) (not_lt_of_ge hbt.1)
  · exact absurd (hbt.2.trans hlt) (not_lt_of_ge hat.1)

/-- The end of an interval is not covered. -/
theorem not_covers_hi (h : Canonical lo hi l) (ha : a ∈ l) : ¬Covers lo hi l (hi a) := by
  rintro ⟨b, hb, hle, hlt⟩
  rcases h.apart_or ha hb with rfl | hab | hba
  · exact lt_irrefl _ hlt
  · exact not_lt_of_ge hle hab
  · exact lt_irrefl _ ((hlt.trans hba).trans (h.lt a ha))

/-- Points that are covered without a gap are in one interval. -/
theorem mem_of_covers (h : Canonical lo hi l) (hst : s ≤ t)
    (hall : ∀ u, s ≤ u → u ≤ t → Covers lo hi l u) : ∃ a ∈ l, lo a ≤ s ∧ t < hi a := by
  obtain ⟨a, ha, hle, hlt⟩ := hall s le_rfl hst
  refine ⟨a, ha, hle, lt_of_not_ge fun hend => ?_⟩
  exact h.not_covers_hi ha (hall _ hlt.le hend)

/-- The least point that is covered. -/
theorem head_le (h : Canonical lo hi (a :: l)) (ht : Covers lo hi (a :: l) t) : lo a ≤ t := by
  obtain ⟨hlt, hfirst, -⟩ := canonical_cons.mp h
  rcases covers_cons.mp ht with hhead | ⟨b, hb, hle, -⟩
  · exact hhead.1
  · exact ((hlt.trans (hfirst b hb)).trans_le hle).le

theorem covers_head (h : Canonical lo hi (a :: l)) : Covers lo hi (a :: l) (lo a) :=
  ⟨a, List.mem_cons_self, le_rfl, h.lt a List.mem_cons_self⟩

/-- A first interval that starts at the same point ends no later. -/
theorem hi_le_of_covers (h' : Canonical lo hi (b :: l')) (hlo : lo a = lo b)
    (hcovers : ∀ t, Covers lo hi (a :: l) t → Covers lo hi (b :: l') t) : hi a ≤ hi b := by
  refine le_of_not_gt fun hlt => h'.not_covers_hi List.mem_cons_self (hcovers _ ?_)
  exact ⟨a, List.mem_cons_self, hlo ▸ (h'.lt b List.mem_cons_self).le, hlt⟩

theorem covers_tail (h : Canonical lo hi (a :: l)) :
    Covers lo hi l t ↔ Covers lo hi (a :: l) t ∧ hi a ≤ t := by
  obtain ⟨-, hfirst, -⟩ := canonical_cons.mp h
  rw [covers_cons]
  constructor
  · intro ht
    obtain ⟨b, hb, hle, hlt⟩ := ht
    exact ⟨.inr ⟨b, hb, hle, hlt⟩, ((hfirst b hb).trans_le hle).le⟩
  · intro ⟨ht, hend⟩
    exact ht.resolve_left fun hhead => not_lt_of_ge hend hhead.2

/-- **Canonical lists are unique**: one that covers the same points is the same list. -/
theorem eq_of_covers (hext : ∀ a b, lo a = lo b → hi a = hi b → a = b) (h : Canonical lo hi l)
    (h' : Canonical lo hi l') (hcovers : ∀ t, Covers lo hi l t ↔ Covers lo hi l' t) : l = l' := by
  induction l generalizing l' with
  | nil =>
      cases l' with
      | nil => rfl
      | cons b l' => exact absurd ((hcovers _).mpr h'.covers_head) covers_nil
  | cons a l ih =>
      cases l' with
      | nil => exact absurd ((hcovers _).mp h.covers_head) covers_nil
      | cons b l' =>
          have hlo : lo a = lo b := le_antisymm (h.head_le ((hcovers _).mpr h'.covers_head))
            (h'.head_le ((hcovers _).mp h.covers_head))
          have hhi : hi a = hi b := le_antisymm
            (h'.hi_le_of_covers hlo fun t => (hcovers t).mp)
            (h.hi_le_of_covers hlo.symm fun t => (hcovers t).mpr)
          obtain rfl := hext a b hlo hhi
          have htail : l = l' := ih (canonical_cons.mp h).2.2 (canonical_cons.mp h').2.2 fun t => by
            rw [h.covers_tail, h'.covers_tail, hcovers]
          rw [htail]

end Canonical

/-! ## Sorting -/

/-- A sort by a key that says nothing about the order of equal keys. -/
structure SortBy (key : α → K) where
  run : List α → List α
  perm : ∀ l, (run l).Perm l
  sorted : ∀ l, (run l).Pairwise fun a b => key a ≤ key b

/-- The sort that keeps the order of equal keys. -/
def SortBy.merge (key : α → K) : SortBy key where
  run l := l.mergeSort fun a b => key a ≤ key b
  perm l := List.mergeSort_perm l _
  sorted l := by
    have htrans : ∀ a b c, decide (key a ≤ key b) = true → decide (key b ≤ key c) = true →
        decide (key a ≤ key c) = true := fun a b c hab hbc => by
      simpa using (of_decide_eq_true hab).trans (of_decide_eq_true hbc)
    have hsorted := List.pairwise_mergeSort htrans
      (fun a b => by simpa using le_total (key a) (key b)) l
    exact hsorted.imp fun h => by simpa using h

/-! ## Runs of integers -/

/-- The integers from `a` on and before `b` have the property, the ones around them do not. -/
structure IsRun (P : Int → Prop) (a b : Int) : Prop where
  all : ∀ t, a ≤ t → t < b → P t
  before : ¬P (a - 1)
  after : ¬P b

/-- The point before an interval of a canonical list is not covered. -/
theorem Canonical.not_covers_pred {α : Type*} {lo hi : α → Int} {l : List α} {a : α}
    (h : Canonical lo hi l) (ha : a ∈ l) : ¬Covers lo hi l (lo a - 1) := by
  rintro ⟨b, hb, hle, hlt⟩
  rcases h.apart_or ha hb with rfl | hab | hba
  · omega
  · have := h.lt a ha
    omega
  · omega

/-- Between an integer without the property and a later one with it, a run starts that goes on
to the later one. -/
theorem exists_run_start {P : Int → Prop} {p q : Int} (hpq : p < q) (hp : ¬P p) (hq : P q) :
    ∃ a, p < a ∧ a ≤ q ∧ ¬P (a - 1) ∧ ∀ t, a ≤ t → t ≤ q → P t := by
  obtain ⟨n, rfl⟩ : ∃ n : Nat, q = p + 1 + n := ⟨(q - p - 1).toNat, by omega⟩
  clear hpq
  induction n with
  | zero =>
      refine ⟨p + 1, by omega, by omega, by rwa [Int.add_sub_cancel], fun t hle hge => ?_⟩
      obtain rfl : t = p + 1 + (0 : Nat) := by omega
      exact hq
  | succ n ih =>
      by_cases hn : P (p + 1 + n)
      · obtain ⟨a, hlt, hle, hnot, hall⟩ := ih hn
        refine ⟨a, hlt, by omega, hnot, fun t hat htq => ?_⟩
        rcases lt_or_ge (p + 1 + (n : Int)) t with hgt | hge
        · obtain rfl : t = p + 1 + (n + 1 : Nat) := by omega
          exact hq
        · exact hall t hat hge
      · refine ⟨p + 1 + (n + 1 : Nat), by omega, by omega, ?_, fun t hat htq => ?_⟩
        · rwa [show p + 1 + (n + 1 : Nat) - 1 = p + 1 + (n : Int) by omega]
        · obtain rfl : t = p + 1 + (n + 1 : Nat) := by omega
          exact hq

end MessengerClient
