import Mathlib.Order.MinMax
import Mathlib.Data.List.TakeWhile

/-!
# MessengerClient.Lib.Spaced

Lists of things that each lie between two ends, in order and apart from each other, and
the positions that binary searches find in them.  The things that a given range touches
stand together (`split`), between the ones before it and the ones after it.
-/

namespace MessengerClient

variable {α K : Type*} [LinearOrder K]

/-- The position of the first element that `f` does not put below `k`. -/
def lowerBound (f : α → K) (k : K) (l : List α) : Nat := (l.takeWhile fun a => f a < k).length

/-- The position of the first element that `f` puts above `k`. -/
def upperBound (f : α → K) (k : K) (l : List α) : Nat := (l.takeWhile fun a => f a ≤ k).length

/-- Each element lies between its own ends and wholly below the ones that follow. -/
structure Spaced (lo hi : α → K) (l : List α) : Prop where
  le : ∀ a ∈ l, lo a ≤ hi a
  lt : l.Pairwise fun a b => hi a < lo b

/-- What a range touches, what lies before it and what lies after it. -/
structure Touched (lo hi : α → K) (from_ till : K) (l before mid after : List α) : Prop where
  eq : l = before ++ (mid ++ after)
  before : ∀ a ∈ before, hi a < from_
  mid : ∀ a ∈ mid, from_ ≤ hi a ∧ lo a ≤ till
  after : ∀ a ∈ after, till < lo a

theorem takeWhile_append_of_all {p : α → Bool} {l₁ l₂ : List α} (h₁ : ∀ a ∈ l₁, p a = true)
    (h₂ : ∀ a ∈ l₂.head?, p a = false) : (l₁ ++ l₂).takeWhile p = l₁ := by
  rw [List.takeWhile_append_of_pos h₁]
  cases l₂ with
  | nil => simp
  | cons b l₂ => rw [List.takeWhile_cons_of_neg (by simpa using h₂ b rfl), List.append_nil]

namespace Spaced

variable {lo hi : α → K} {l l₁ l₂ : List α} {from_ till : K}

theorem nil : Spaced lo hi [] := ⟨by simp, List.Pairwise.nil⟩

theorem append_iff :
    Spaced lo hi (l₁ ++ l₂) ↔
      Spaced lo hi l₁ ∧ Spaced lo hi l₂ ∧ ∀ a ∈ l₁, ∀ b ∈ l₂, hi a < lo b := by
  constructor
  · rintro ⟨hle, hlt⟩
    obtain ⟨h₁, h₂, h₁₂⟩ := List.pairwise_append.mp hlt
    exact ⟨⟨fun a ha => hle a (List.mem_append_left _ ha), h₁⟩,
      ⟨fun a ha => hle a (List.mem_append_right _ ha), h₂⟩, h₁₂⟩
  · rintro ⟨h₁, h₂, h₁₂⟩
    refine ⟨fun a ha => ?_, List.pairwise_append.mpr ⟨h₁.lt, h₂.lt, h₁₂⟩⟩
    cases List.mem_append.mp ha with
    | inl ha => exact h₁.le a ha
    | inr ha => exact h₂.le a ha

theorem cons_iff {a : α} :
    Spaced lo hi (a :: l) ↔ lo a ≤ hi a ∧ (∀ b ∈ l, hi a < lo b) ∧ Spaced lo hi l := by
  constructor
  · rintro ⟨hle, hlt⟩
    obtain ⟨ha, hl⟩ := List.pairwise_cons.mp hlt
    exact ⟨hle a List.mem_cons_self, ha, fun b hb => hle b (List.mem_cons_of_mem a hb), hl⟩
  · rintro ⟨ha, hal, hl⟩
    refine ⟨fun b hb => ?_, List.pairwise_cons.mpr ⟨hal, hl.lt⟩⟩
    cases List.mem_cons.mp hb with
    | inl h => exact h ▸ ha
    | inr h => exact hl.le b h

/-- The lower ends are in order. -/
theorem pairwise_lo (h : Spaced lo hi l) : l.Pairwise fun a b => lo a < lo b :=
  h.lt.imp_of_mem fun ha _ hlt => (h.le _ ha).trans_lt hlt

theorem pairwise_hi (h : Spaced lo hi l) : l.Pairwise fun a b => hi a < hi b :=
  h.lt.imp_of_mem fun _ hb hlt => hlt.trans_le (h.le _ hb)

/-- **The split.**  The elements that a range touches stand together. -/
theorem split (h : Spaced lo hi l) (from_ till : K) :
    Touched lo hi from_ till l (l.takeWhile fun a => hi a < from_)
      ((l.dropWhile fun a => hi a < from_).takeWhile fun a => lo a ≤ till)
      ((l.dropWhile fun a => hi a < from_).dropWhile fun a => lo a ≤ till) := by
  have heq : l = (l.takeWhile fun a => hi a < from_) ++ l.dropWhile fun a => hi a < from_ :=
    List.takeWhile_append_dropWhile.symm
  have hrest : Spaced lo hi (l.dropWhile fun a => hi a < from_) := by
    rw [heq] at h
    exact (append_iff.mp h).2.1
  have hfrom : ∀ a ∈ l.dropWhile fun a => hi a < from_, from_ ≤ hi a := by
    cases hd : l.dropWhile fun a => hi a < from_ with
    | nil => simp
    | cons b rest =>
        have hb : from_ ≤ hi b := by
          have := List.head?_dropWhile_not (fun a => decide (hi a < from_)) l
          rw [hd] at this
          simpa using this
        rw [hd] at hrest
        intro a ha
        cases List.mem_cons.mp ha with
        | inl hab => exact hab ▸ hb
        | inr har => exact hb.trans ((List.pairwise_cons.mp hrest.pairwise_hi).1 a har).le
  refine ⟨?_, ?_, ?_, ?_⟩
  · rw [List.takeWhile_append_dropWhile]
    exact heq
  · intro a ha
    simpa using List.mem_takeWhile_imp ha
  · intro a ha
    exact ⟨hfrom a ((List.takeWhile_sublist _).mem ha), by simpa using List.mem_takeWhile_imp ha⟩
  · generalize l.dropWhile (fun a => decide (hi a < from_)) = rest at hrest
    cases hd : rest.dropWhile fun a => lo a ≤ till with
    | nil => simp
    | cons b rest' =>
        have hb : till < lo b := by
          have := List.head?_dropWhile_not (fun a => decide (lo a ≤ till)) rest
          rw [hd] at this
          simpa using this
        have hsuffix : Spaced lo hi (b :: rest') := by
          rw [← List.takeWhile_append_dropWhile (p := fun a => decide (lo a ≤ till)) (l := rest),
            hd] at hrest
          exact (append_iff.mp hrest).2.1
        intro a ha
        cases List.mem_cons.mp ha with
        | inl hab => exact hab ▸ hb
        | inr har => exact hb.trans ((List.pairwise_cons.mp hsuffix.pairwise_lo).1 a har)

end Spaced

namespace Touched

variable {lo hi : α → K} {l before mid after : List α} {from_ till : K}

theorem lowerBound (h : Touched lo hi from_ till l before mid after)
    (hle : ∀ a ∈ l, lo a ≤ hi a) (hr : from_ ≤ till) :
    MessengerClient.lowerBound hi from_ l = before.length := by
  rw [MessengerClient.lowerBound, h.eq, takeWhile_append_of_all]
  · intro a ha
    simpa using h.before a ha
  · intro a ha
    have hmem : a ∈ mid ++ after := List.mem_of_mem_head? ha
    cases List.mem_append.mp hmem with
    | inl hmid => simpa using (h.mid a hmid).1
    | inr hafter =>
        have := hle a (h.eq ▸ List.mem_append_right before hmem)
        simpa using (hr.trans_lt (h.after a hafter)).le.trans this

theorem upperBound (h : Touched lo hi from_ till l before mid after)
    (hle : ∀ a ∈ l, lo a ≤ hi a) (hr : from_ ≤ till) :
    MessengerClient.upperBound lo till l = before.length + mid.length := by
  rw [MessengerClient.upperBound, h.eq, ← List.append_assoc, takeWhile_append_of_all,
    List.length_append]
  · intro a ha
    cases List.mem_append.mp ha with
    | inl hb =>
        have := hle a (h.eq ▸ List.mem_append_left _ hb)
        simpa using this.trans ((h.before a hb).le.trans hr)
    | inr hm => simpa using (h.mid a hm).2
  · intro a ha
    simpa using h.after a (List.mem_of_mem_head? ha)

/-- **Replacing.**  One element that reaches no further than the range and what the range touches
can take the place of what it touches. -/
theorem spaced (h : Touched lo hi from_ till l before mid after) (hl : Spaced lo hi l) {a : α}
    (hle : lo a ≤ hi a) (hlo : ∀ k, k < from_ → (∀ b ∈ mid, k < lo b) → k < lo a)
    (hhi : ∀ k, till < k → (∀ b ∈ mid, hi b < k) → hi a < k) :
    Spaced lo hi (before ++ a :: after) := by
  rw [h.eq, Spaced.append_iff, Spaced.append_iff] at hl
  obtain ⟨hbefore, ⟨-, hafter, hmidafter⟩, hacross⟩ := hl
  rw [Spaced.append_iff, Spaced.cons_iff]
  refine ⟨hbefore, ⟨hle, fun b hb => ?_, hafter⟩, fun b hb c hc => ?_⟩
  · exact hhi _ (h.after b hb) fun c hc => hmidafter c hc b hb
  · cases List.mem_cons.mp hc with
    | inl heq =>
        rw [heq]
        exact hlo _ (h.before b hb) fun d hd => hacross b hb d (List.mem_append_left _ hd)
    | inr hc => exact hacross b hb c (List.mem_append_right _ hc)

end Touched

/-! ## Joining -/

section Joined

variable {join : α → α → α} {a : α} {l : List α} {k : K}

theorem lt_lo_foldl (lo : α → K) (hjoin : ∀ a b, lo (join a b) = min (lo a) (lo b)) :
    k < lo (l.foldl join a) ↔ k < lo a ∧ ∀ b ∈ l, k < lo b := by
  induction l generalizing a with
  | nil => simp
  | cons b l ih => rw [List.foldl_cons, ih, hjoin, lt_min_iff, List.forall_mem_cons, and_assoc]

theorem hi_foldl_lt (hi : α → K) (hjoin : ∀ a b, hi (join a b) = max (hi a) (hi b)) :
    hi (l.foldl join a) < k ↔ hi a < k ∧ ∀ b ∈ l, hi b < k := by
  induction l generalizing a with
  | nil => simp
  | cons b l ih => rw [List.foldl_cons, ih, hjoin, max_lt_iff, List.forall_mem_cons, and_assoc]

end Joined

end MessengerClient
