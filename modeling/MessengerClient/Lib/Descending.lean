import Mathlib

/-!
# MessengerClient.Lib.Descending

Lists whose keys do not increase, and one element that is taken to its place in such a
list: past the elements after it whose keys are greater, or else before those in front of it
whose keys are less.
-/

namespace MessengerClient

variable {α κ : Type} [LinearOrder κ] (key : α → κ)

/-- No key is less than one after it. -/
def Descending (l : List α) : Prop := l.Pairwise fun a b => key b ≤ key a

variable {key} {x : α} {l l₁ l₂ : List α}

theorem descending_append : Descending key (l₁ ++ l₂) ↔
    Descending key l₁ ∧ Descending key l₂ ∧ ∀ a ∈ l₁, ∀ b ∈ l₂, key b ≤ key a :=
  List.pairwise_append

theorem Descending.sublist (h : Descending key l₂) (hsub : l₁.Sublist l₂) :
    Descending key l₁ :=
  List.Pairwise.sublist hsub h

theorem Descending.congr {key' : α → κ} (h : Descending key l) (hsame : ∀ a ∈ l, key' a = key a) :
    Descending key' l :=
  List.Pairwise.imp_of_mem (fun ha hb hle => by rwa [hsame _ ha, hsame _ hb]) h

/-- Of elements in order, and some that are among them. -/
theorem Descending.filter {p : α → Bool} (h : Descending key (l₂.filter p))
    (hsub : l₁.Sublist l₂) (hp : ∀ a ∈ l₁, p a = true) : Descending key l₁ := by
  have hall := hsub.filter p
  rw [List.filter_eq_self.mpr hp] at hall
  exact h.sublist hall

/-- An element comes between those that are not less and those that are not greater. -/
theorem Descending.insert (h : Descending key (l₁ ++ l₂)) (hbefore : ∀ a ∈ l₁, key x ≤ key a)
    (hafter : ∀ b ∈ l₂, key b ≤ key x) : Descending key (l₁ ++ x :: l₂) := by
  obtain ⟨h₁, h₂, hcross⟩ := descending_append.mp h
  refine descending_append.mpr ⟨h₁, List.pairwise_cons.mpr ⟨hafter, h₂⟩, ?_⟩
  intro a ha b hb
  cases List.mem_cons.mp hb with
  | inl heq => exact heq ▸ hbefore a ha
  | inr hb => exact hcross a ha b hb

/-- Past the elements that are greater, none is. -/
theorem Descending.le_of_mem_dropWhile (h : Descending key l) {b : α}
    (hb : b ∈ l.dropWhile (key x < key ·)) : key b ≤ key x := by
  induction l with
  | nil => cases hb
  | cons a l ih =>
      obtain ⟨ha, hl⟩ := List.pairwise_cons.mp h
      rw [List.dropWhile_cons] at hb
      split at hb
      · exact ih hl hb
      · next hle =>
          have hle : key a ≤ key x := by simpa using hle
          cases List.mem_cons.mp hb with
          | inl heq => exact heq ▸ hle
          | inr hb => exact (ha b hb).trans hle

/-- An element goes on past those that are greater. -/
theorem Descending.forward (h : Descending key (l₁ ++ l₂))
    (hsome : l₂.takeWhile (key x < key ·) ≠ []) :
    Descending key (l₁ ++ l₂.takeWhile (key x < key ·) ++
      x :: l₂.dropWhile (key x < key ·)) := by
  have hsplit := List.takeWhile_append_dropWhile (p := fun b => key x < key b) (l := l₂)
  obtain ⟨-, h₂, hcross⟩ := descending_append.mp h
  refine Descending.insert ?_ ?_ fun b hb => h₂.le_of_mem_dropWhile hb
  · rw [List.append_assoc, hsplit]
    exact h
  · have hgreater : ∀ b ∈ l₂.takeWhile (key x < key ·), key x < key b := fun b hb => by
      simpa using List.mem_takeWhile_imp hb
    intro a ha
    cases List.mem_append.mp ha with
    | inr hb => exact (hgreater a hb).le
    | inl ha =>
        obtain ⟨b, hb⟩ := List.exists_mem_of_ne_nil _ hsome
        exact (hgreater b hb).le.trans (hcross a ha b (List.takeWhile_subset _ hb))

/-- An element that none after it is greater than goes back before those that are less. -/
theorem Descending.backward (h : Descending key (l₁ ++ l₂))
    (hnone : l₂.takeWhile (key x < key ·) = []) :
    Descending key ((l₁.reverse.dropWhile (key · < key x)).reverse ++
      x :: ((l₁.reverse.takeWhile (key · < key x)).reverse ++ l₂)) := by
  have hsplit : (l₁.reverse.dropWhile (key · < key x)).reverse ++
      (l₁.reverse.takeWhile (key · < key x)).reverse = l₁ := by
    rw [← List.reverse_append, List.takeWhile_append_dropWhile, List.reverse_reverse]
  obtain ⟨h₁, h₂, -⟩ := descending_append.mp h
  refine Descending.insert ?_ ?_ ?_
  · rw [← List.append_assoc, hsplit]
    exact h
  · -- in the order of the dual, those that are not dropped are not less
    intro a ha
    have hdual : Descending (fun b => OrderDual.toDual (key b)) l₁.reverse :=
      List.pairwise_reverse.mpr h₁
    exact hdual.le_of_mem_dropWhile (List.mem_reverse.mp ha)
  · intro b hb
    cases List.mem_append.mp hb with
    | inl hb =>
        have hless := List.mem_takeWhile_imp (List.mem_reverse.mp hb)
        exact (show key b < key x by simpa using hless).le
    | inr hb =>
        refine h₂.le_of_mem_dropWhile ?_
        rw [List.takeWhile_eq_nil_iff] at hnone
        cases l₂ with
        | nil => cases hb
        | cons c l₂ =>
            have hc := hnone (by simp)
            rw [List.dropWhile_cons, if_neg (by simpa using hc)]
            exact hb

/-- No key is less than the next one. -/
theorem descending_of_adjacent
    (h : ∀ i, (hi : i + 1 < l.length) → key l[i + 1] ≤ key l[i]) : Descending key l := by
  have htrans : Trans (fun a b => key b ≤ key a) (fun a b => key b ≤ key a)
      fun a b => key b ≤ key a := ⟨fun hab hbc => hbc.trans hab⟩
  exact (List.isChain_iff_getElem.mpr h).pairwise

theorem descending_mergeSort (l : List α) :
    Descending key (l.mergeSort fun a b => key b ≤ key a) := by
  have htrans : ∀ a b c, decide (key b ≤ key a) = true → decide (key c ≤ key b) = true →
      decide (key c ≤ key a) = true := fun a b c hab hbc => by
    simpa using (of_decide_eq_true hbc).trans (of_decide_eq_true hab)
  have hsorted := List.pairwise_mergeSort htrans
    (fun a b => by simpa using le_total (key b) (key a)) l
  exact hsorted.imp fun h => by simpa using h

/-! ## Where the first is that is not greater, or not less -/

theorem findIdx_not_greater (l : List α) (k : κ) :
    l.findIdx (fun b => key b ≤ k) = (l.takeWhile (k < key ·)).length := by
  induction l with
  | nil => rfl
  | cons a l ih =>
      rw [List.findIdx_cons, List.takeWhile_cons]
      by_cases h : key a ≤ k
      · simp [h, not_lt.mpr h]
      · simp [h, ih, not_le.mp h]

theorem findIdx_not_less (l : List α) (k : κ) :
    l.findIdx (fun b => k ≤ key b) = (l.takeWhile (key · < k)).length := by
  induction l with
  | nil => rfl
  | cons a l ih =>
      rw [List.findIdx_cons, List.takeWhile_cons]
      by_cases h : k ≤ key a
      · simp [h, not_lt.mpr h]
      · simp [h, ih, not_le.mp h]

end MessengerClient
