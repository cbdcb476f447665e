import Mathlib

/-!
# MessengerClient.Lib.Ordinals

Numbers for the elements of a list: how often an element was there so far (`numbered`), and which
of the distinct elements it is (`firsts`).
-/

namespace MessengerClient

namespace Ordinals

variable {α β : Type} [BEq α] [LawfulBEq α] {a : α} {before seen l : List α} {n : Nat}

/-! ## Occurrences -/

/-- Each element with the number of its occurrence, after the elements `before`. -/
def numberedFrom : List α → List α → List (α × Nat)
  | _, [] => []
  | before, a :: l => (a, before.count a + 1) :: numberedFrom (before ++ [a]) l

def numbered (l : List α) : List (α × Nat) := numberedFrom [] l

/-- **The numbers of an element** are those of its occurrences. -/
theorem mem_numberedFrom :
    (a, n) ∈ numberedFrom before l ↔ before.count a < n ∧ n ≤ before.count a + l.count a := by
  induction l generalizing before with
  | nil => simp [numberedFrom]
  | cons b l ih =>
    rw [numberedFrom, List.mem_cons, ih, List.count_append, List.count_singleton, Prod.mk.injEq,
      List.count_cons]
    by_cases hab : b = a
    · subst hab
      simp only [true_and, beq_self_eq_true, if_true]
      omega
    · simp only [Ne.symm hab, false_and, false_or, beq_iff_eq, hab, if_false, Nat.add_zero]

theorem nodup_numberedFrom : (numberedFrom before l).Nodup := by
  induction l generalizing before with
  | nil => exact List.nodup_nil
  | cons b l ih =>
    refine List.nodup_cons.mpr ⟨fun hmem => ?_, ih⟩
    have hlt := (mem_numberedFrom.mp hmem).1
    rw [List.count_append, List.count_singleton_self] at hlt
    exact lt_irrefl _ hlt

theorem mem_numbered : (a, n) ∈ numbered l ↔ 0 < n ∧ n ≤ l.count a := by
  rw [numbered, mem_numberedFrom, List.count_nil, Nat.zero_add]

theorem nodup_numbered : (numbered l).Nodup := nodup_numberedFrom

/-! ## Distinct elements -/

def addFirst (seen : List α) (a : α) : List α := if a ∈ seen then seen else seen ++ [a]

/-- The distinct elements of a list, after those that were seen. -/
def firstsFrom (seen l : List α) : List α := l.foldl addFirst seen

def firsts (l : List α) : List α := firstsFrom [] l

theorem prefix_firstsFrom : seen <+: firstsFrom seen l := by
  induction l generalizing seen with
  | nil => exact List.prefix_rfl
  | cons a l ih =>
    have hfirst : seen <+: addFirst seen a := by
      rw [addFirst]
      split
      · exact List.prefix_rfl
      · exact List.prefix_append _ _
    exact hfirst.trans ih

theorem mem_firstsFrom : a ∈ firstsFrom seen l ↔ a ∈ seen ∨ a ∈ l := by
  induction l generalizing seen with
  | nil => simp [firstsFrom]
  | cons b l ih =>
    have hadd : a ∈ addFirst seen b ↔ a ∈ seen ∨ a = b := by
      rw [addFirst]
      split
      · next hmem =>
        refine ⟨.inl, fun h => h.elim id ?_⟩
        rintro rfl
        exact hmem
      · simp
    rw [firstsFrom, List.foldl_cons, ← firstsFrom, ih, hadd, List.mem_cons, or_assoc]

theorem nodup_firstsFrom (h : seen.Nodup) : (firstsFrom seen l).Nodup := by
  induction l generalizing seen with
  | nil => exact h
  | cons a l ih =>
    refine ih ?_
    rw [addFirst]
    split
    · exact h
    · next hmem =>
      rw [List.nodup_append]
      refine ⟨h, List.nodup_singleton a, ?_⟩
      intro b hb c hc hbc
      rw [List.mem_singleton] at hc
      rw [hbc, hc] at hb
      exact hmem hb

theorem mem_firsts : a ∈ firsts l ↔ a ∈ l := by
  simp [firsts, mem_firstsFrom]

theorem nodup_firsts : (firsts l).Nodup := nodup_firstsFrom List.nodup_nil

/-- Which of them an element is stays the same when more are seen. -/
theorem idxOf_firstsFrom (h : a ∈ seen) : (firstsFrom seen l).idxOf a = seen.idxOf a := by
  obtain ⟨rest, hrest⟩ := @prefix_firstsFrom α _ _ seen l
  rw [← hrest, List.idxOf_append_of_mem h]

/-- **A new element** is the next one. -/
theorem idxOf_addFirst :
    (addFirst seen a).idxOf a = if a ∈ seen then seen.idxOf a else seen.length := by
  rw [addFirst]
  split
  · rfl
  · next hmem => rw [List.idxOf_append_of_notMem hmem, List.idxOf_cons_self, Nat.add_zero]

theorem mem_addFirst : a ∈ addFirst seen a := by
  rw [addFirst]
  split
  · next hmem => exact hmem
  · simp

/-- Elements with their numbers are looked up by where they are. -/
theorem lookup_zipIdx (k : Nat) :
    (seen.zipIdx k).lookup a = if a ∈ seen then some (seen.idxOf a + k) else none := by
  induction seen generalizing k with
  | nil => rfl
  | cons b seen ih =>
    rw [List.zipIdx_cons, List.lookup_cons, ih]
    by_cases hab : a = b
    · subst hab
      simp
    · simp only [beq_eq_false_iff_ne.mpr hab, List.mem_cons, hab, false_or]
      rw [List.idxOf_cons_ne _ (Ne.symm hab)]
      split
      · rw [Nat.succ_add_eq_add_succ]
      · rfl

/-- The elements whose keys were not seen before. -/
def firstsBy (key : β → α) : List α → List β → List β
  | _, [] => []
  | seen, b :: l =>
    if key b ∈ seen then firstsBy key seen l else b :: firstsBy key (seen ++ [key b]) l

theorem mem_of_mem_firstsBy {key : β → α} {l : List β} {b : β} (h : b ∈ firstsBy key seen l) :
    b ∈ l ∧ key b ∉ seen := by
  induction l generalizing seen with
  | nil => cases h
  | cons c l ih =>
    rw [firstsBy] at h
    split at h
    · exact ⟨List.mem_cons_of_mem _ (ih h).1, (ih h).2⟩
    · next hnew =>
      obtain rfl | h := List.mem_cons.mp h
      · exact ⟨List.mem_cons_self, hnew⟩
      · have hrest := ih h
        rw [List.mem_append, not_or] at hrest
        exact ⟨List.mem_cons_of_mem _ hrest.1, hrest.2.1⟩

theorem nodup_firstsBy (key : β → α) (l : List β) : ((firstsBy key seen l).map key).Nodup := by
  induction l generalizing seen with
  | nil => exact List.nodup_nil
  | cons c l ih =>
    rw [firstsBy]
    split
    · exact ih
    · rw [List.map_cons, List.nodup_cons]
      refine ⟨fun hmem => ?_, ih⟩
      obtain ⟨b, hb, hkey⟩ := List.mem_map.mp hmem
      have hnew := (mem_of_mem_firstsBy hb).2
      rw [hkey] at hnew
      exact hnew (List.mem_append_right _ (List.mem_singleton_self _))

/-- **Each key that was not seen** has its first element. -/
theorem exists_mem_firstsBy {key : β → α} {l : List β} {b : β} (h : b ∈ l) (hnew : key b ∉ seen) :
    ∃ c ∈ firstsBy key seen l, key c = key b := by
  induction l generalizing seen with
  | nil => cases h
  | cons d l ih =>
    rw [firstsBy]
    by_cases hkey : key d = key b
    · rw [hkey, if_neg hnew]
      exact ⟨d, List.mem_cons_self, hkey⟩
    · have hmem : b ∈ l := (List.mem_cons.mp h).resolve_left fun heq => hkey (heq ▸ rfl)
      split
      · exact ih hmem hnew
      · have hnew' : key b ∉ seen ++ [key d] := by
          rw [List.mem_append, List.mem_singleton, not_or]
          exact ⟨hnew, Ne.symm hkey⟩
        obtain ⟨c, hc, hceq⟩ := ih hmem hnew'
        exact ⟨c, List.mem_cons_of_mem _ hc, hceq⟩

end Ordinals

end MessengerClient
