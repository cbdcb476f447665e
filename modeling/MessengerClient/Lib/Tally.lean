import Mathlib.Algebra.Order.BigOperators.Group.List
import Mathlib.Algebra.Order.Ring.Int

/-!
# MessengerClient.Lib.Tally

Sums kept by slot next to the items they sum up: every item lies in one slot and counts
there with an amount.  `Tallies` says that the sums are right; items join and leave one
by one, and slots are added and dropped at the end.
-/

namespace MessengerClient

namespace Tally

variable {α : Type*} (slot : α → Nat) (amount : α → Int)

/-- What the items in slot `i` amount to. -/
def total (items : List α) (i : Nat) : Int := ((items.filter (slot · = i)).map amount).sum

/-- The sums with one item more. -/
def put (a : α) (sums : List Int) : List Int := sums.modify (slot a) (· + amount a)

/-- The sums with these items less. -/
def takeOff (items : List α) (sums : List Int) : List Int :=
  items.foldl (fun sums a => sums.modify (slot a) (· - amount a)) sums

/-- Every item has its slot, and the sum of each slot is what its items amount to. -/
structure Tallies (sums : List Int) (items : List α) : Prop where
  sum_eq : ∀ i, sums.getD i 0 = total slot amount items i
  slot_lt : ∀ a ∈ items, slot a < sums.length

variable {slot amount}

/-! ## Totals -/

@[simp] theorem total_nil (i : Nat) : total slot amount [] i = 0 := rfl

theorem total_cons (a : α) (items : List α) (i : Nat) :
    total slot amount (a :: items) i =
      (if slot a = i then amount a else 0) + total slot amount items i := by
  by_cases h : slot a = i <;> simp [total, h]

theorem total_perm {items items' : List α} (h : items.Perm items') (i : Nat) :
    total slot amount items i = total slot amount items' i :=
  ((h.filter _).map amount).sum_eq

theorem total_append (items items' : List α) (i : Nat) :
    total slot amount (items ++ items') i =
      total slot amount items i + total slot amount items' i := by
  simp [total]

theorem total_eq_zero {items : List α} {i : Nat} (h : ∀ a ∈ items, slot a ≠ i) :
    total slot amount items i = 0 := by
  rw [total, List.filter_eq_nil_iff.mpr fun a ha => by simp [h a ha]]
  rfl

/-- With positive amounts a slot sums up to zero only when nothing is in it. -/
theorem slot_ne_of_total_eq_zero {items : List α} {i : Nat} (hpos : ∀ a ∈ items, 0 < amount a)
    (h : total slot amount items i = 0) : ∀ a ∈ items, slot a ≠ i := by
  have hnonneg (items : List α) (hpos : ∀ a ∈ items, 0 < amount a) :
      0 ≤ total slot amount items i := by
    refine List.sum_nonneg fun x hx => ?_
    obtain ⟨a, ha, rfl⟩ := List.mem_map.mp hx
    exact (hpos a (List.mem_of_mem_filter ha)).le
  intro a ha hslot
  obtain ⟨before, after, rfl⟩ := List.append_of_mem ha
  have hperm : (before ++ a :: after).Perm (a :: (before ++ after)) := List.perm_middle
  rw [total_perm hperm, total_cons, if_pos hslot] at h
  have ha := hpos a ha
  have := hnonneg (before ++ after) fun b hb => hpos b (hperm.mem_iff.mpr (.tail _ hb))
  omega

/-! ## Sums of one slot -/

theorem getD_modify (sums : List Int) (j i : Nat) (f : Int → Int) (hj : j < sums.length) :
    (sums.modify j f).getD i 0 = if j = i then f (sums.getD i 0) else sums.getD i 0 := by
  rw [List.getD_eq_getElem?_getD, List.getElem?_modify, List.getD_eq_getElem?_getD]
  by_cases h : j = i
  · subst h
    simp [hj]
  · cases hi : sums[i]? <;> simp [h]

@[simp] theorem length_put (a : α) (sums : List Int) :
    (put slot amount a sums).length = sums.length := List.length_modify ..

@[simp] theorem length_takeOff (items : List α) (sums : List Int) :
    (takeOff slot amount items sums).length = sums.length := by
  induction items generalizing sums with
  | nil => rfl
  | cons a items ih =>
      rw [takeOff, List.foldl_cons]
      exact (ih _).trans (List.length_modify ..)

theorem getD_takeOff {items : List α} {sums : List Int} (h : ∀ a ∈ items, slot a < sums.length)
    (i : Nat) : (takeOff slot amount items sums).getD i 0 =
      sums.getD i 0 - total slot amount items i := by
  induction items generalizing sums with
  | nil => simp [takeOff]
  | cons a items ih =>
      have ha := h a (.head _)
      have htail : ∀ b ∈ items, slot b < (sums.modify (slot a) (· - amount a)).length :=
        fun b hb => by
          rw [List.length_modify]
          exact h b (.tail _ hb)
      have hstep : takeOff slot amount (a :: items) sums =
          takeOff slot amount items (sums.modify (slot a) (· - amount a)) := rfl
      rw [hstep, ih htail, getD_modify _ _ _ _ ha, total_cons]
      split <;> omega

namespace Tallies

variable {sums : List Int} {items items' : List α}

theorem nil : Tallies slot amount [] ([] : List α) where
  sum_eq _ := rfl
  slot_lt _ h := nomatch h

theorem zeros (h : ∀ x ∈ sums, x = 0) : Tallies slot amount sums ([] : List α) where
  sum_eq i := by
    rw [List.getD_eq_getElem?_getD, total_nil]
    cases hi : sums[i]? with
    | none => rfl
    | some x => exact h x (List.mem_of_getElem? hi)
  slot_lt _ h := nomatch h

theorem perm (h : Tallies slot amount sums items) (hp : items.Perm items') :
    Tallies slot amount sums items' where
  sum_eq i := (h.sum_eq i).trans (total_perm hp i)
  slot_lt a ha := h.slot_lt a (hp.mem_iff.mpr ha)

/-- An item joins. -/
theorem put (h : Tallies slot amount sums items) {a : α} (ha : slot a < sums.length) :
    Tallies slot amount (put slot amount a sums) (items ++ [a]) where
  sum_eq i := by
    have hi := h.sum_eq i
    rw [Tally.put, getD_modify _ _ _ _ ha, total_append, total_cons, total_nil]
    split <;> omega
  slot_lt b hb := by
    rw [length_put]
    cases List.mem_append.mp hb with
    | inl hb => exact h.slot_lt b hb
    | inr hb => rwa [List.mem_singleton.mp hb]

/-- Items leave. -/
theorem takeOff (h : Tallies slot amount sums (items ++ items')) :
    Tallies slot amount (takeOff slot amount items sums) items' where
  sum_eq i := by
    have hi := h.sum_eq i
    rw [getD_takeOff fun a ha => h.slot_lt a (List.mem_append_left _ ha)]
    rw [total_append] at hi
    omega
  slot_lt a ha := by
    rw [length_takeOff]
    exact h.slot_lt a (List.mem_append_right _ ha)

/-- A slot is added, with nothing in it. -/
theorem push (h : Tallies slot amount sums items) : Tallies slot amount (sums ++ [0]) items where
  sum_eq i := by
    rw [← h.sum_eq i, List.getD_eq_getElem?_getD, List.getD_eq_getElem?_getD, List.getElem?_append]
    split
    · rfl
    · next hi =>
      rw [List.getElem?_eq_none (by omega : sums.length ≤ i)]
      cases hj : [(0 : Int)][i - sums.length]? with
      | none => rfl
      | some x => simpa using List.mem_of_getElem? hj
  slot_lt a ha := by
    have := h.slot_lt a ha
    rw [List.length_append]
    omega

/-- The last slot is dropped when nothing is in it. -/
theorem dropLast (h : Tallies slot amount sums items)
    (hlast : ∀ a ∈ items, slot a ≠ sums.length - 1) :
    Tallies slot amount sums.dropLast items where
  sum_eq i := by
    rw [List.getD_eq_getElem?_getD, List.getElem?_dropLast]
    split
    · rw [← List.getD_eq_getElem?_getD]
      exact h.sum_eq i
    · refine (total_eq_zero fun a ha hslot => ?_).symm
      have := h.slot_lt a ha
      have := hlast a ha
      omega
  slot_lt a ha := by
    have := h.slot_lt a ha
    have := hlast a ha
    rw [List.length_dropLast]
    omega

/-- With positive amounts, no items are left when all sums are zero. -/
theorem eq_nil (h : Tallies slot amount sums items) (hpos : ∀ a ∈ items, 0 < amount a)
    (hzero : ∀ x ∈ sums, x = 0) : items = [] := by
  refine List.eq_nil_iff_forall_not_mem.mpr fun a ha => ?_
  have hlt := h.slot_lt a ha
  have htotal : total slot amount items (slot a) = 0 := by
    rw [← h.sum_eq, List.getD_eq_getElem?_getD, List.getElem?_eq_getElem hlt]
    exact hzero _ (List.getElem_mem hlt)
  exact slot_ne_of_total_eq_zero hpos htotal a ha rfl

end Tallies

end Tally

end MessengerClient
