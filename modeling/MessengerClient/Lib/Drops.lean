import Mathlib

/-!
# MessengerClient.Lib.Drops

Positions of a list at which it does not grow, and what is behind the last of them.
-/

namespace MessengerClient

namespace Drops

variable {α : Type*}

/-- `std::adjacent_find`: where the first element is that is related to the one behind it. -/
def adjacentFind (pred : α → α → Bool) : List α → Option Nat
  | first :: second :: rest =>
    if pred first second then some 0 else (adjacentFind pred (second :: rest)).map (· + 1)
  | _ => none

variable [LinearOrder α]

/-- The element behind this one is not greater. -/
def IsDrop (l : List α) (i : Nat) : Prop :=
  ∃ a b, l[i]? = some a ∧ l[i + 1]? = some b ∧ b ≤ a

/-- The part of a list behind its last drop. -/
def AfterLastDrop (l kept : List α) : Prop :=
  ∃ n, kept = l.drop n ∧ (∀ i, IsDrop l i → i < n) ∧ ∀ i, n = i + 1 → IsDrop l i

variable {l l' kept : List α} {a b : α} {i n : Nat}

@[simp] theorem not_isDrop_nil (i : Nat) : ¬IsDrop ([] : List α) i := by
  simp [IsDrop]

@[simp] theorem isDrop_zero : IsDrop (a :: b :: l) 0 ↔ b ≤ a := by
  simp [IsDrop]

@[simp] theorem isDrop_succ : IsDrop (a :: l) (i + 1) ↔ IsDrop l i := by
  simp [IsDrop]

theorem isDrop_drop : IsDrop (l.drop n) i ↔ IsDrop l (n + i) := by
  simp [IsDrop, Nat.add_assoc]

theorem IsDrop.lt_length (h : IsDrop l i) : i + 1 < l.length := by
  obtain ⟨a, b, -, hb, -⟩ := h
  exact (List.getElem?_eq_some_iff.mp hb).1

/-- In front of its last element, a list drops where the longer list does. -/
theorem isDrop_append_of_lt (h : i + 1 < l.length) : IsDrop (l ++ l') i ↔ IsDrop l i := by
  rw [IsDrop, IsDrop, List.getElem?_append_left h, List.getElem?_append_left (by omega)]

/-- **A list grows** if and only if it drops nowhere. -/
theorem isChain_iff : l.IsChain (· < ·) ↔ ∀ i, ¬IsDrop l i := by
  induction l with
  | nil => simp
  | cons a l ih =>
    cases l with
    | nil => simp [IsDrop]
    | cons b l =>
      rw [List.isChain_cons_cons, ih]
      constructor
      · rintro ⟨hab, hrest⟩ i
        cases i with
        | zero => simpa using hab
        | succ i => simpa using hrest i
      · intro h
        exact ⟨by simpa using h 0, fun i => by simpa using h (i + 1)⟩

/-- What is behind the last drop grows. -/
theorem AfterLastDrop.isChain (h : AfterLastDrop l kept) : kept.IsChain (· < ·) := by
  obtain ⟨n, rfl, hlast, -⟩ := h
  refine isChain_iff.mpr fun i hdrop => ?_
  have hlt := hlast _ (isDrop_drop.mp hdrop)
  omega

/-- A list that grows is behind its last drop as a whole. -/
theorem afterLastDrop_self (h : l.IsChain (· < ·)) : AfterLastDrop l l :=
  ⟨0, rfl, fun i hdrop => absurd hdrop (isChain_iff.mp h i), by simp⟩

/-! ## The first drop -/

variable (l) in
theorem adjacentFind_cons_cons (a b : α) :
    adjacentFind (fun first second => second ≤ first) (a :: b :: l) =
      if b ≤ a then some 0
      else (adjacentFind (fun first second => second ≤ first) (b :: l)).map (· + 1) := by
  simp [adjacentFind]

theorem adjacentFind_eq_none :
    adjacentFind (fun first second : α => second ≤ first) l = none ↔ ∀ i, ¬IsDrop l i := by
  rw [← isChain_iff]
  induction l with
  | nil => simp [adjacentFind]
  | cons a l ih =>
    cases l with
    | nil => simp [adjacentFind]
    | cons b l =>
      rw [adjacentFind_cons_cons, List.isChain_cons_cons, ← ih]
      split
      · next hle => simp [not_lt.mpr hle]
      · next hlt => simp [not_le.mp hlt]

/-- **What is found** is the first drop. -/
theorem adjacentFind_eq_some
    (h : adjacentFind (fun first second : α => second ≤ first) l = some i) :
    IsDrop l i ∧ ∀ j, IsDrop l j → i ≤ j := by
  induction l generalizing i with
  | nil => simp [adjacentFind] at h
  | cons a l ih =>
    cases l with
    | nil => simp [adjacentFind] at h
    | cons b l =>
      rw [adjacentFind_cons_cons] at h
      split at h
      · next hle =>
        obtain rfl := Option.some_inj.mp h
        exact ⟨isDrop_zero.mpr hle, by simp⟩
      · next hlt =>
        obtain ⟨i, hfind, rfl⟩ := Option.map_eq_some_iff.mp h
        obtain ⟨hdrop, hfirst⟩ := ih hfind
        refine ⟨isDrop_succ.mpr hdrop, fun j hj => ?_⟩
        cases j with
        | zero => exact absurd (isDrop_zero.mp hj) hlt
        | succ j => exact Nat.succ_le_succ (hfirst j (isDrop_succ.mp hj))

/-- **Behind a drop** is behind the last one if and only if none follows. -/
theorem afterLastDrop_drop (h : IsDrop l n) :
    AfterLastDrop l (l.drop (n + 1)) ↔ ∀ i, IsDrop l i → i ≤ n := by
  constructor
  · intro hafter i hi
    by_contra hlt
    have hchain := isChain_iff.mp hafter.isChain (i - (n + 1))
    rw [isDrop_drop, Nat.add_sub_cancel' (by omega)] at hchain
    exact hchain hi
  · refine fun hlast => ⟨n + 1, rfl, fun i hi => Nat.lt_succ_of_le (hlast i hi), ?_⟩
    rintro i heq
    rwa [← Nat.succ.inj heq]

end Drops

end MessengerClient
