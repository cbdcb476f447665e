import Mathlib

/-!
# MessengerClient.Lib.Greedy

Rows that are filled one after another: an element joins the row before it unless that row is
closed, and then starts a new one.  Whether a row is closed is any property of its elements.

The rows of a list are known by what they are, `Filled`, so that rows that lost some of
their last elements are rows of what is left, and complete rows stay as they are whatever
comes after them.
-/

namespace MessengerClient

variable {α : Type} (closed : List α → Bool)

/-- The rows of a list, with the row that is being filled. -/
def fillRows : List α → List α → List (List α)
  | row, [] => if row.isEmpty then [] else [row]
  | row, x :: l =>
      if !row.isEmpty && closed row then row :: fillRows [x] l else fillRows (row ++ [x]) l

/-- A row that was not closed before its last element. -/
structure Grown (row : List α) : Prop where
  ne_nil : row ≠ []
  not_closed : ∀ a b, row = a ++ b → a ≠ [] → b ≠ [] → closed a = false

/-- Rows that are closed, but for the last one. -/
inductive Filled : List (List α) → Prop
  | nil : Filled []
  | last {row : List α} (h : Grown closed row) : Filled [row]
  | cons {row : List α} {rows : List (List α)} (h : Grown closed row)
      (hclosed : closed row = true) (hrows : Filled rows) : Filled (row :: rows)

variable {closed} {row q l : List α} {rows : List (List α)} {x : α}

theorem Grown.singleton (x : α) : Grown closed [x] := by
  refine ⟨List.cons_ne_nil x [], fun a b hab ha hb => ?_⟩
  have hlength := congrArg List.length hab
  have := List.length_pos_iff.mpr ha
  have := List.length_pos_iff.mpr hb
  simp only [List.length_singleton, List.length_append] at hlength
  omega

theorem Grown.left (h : Grown closed (row ++ q)) (hne : row ≠ []) : Grown closed row := by
  refine ⟨hne, fun a b hab ha hb => ?_⟩
  exact h.not_closed a (b ++ q) (by rw [hab, List.append_assoc]) ha (by simp [hb])

/-- A row that is not closed takes one element more. -/
theorem Grown.concat (h : row = [] ∨ Grown closed row)
    (hclosed : row ≠ [] → closed row = false) : Grown closed (row ++ [x]) := by
  refine ⟨by simp, fun a b hab ha hb => ?_⟩
  -- the last element is in the second part, so that the first is in the row
  obtain ⟨b, y, rfl⟩ := (List.eq_nil_or_concat b).resolve_left hb
  rw [List.concat_eq_append, ← List.append_assoc] at hab
  obtain ⟨hrow, -⟩ := List.append_inj' hab rfl
  cases b with
  | nil =>
      rw [List.append_nil] at hrow
      exact hrow ▸ hclosed (hrow ▸ ha)
  | cons z b =>
      cases h with
      | inl hnil => simp [hnil] at hrow
      | inr h => exact h.not_closed a (z :: b) hrow ha (by simp)

/-- Elements join a row while no part of it is closed. -/
theorem fillRows_append (h : row ++ q = [] ∨ Grown closed (row ++ q)) :
    fillRows closed row (q ++ l) = fillRows closed (row ++ q) l := by
  induction q generalizing row with
  | nil => rw [List.nil_append, List.append_nil]
  | cons x q ih =>
      have hgrown : Grown closed (row ++ x :: q) := h.resolve_left (by simp)
      have hopen : ¬(!row.isEmpty && closed row) = true := by
        rintro hclosed
        rw [Bool.and_eq_true, Bool.not_eq_true', List.isEmpty_eq_false_iff] at hclosed
        have := hgrown.not_closed row (x :: q) rfl hclosed.1 (by simp)
        rw [this] at hclosed
        cases hclosed.2
      have happend : row ++ x :: q = (row ++ [x]) ++ q := by simp
      rw [List.cons_append, fillRows, if_neg hopen, ih (happend ▸ h), happend]

theorem Grown.fillRows (h : Grown closed row) : fillRows closed [] row = [row] := by
  have happend := @fillRows_append _ _ [] row [] (.inr h)
  rw [List.append_nil, List.nil_append] at happend
  rw [happend, MessengerClient.fillRows, if_neg]
  simpa using h.ne_nil

/-- A closed row is left alone. -/
theorem fillRows_of_closed (h : Grown closed row) (hclosed : closed row = true) :
    fillRows closed [] (row ++ l) = row :: fillRows closed [] l := by
  rw [fillRows_append (.inr h), List.nil_append]
  cases l with
  | nil => simp [fillRows, h.ne_nil]
  | cons x l => simp [fillRows, h.ne_nil, hclosed]

/-- **Complete rows** are the first rows, whatever comes after them. -/
theorem fillRows_of_complete (h : ∀ row ∈ rows, Grown closed row ∧ closed row = true) :
    fillRows closed [] (rows.flatten ++ l) = rows ++ fillRows closed [] l := by
  induction rows with
  | nil => rfl
  | cons row rows ih =>
      obtain ⟨hrow, hrows⟩ := List.forall_mem_cons.mp h
      rw [List.flatten_cons, List.append_assoc, fillRows_of_closed hrow.1 hrow.2, ih hrows,
        List.cons_append]

theorem filled_fillRows (h : row = [] ∨ Grown closed row) : Filled closed (fillRows closed row l) := by
  induction l generalizing row with
  | nil =>
      rw [fillRows]
      split
      · exact .nil
      · next hne => exact .last (h.resolve_left (by simpa using hne))
  | cons x l ih =>
      rw [fillRows]
      split
      · next hclosed =>
          rw [Bool.and_eq_true, Bool.not_eq_true', List.isEmpty_eq_false_iff] at hclosed
          exact .cons (h.resolve_left hclosed.1) hclosed.2 (ih (.inr (.singleton x)))
      · next hopen =>
          refine ih (.inr (.concat h fun hne => Bool.eq_false_of_not_eq_true fun hclosed => ?_))
          exact hopen (by simp [hne, hclosed])

namespace Filled

/-- **Filled rows are the rows** of what is in them. -/
theorem eq_fillRows (h : Filled closed rows) : rows = fillRows closed [] rows.flatten := by
  induction h with
  | nil => rfl
  | @last row h => rw [List.flatten_singleton, h.fillRows]
  | cons h hclosed _ ih => rw [List.flatten_cons, fillRows_of_closed h hclosed, ← ih]

theorem grown (h : Filled closed rows) : ∀ row ∈ rows, Grown closed row := by
  induction h with
  | nil => exact List.forall_mem_nil _
  | last h => exact List.forall_mem_singleton.mpr h
  | cons h _ _ ih => exact List.forall_mem_cons.mpr ⟨h, ih⟩

/-- All rows in front of a row are closed. -/
theorem complete {rest : List (List α)} (h : Filled closed (rows ++ rest)) (hrest : rest ≠ []) :
    ∀ row ∈ rows, Grown closed row ∧ closed row = true := by
  induction rows with
  | nil => exact List.forall_mem_nil _
  | cons row rows ih =>
      generalize hl : (row :: rows) ++ rest = l at h
      cases h with
      | nil => cases hl
      | last h =>
          obtain ⟨-, hnil⟩ := List.cons.inj hl
          exact absurd (List.append_eq_nil_iff.mp hnil).2 hrest
      | cons h hclosed hrows =>
          obtain ⟨rfl, rfl⟩ := List.cons.inj hl
          exact List.forall_mem_cons.mpr ⟨⟨h, hclosed⟩, ih hrows⟩

/-- Complete rows, and one more that is not closed before its end. -/
theorem concat (h : ∀ row ∈ rows, Grown closed row ∧ closed row = true)
    (hrow : Grown closed row) : Filled closed (rows ++ [row]) := by
  induction rows with
  | nil => exact .last hrow
  | cons first rows ih =>
      obtain ⟨hfirst, hrows⟩ := List.forall_mem_cons.mp h
      exact .cons hfirst.1 hfirst.2 (ih hrows)

theorem of_complete (h : ∀ row ∈ rows, Grown closed row ∧ closed row = true) :
    Filled closed rows := by
  induction rows with
  | nil => exact .nil
  | cons first rows ih =>
      obtain ⟨hfirst, hrows⟩ := List.forall_mem_cons.mp h
      exact .cons hfirst.1 hfirst.2 (ih hrows)

end Filled

/-- Every element is in a row, in its order. -/
theorem flatten_fillRows : (fillRows closed row l).flatten = row ++ l := by
  induction l generalizing row with
  | nil =>
      rw [fillRows]
      split
      · next hnil => simp [List.isEmpty_iff.mp hnil]
      · simp
  | cons x l ih =>
      rw [fillRows]
      split
      · rw [List.flatten_cons, ih, List.singleton_append]
      · rw [ih, List.append_assoc, List.singleton_append]

end MessengerClient
