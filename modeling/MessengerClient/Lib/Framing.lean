import Mathlib.Algebra.Order.Ring.Int

/-!
# MessengerClient.Lib.Framing

A stream cut into frames by their heads.  A head, once it can be read, is not
changed by what comes after it, so the frames do not depend on how the stream is cut
into pieces on its way (`split_append`).
-/

namespace MessengerClient

/-- What the front of a stream says about its first frame. -/
inductive Head where
  | unknown
  | invalid
  | size (n : Nat)
deriving DecidableEq, Repr

/-- How heads are read: a frame is not empty, and more of the stream does not change
a head that was read. -/
structure Framing (α : Type) where
  head : List α → Head
  pos : ∀ {d n}, head d = .size n → 0 < n
  stable : ∀ {d}, head d ≠ .unknown → ∀ e, head (d ++ e) = head d

namespace Framing

variable {α : Type} (f : Framing α)

/-- The frames at the front of a stream, and what is left. -/
def split (d : List α) : List (List α) × List α :=
  match _h : f.head d with
  | .size n =>
    if _hn : n ≤ d.length then
      (d.take n :: (split (d.drop n)).1, (split (d.drop n)).2)
    else
      ([], d)
  | _ => ([], d)
termination_by d.length
decreasing_by
  all_goals
    have hpos := f.pos _h
    rw [List.length_drop]
    omega

/-- No whole frame is at the front. -/
def Stuck (d : List α) : Prop := ∀ n, f.head d = .size n → d.length < n

variable {f} {d : List α}

theorem split_of_size {n : Nat} (h : f.head d = .size n) (hn : n ≤ d.length) :
    f.split d = (d.take n :: (f.split (d.drop n)).1, (f.split (d.drop n)).2) := by
  rw [split]
  split
  · next m hm =>
    obtain rfl : n = m := Head.size.inj (h.symm.trans hm)
    rw [dif_pos hn]
  · next hnot => exact absurd h (hnot n)

theorem split_of_stuck (h : f.Stuck d) : f.split d = ([], d) := by
  rw [split]
  split
  · next n hn => rw [dif_neg (not_le.mpr (h n hn))]
  · rfl

theorem stuck_of_unknown (h : f.head d = .unknown) : f.Stuck d := fun n hn => by
  rw [h] at hn
  cases hn

theorem stuck_of_invalid (h : f.head d = .invalid) : f.Stuck d := fun n hn => by
  rw [h] at hn
  cases hn

/-- Induction along the frames at the front. -/
theorem split_induction {motive : List α → Prop} (stuck : ∀ d, f.Stuck d → motive d)
    (frame : ∀ d n, f.head d = .size n → n ≤ d.length → motive (d.drop n) → motive d)
    (d : List α) : motive d := by
  induction hlength : d.length using Nat.strongRecOn generalizing d with
  | _ l ih =>
    by_cases hstuck : f.Stuck d
    · exact stuck d hstuck
    · simp only [Stuck, not_forall, not_lt] at hstuck
      obtain ⟨n, hn, hle⟩ := hstuck
      have hpos := f.pos hn
      refine frame d n hn hle (ih (d.drop n).length ?_ _ rfl)
      rw [List.length_drop]
      omega

/-- What is left has no whole frame at its front. -/
theorem stuck_split (d : List α) : f.Stuck (f.split d).2 := by
  induction d using split_induction (f := f) with
  | stuck d h => rwa [split_of_stuck h]
  | frame d n h hn ih => rwa [split_of_size h hn]

/-- **The frames do not depend on the pieces**: the frames of a longer stream are
those of its front, and then those of what was left there with the rest. -/
theorem split_append (d e : List α) :
    f.split (d ++ e) = ((f.split d).1 ++ (f.split ((f.split d).2 ++ e)).1,
      (f.split ((f.split d).2 ++ e)).2) := by
  induction d using split_induction (f := f) with
  | stuck d h => rw [split_of_stuck h, List.nil_append]
  | frame d n h hn ih =>
    have hnot : f.head d ≠ .unknown := fun hu => by
      rw [h] at hu
      cases hu
    have happend : f.head (d ++ e) = .size n := (f.stable hnot e).trans h
    have hle : n ≤ (d ++ e).length := by
      rw [List.length_append]
      omega
    rw [split_of_size happend hle, List.take_append_of_le_length hn,
      List.drop_append_of_le_length hn, ih, split_of_size h hn, List.cons_append]

/-- Nothing is lost. -/
theorem flatten_split (d : List α) : (f.split d).1.flatten ++ (f.split d).2 = d := by
  induction d using split_induction (f := f) with
  | stuck d h => rw [split_of_stuck h, List.flatten_nil, List.nil_append]
  | frame d n h hn ih =>
    rw [split_of_size h hn, List.flatten_cons, List.append_assoc, ih, List.take_append_drop]

/-- A bad head stays where it is. -/
theorem split_append_invalid (h : f.head (f.split d).2 = .invalid) (e : List α) :
    f.split (d ++ e) = ((f.split d).1, (f.split d).2 ++ e) := by
  have hnot : f.head (f.split d).2 ≠ .unknown := fun hu => by
    rw [h] at hu
    cases hu
  have hstuck : f.Stuck ((f.split d).2 ++ e) := stuck_of_invalid ((f.stable hnot e).trans h)
  rw [split_append, split_of_stuck hstuck, List.append_nil]

/-- One whole frame. -/
theorem split_singleton {n : Nat} (h : f.head d = .size n) (hn : d.length = n)
    (hnil : f.head [] = .unknown) : f.split d = ([d], []) := by
  rw [split_of_size h hn.ge, ← hn, List.take_length, List.drop_length,
    split_of_stuck (stuck_of_unknown hnil)]

end Framing

end MessengerClient
