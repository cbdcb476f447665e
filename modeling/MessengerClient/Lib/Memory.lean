import Mathlib.Algebra.Order.Ring.Int

/-!
# MessengerClient.Lib.Memory

Places in a buffer: what stands at a place, and what is there after a write at
another one.
-/

namespace MessengerClient

variable {α : Type} {buffer items : List α} {start size i : Nat}

/-- The items of the place of `size` from `start`. -/
def slice (buffer : List α) (start size : Nat) : List α := (buffer.drop start).take size

/-- The items are written at `start`. -/
def paste (buffer : List α) (start : Nat) (items : List α) : List α :=
  buffer.take start ++ items ++ buffer.drop (start + items.length)

theorem getElem?_slice : (slice buffer start size)[i]? =
    if i < size then buffer[start + i]? else none := by
  rw [slice, List.getElem?_take, List.getElem?_drop]

theorem getElem?_paste (h : start ≤ buffer.length) :
    (paste buffer start items)[i]? =
      if start ≤ i ∧ i < start + items.length then items[i - start]? else buffer[i]? := by
  rw [paste, List.append_assoc, List.getElem?_append, List.length_take, Nat.min_eq_left h]
  split
  · next hlt => rw [if_neg (by omega), List.getElem?_take_of_lt hlt]
  · next hge =>
    rw [List.getElem?_append]
    split
    · next hlt => rw [if_pos ⟨by omega, by omega⟩]
    · next hge' =>
      rw [if_neg (by omega), List.getElem?_drop]
      congr 1
      omega

theorem length_slice (h : start + size ≤ buffer.length) : (slice buffer start size).length = size := by
  rw [slice, List.length_take, List.length_drop]
  omega

theorem length_paste (h : start + items.length ≤ buffer.length) :
    (paste buffer start items).length = buffer.length := by
  rw [paste, List.length_append, List.length_append, List.length_take, List.length_drop]
  omega

@[simp] theorem slice_zero_size : slice buffer start 0 = [] := List.take_zero

theorem take_slice (n : Nat) : (slice buffer start size).take n = slice buffer start (min n size) :=
  List.take_take

theorem drop_slice (n : Nat) :
    (slice buffer start size).drop n = slice buffer (start + n) (size - n) := by
  rw [slice, slice, List.drop_take, List.drop_drop]

/-- A place outside of the written one. -/
theorem slice_paste_of_disjoint {place : Nat} (h : place ≤ buffer.length)
    (hdisjoint : start + size ≤ place ∨ place + items.length ≤ start) :
    slice (paste buffer place items) start size = slice buffer start size := by
  refine List.ext_getElem? fun i => ?_
  rw [getElem?_slice, getElem?_slice]
  split
  · next hi =>
    rw [getElem?_paste h, if_neg]
    omega
  · rfl

/-- A place that the write makes longer. -/
theorem slice_paste_extend (h : start + size ≤ buffer.length) :
    slice (paste buffer (start + size) items) start (size + items.length) =
      slice buffer start size ++ items := by
  refine List.ext_getElem? fun i => ?_
  rw [getElem?_slice, List.getElem?_append, length_slice h, getElem?_paste h, getElem?_slice]
  by_cases hi : i < size
  · rw [if_pos (by omega), if_neg (by omega), if_pos hi, if_pos hi]
  · rw [if_neg hi]
    by_cases hend : i < size + items.length
    · rw [if_pos hend, if_pos (by omega)]
      congr 1
      omega
    · rw [if_neg hend, List.getElem?_eq_none (by omega)]

/-- The written place itself. -/
theorem slice_paste_self (h : start ≤ buffer.length) :
    slice (paste buffer start items) start items.length = items := by
  have hextend : slice (paste buffer (start + 0) items) start (0 + items.length) = _ :=
    slice_paste_extend (show start + 0 ≤ buffer.length from h)
  rwa [Nat.zero_add, Nat.add_zero, slice_zero_size, List.nil_append] at hextend

end MessengerClient
