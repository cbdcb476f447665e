import Mathlib.Algebra.Order.Ring.Int

/-!
# MessengerClient.Lib.Blob

Arrays of bytes given by their length and the byte at each position, so that the size of
a slice of a large array is found without walking the array.
-/

namespace MessengerClient

structure Blob where
  size : Nat
  byte : Fin size → UInt8

namespace Blob

def empty : Blob := ⟨0, fun i => i.elim0⟩

instance : Inhabited Blob := ⟨empty⟩

def isEmpty (b : Blob) : Bool := b.size == 0

/-- An array of one byte repeated. -/
def replicate (n : Nat) (byte : UInt8) : Blob := ⟨n, fun _ => byte⟩

/-- The bytes from `pos` on, `len` of them at most. -/
def slice (b : Blob) (pos len : Nat) : Blob :=
  ⟨min len (b.size - pos), fun i => b.byte ⟨pos + i, by have := i.isLt; omega⟩⟩

/-- The same with a start that may lie before the array: it shortens the slice. -/
def mid (b : Blob) (pos : Int) (len : Nat) : Blob :=
  if 0 ≤ pos then b.slice pos.toNat len else b.slice 0 (len + pos).toNat

@[simp] theorem size_empty : empty.size = 0 := rfl

@[simp] theorem size_slice (b : Blob) (pos len : Nat) :
    (b.slice pos len).size = min len (b.size - pos) := rfl

theorem isEmpty_iff {b : Blob} : b.isEmpty = true ↔ b.size = 0 := beq_iff_eq

theorem isEmpty_eq_false_iff {b : Blob} : b.isEmpty = false ↔ 0 < b.size := by
  rw [isEmpty, beq_eq_false_iff_ne]
  exact Nat.pos_iff_ne_zero.symm

theorem mid_of_nonneg (b : Blob) (pos len : Nat) : b.mid pos len = b.slice pos len := by
  simp [mid]

/-- A slice that would end before the array starts has no bytes. -/
theorem size_mid_of_neg (b : Blob) {pos : Int} {len : Nat} (h : len + pos ≤ 0)
    (hpos : pos < 0) : (b.mid pos len).size = 0 := by
  rw [mid, if_neg (by omega), size_slice, Int.toNat_of_nonpos h, Nat.zero_min]

end Blob

end MessengerClient
