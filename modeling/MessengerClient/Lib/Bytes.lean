import Mathlib.Algebra.Order.Ring.Int

/-!
# MessengerClient.Lib.Bytes

Byte strings, the conversions of fixed-width integers, and little-endian words.
-/

namespace MessengerClient

abbrev Bytes : Type := List UInt8

/-- Conversion to `uint32`. -/
def u32 (x : Int) : Nat := (x % 2 ^ 32).toNat

/-- Conversion to `int32`. -/
def i32 (x : Int) : Int := (BitVec.ofInt 32 x).toInt

theorem u32_of_lt {n : Nat} (h : n < 2 ^ 32) : u32 n = n := by
  unfold u32
  omega

theorem u32_lt (x : Int) : u32 x < 2 ^ 32 := by
  unfold u32
  omega

theorem i32_of_lt {n : Nat} (h : n < 2 ^ 31) : i32 n = n := by
  rw [i32, BitVec.toInt_ofInt, Int.bmod_def]
  split <;> omega

/-- Both conversions see the same residue. -/
theorem u32_i32 (x : Int) : u32 (i32 x) = u32 x := by
  have h := Int.bmod_emod (x := x) (m := 2 ^ 32)
  rw [i32, BitVec.toInt_ofInt]
  unfold u32
  omega

/-! ## Little-endian words -/

/-- The four bytes of a word, lowest first. -/
def le32 (x : Nat) : Bytes :=
  [UInt8.ofNat x, UInt8.ofNat (x / 2 ^ 8), UInt8.ofNat (x / 2 ^ 16), UInt8.ofNat (x / 2 ^ 24)]

/-- Read a word off the front. -/
def readLe32 : Bytes → Option (Nat × Bytes)
  | a :: b :: c :: d :: rest =>
      some (a.toNat + 2 ^ 8 * b.toNat + 2 ^ 16 * c.toNat + 2 ^ 24 * d.toNat, rest)
  | _ => none

@[simp] theorem length_le32 (x : Nat) : (le32 x).length = 4 := rfl

theorem readLe32_le32 {x : Nat} (h : x < 2 ^ 32) (rest : Bytes) :
    readLe32 (le32 x ++ rest) = some (x, rest) := by
  simp only [le32, readLe32, List.cons_append, List.nil_append, Option.some.injEq, Prod.mk.injEq,
    and_true, UInt8.toNat_ofNat']
  omega

end MessengerClient
