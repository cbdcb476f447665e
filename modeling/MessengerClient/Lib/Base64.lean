import Mathlib

/-!
# MessengerClient.Lib.Base64

Decoding of base64url: six bits for each character of the alphabet, a byte whenever eight
have come.  Other characters, as the padding, are passed over, and the bits that do not
fill a byte are dropped.
-/

namespace MessengerClient

namespace Base64

/-- Whether the code of a character is in a range of characters. -/
def charBetween (first last : Char) (code : Nat) : Bool :=
  first.toNat ≤ code && code ≤ last.toNat

/-- The six bits of a character. -/
def digit? (code : Nat) : Option Nat :=
  if charBetween 'A' 'Z' code then some (code - 'A'.toNat)
  else if charBetween 'a' 'z' code then some (code - 'a'.toNat + 26)
  else if charBetween '0' '9' code then some (code - '0'.toNat + 52)
  else if code = '-'.toNat then some 62
  else if code = '_'.toNat then some 63
  else none

/-- The bytes of what follows `nbits` bits that are left in `buf`. -/
def decodeFrom : List Nat → Nat → Nat → List UInt8
  | [], _, _ => []
  | code :: codes, buf, nbits =>
      match digit? code with
      | none => decodeFrom codes buf nbits
      | some d =>
          if nbits + 6 ≥ 8 then
            UInt8.ofNat ((buf * 64 + d) / 2 ^ (nbits - 2)) ::
              decodeFrom codes ((buf * 64 + d) % 2 ^ (nbits - 2)) (nbits - 2)
          else
            decodeFrom codes (buf * 64 + d) (nbits + 6)

def decode (codes : List Nat) : List UInt8 := decodeFrom codes 0 0

variable {code : Nat} {codes codes' : List Nat} {buf nbits : Nat}

theorem charBetween_iff {first last : Char} :
    charBetween first last code = true ↔ first.toNat ≤ code ∧ code ≤ last.toNat := by
  rw [charBetween, Bool.and_eq_true, decide_eq_true_eq, decide_eq_true_eq]

theorem digit?_lt {d : Nat} (h : digit? code = some d) : d < 64 := by
  simp only [digit?, charBetween_iff, Char.reduceToNat] at h
  grind

theorem decodeFrom_cons_of_none (h : digit? code = none) :
    decodeFrom (code :: codes) buf nbits = decodeFrom codes buf nbits := by
  rw [decodeFrom, h]

/-- Characters outside the alphabet at the end add nothing. -/
theorem decodeFrom_append (h : ∀ code ∈ codes', digit? code = none) :
    decodeFrom (codes ++ codes') buf nbits = decodeFrom codes buf nbits := by
  induction codes generalizing buf nbits with
  | nil =>
      induction codes' with
      | nil => rfl
      | cons code codes' ih =>
          rw [List.nil_append, decodeFrom_cons_of_none (h code List.mem_cons_self)]
          exact ih fun code' hcode => h code' (List.mem_cons_of_mem code hcode)
  | cons code codes ih =>
      rw [List.cons_append, decodeFrom, decodeFrom]
      cases digit? code with
      | none => exact ih
      | some d =>
          dsimp only
          split
          · rw [ih]
          · exact ih

/-- **The number of bytes** is that of the full groups of eight bits. -/
theorem length_decodeFrom (h : ∀ code ∈ codes, (digit? code).isSome = true) (hnbits : nbits < 8) :
    (decodeFrom codes buf nbits).length = (nbits + 6 * codes.length) / 8 := by
  induction codes generalizing buf nbits with
  | nil =>
      rw [decodeFrom, List.length_nil, List.length_nil]
      omega
  | cons code codes ih =>
      obtain ⟨hcode, hcodes⟩ := List.forall_mem_cons.mp h
      obtain ⟨d, hd⟩ := Option.isSome_iff_exists.mp hcode
      rw [decodeFrom, hd]
      dsimp only
      split
      · next hfull =>
        rw [List.length_cons, ih hcodes (by omega), List.length_cons]
        omega
      · next hfull =>
        rw [ih hcodes (by omega), List.length_cons]
        omega

theorem length_decode (h : ∀ code ∈ codes, (digit? code).isSome = true) :
    (decode codes).length = codes.length * 3 / 4 := by
  rw [decode, length_decodeFrom h (by decide)]
  omega

/-- **The first byte** is made of the first two characters. -/
theorem head?_decode {code' d d' : Nat} (h : digit? code = some d) (h' : digit? code' = some d') :
    (decode (code :: code' :: codes)).head? = some (UInt8.ofNat (d * 4 + d' / 16)) := by
  have hvalue : (d * 64 + d') / 2 ^ 4 = d * 4 + d' / 16 := by omega
  rw [decode, decodeFrom, h]
  dsimp only
  rw [if_neg (by decide), decodeFrom, h']
  dsimp only
  rw [if_pos (by decide), Nat.zero_mul, Nat.zero_add, hvalue]
  rfl

end Base64

end MessengerClient
