import MessengerClient.Lib.Utf8
import Mathlib

/-!
# MessengerClient.Lib.Texts

Conversions of texts, as Qt does them: from and to UTF-8, Latin-1 and percent encoding, and
numbers to and from decimal digits.

Percent encoding is undone on any bytes (`percentDecode_percentEncode`), and numbers are read
back (`toULongLong_number`, `toInt_number`).  A text comes back from its UTF-8 unless it begins with
a byte order mark, which is skipped (`fromUtf8_encode`).
-/

namespace MessengerClient

namespace Texts

open Utf8

/-! ## UTF-8 and Latin-1 -/

/-- One replacement character for each byte that belongs to no character. -/
def decode : Bytes → List Char
  | [] => []
  | b :: rest =>
    match ByteArray.utf8DecodeChar? (b :: rest).toByteArray 0 with
    | some c => c :: decode ((b :: rest).drop c.utf8Size)
    | none => '\uFFFD' :: decode rest
termination_by bs => bs.length
decreasing_by
  · have hpos := c.utf8Size_pos
    rw [List.length_drop, List.length_cons]
    omega
  · exact Nat.lt_succ_self _

def byteOrderMark : Char := '\uFEFF'

/-- `QString::fromUtf8`, which skips a byte order mark. -/
def fromUtf8 (bytes : Bytes) : List Char :=
  if encode [byteOrderMark] <+: bytes then decode (bytes.drop 3) else decode bytes

/-- `QString::toLatin1`, with a question mark for each unit that is not of Latin-1. -/
def toLatin1 (text : List Char) : Bytes :=
  text.flatMap fun c =>
    if c.toNat < 0x100 then [UInt8.ofNat c.toNat]
    else if c.toNat < 0x10000 then [0x3F]
    else [0x3F, 0x3F]

variable {c : Char} {cs : List Char} {bs rest : Bytes} {b : UInt8}

theorem decode_append (c : Char) (rest : Bytes) :
    decode (String.utf8EncodeChar c ++ rest) = c :: decode rest := by
  have hread : ByteArray.utf8DecodeChar? (String.utf8EncodeChar c ++ rest).toByteArray 0 =
      some c := by
    rw [List.toByteArray_append]
    exact ByteArray.utf8DecodeChar?_utf8EncodeChar_append
  have hdrop : (String.utf8EncodeChar c ++ rest).drop c.utf8Size = rest := by
    rw [← String.length_utf8EncodeChar, List.drop_left]
  obtain ⟨b, bs, hcons⟩ := List.exists_cons_of_ne_nil (encodeChar_ne_nil c)
  rw [hcons, List.cons_append] at hread hdrop ⊢
  rw [decode, hread]
  simp only [hdrop]

@[simp] theorem decode_encode (cs : List Char) : decode (encode cs) = cs := by
  induction cs with
  | nil => simp [decode]
  | cons c cs ih => rw [encode_cons, decode_append, ih]

/-- **A text comes back from its UTF-8**, without the mark it begins with. -/
theorem fromUtf8_encode (cs : List Char) : fromUtf8 (encode cs) =
    if cs.head? = some byteOrderMark then cs.tail else cs := by
  rw [fromUtf8]
  split
  · next hmark =>
    obtain ⟨rest, hrest⟩ := hmark
    obtain ⟨ds, rfl, rfl⟩ := exists_of_encode_append hrest
    have hdrop : (encode ([byteOrderMark] ++ ds)).drop 3 = encode ds := rfl
    rw [hdrop, decode_encode]
    simp
  · next hmark =>
    rw [if_neg, decode_encode]
    intro hhead
    obtain ⟨ds, rfl⟩ := List.head?_eq_some_iff.mp hhead
    exact hmark ⟨encode ds, by rw [← encode_append]; rfl⟩

theorem fromUtf8_encode_iff : fromUtf8 (encode cs) = cs ↔ cs.head? ≠ some byteOrderMark := by
  rw [fromUtf8_encode]
  cases cs with
  | nil => simp
  | cons c cs => simp

/-- ASCII bytes, as characters. -/
def asciiText (bs : Bytes) : List Char := bs.map fun b => Char.ofNat b.toNat

theorem toNat_ofByte (b : UInt8) : (Char.ofNat b.toNat).toNat = b.toNat := by
  have hlt := b.toNat_lt
  rw [Char.toNat_ofNat, if_pos]
  rw [Nat.isValidChar]
  omega

theorem encode_asciiText (h : ∀ b ∈ bs, b.toNat < 0x80) : encode (asciiText bs) = bs := by
  induction bs with
  | nil => rfl
  | cons b bs ih =>
    obtain ⟨hb, hbs⟩ := List.forall_mem_cons.mp h
    have hchar : (Char.ofNat b.toNat).toNat < 0x80 := by rwa [toNat_ofByte]
    have hrest := ih hbs
    rw [asciiText] at hrest ⊢
    rw [List.map_cons, encode_cons, encodeChar_of_lt hchar, toNat_ofByte, UInt8.ofNat_toNat, hrest]
    rfl

/-- **ASCII bytes are read as what they are.** -/
theorem fromUtf8_ascii (h : ∀ b ∈ bs, b.toNat < 0x80) : fromUtf8 bs = asciiText bs := by
  have hmark : (asciiText bs).head? ≠ some byteOrderMark := by
    intro hhead
    have hmem := List.mem_of_mem_head? (Option.mem_def.mpr hhead)
    rw [asciiText, List.mem_map] at hmem
    obtain ⟨b, hb, hchar⟩ := hmem
    have hsmall := h b hb
    rw [← toNat_ofByte b, hchar] at hsmall
    exact absurd hsmall (by decide)
  conv_lhs => rw [← encode_asciiText h]
  exact fromUtf8_encode_iff.mpr hmark

theorem toLatin1_asciiText (h : ∀ b ∈ bs, b.toNat < 0x80) : toLatin1 (asciiText bs) = bs := by
  induction bs with
  | nil => rfl
  | cons b bs ih =>
    obtain ⟨hb, hbs⟩ := List.forall_mem_cons.mp h
    have hrest := ih hbs
    rw [asciiText, toLatin1] at hrest ⊢
    rw [List.map_cons, List.flatMap_cons, hrest, toNat_ofByte, if_pos (hb.trans (by decide)),
      UInt8.ofNat_toNat]
    rfl

/-! ## Percent encoding -/

/-- Letters, digits, `-`, `.`, `_` and `~`. -/
def isUnreserved (b : UInt8) : Bool :=
  (0x61 ≤ b && b ≤ 0x7A) || (0x41 ≤ b && b ≤ 0x5A) || (0x30 ≤ b && b ≤ 0x39) || b == 0x2D ||
    b == 0x2E || b == 0x5F || b == 0x7E

def percent : UInt8 := 0x25

def hexDigit (n : Nat) : UInt8 := UInt8.ofNat (if n < 10 then 0x30 + n else 0x41 + n - 10)

/-- What is no digit is read as its code. -/
def hexValue (b : UInt8) : Nat :=
  if 0x30 ≤ b ∧ b ≤ 0x39 then b.toNat - 0x30
  else if 0x61 ≤ b ∧ b ≤ 0x66 then b.toNat - 0x61 + 10
  else if 0x41 ≤ b ∧ b ≤ 0x46 then b.toNat - 0x41 + 10
  else b.toNat

def percentEncodeByte (b : UInt8) : Bytes :=
  if isUnreserved b then [b] else [percent, hexDigit (b.toNat / 16), hexDigit (b.toNat % 16)]

/-- `QByteArray::toPercentEncoding`. -/
def percentEncode (bs : Bytes) : Bytes := bs.flatMap percentEncodeByte

/-- `QByteArray::fromPercentEncoding`: a percent sign without two bytes after it stays. -/
def percentDecode : Bytes → Bytes
  | b :: high :: low :: rest =>
    if b = percent then UInt8.ofNat (hexValue high <<< 4 ||| hexValue low) :: percentDecode rest
    else b :: percentDecode (high :: low :: rest)
  | rest => rest

theorem percentDecode_cons_of_ne (h : b ≠ percent) :
    percentDecode (b :: rest) = b :: percentDecode rest := by
  cases rest with
  | nil => rfl
  | cons high rest =>
    cases rest with
    | nil => rfl
    | cons low rest => rw [percentDecode, if_neg h]

theorem isUnreserved_percent : isUnreserved percent = false := by decide

/-- The two digits of a byte. -/
theorem hexValue_digits (b : UInt8) :
    UInt8.ofNat (hexValue (hexDigit (b.toNat / 16)) <<< 4 ||| hexValue (hexDigit (b.toNat % 16))) =
      b := by
  have hall : ∀ n < 256, (UInt8.ofNat (hexValue (hexDigit (n / 16)) <<< 4 |||
      hexValue (hexDigit (n % 16)))).toNat = n := by decide +kernel
  exact UInt8.toNat_inj.mp (hall b.toNat b.toNat_lt)

/-- **Any bytes come back from their percent encoding.** -/
theorem percentDecode_percentEncode_append (bs rest : Bytes) :
    percentDecode (percentEncode bs ++ rest) = bs ++ percentDecode rest := by
  induction bs with
  | nil => rfl
  | cons b bs ih =>
    rw [percentEncode] at ih ⊢
    rw [List.flatMap_cons, List.append_assoc, percentEncodeByte]
    split
    · next hb =>
      have hne : b ≠ percent := by
        rintro rfl
        rw [isUnreserved_percent] at hb
        cases hb
      rw [List.singleton_append, percentDecode_cons_of_ne hne, ih, List.cons_append]
    · simp only [List.cons_append, List.nil_append, percentDecode, if_true, hexValue_digits, ih]

theorem percentDecode_percentEncode (bs : Bytes) : percentDecode (percentEncode bs) = bs := by
  simpa [percentDecode] using percentDecode_percentEncode_append bs []

/-- What percent encoding writes. -/
theorem mem_percentEncode (h : b ∈ percentEncode bs) : isUnreserved b ∨ b = percent := by
  have hdigit : ∀ n < 16, isUnreserved (hexDigit n) := by decide +kernel
  rw [percentEncode, List.mem_flatMap] at h
  obtain ⟨c, -, hb⟩ := h
  rw [percentEncodeByte] at hb
  split at hb
  · next hc =>
    rw [List.mem_singleton] at hb
    exact .inl (hb ▸ hc)
  · have hlt := c.toNat_lt
    simp only [List.mem_cons, List.not_mem_nil, or_false] at hb
    rcases hb with rfl | rfl | rfl
    · exact .inr rfl
    · exact .inl (hdigit _ (by omega))
    · exact .inl (hdigit _ (by omega))

theorem lt_of_isUnreserved : ∀ b : UInt8, isUnreserved b ∨ b = percent → b.toNat < 0x80 := by
  have hall : ∀ n < 256, isUnreserved (UInt8.ofNat n) ∨ UInt8.ofNat n = percent → n < 0x80 := by
    decide +kernel
  intro b hb
  refine hall b.toNat b.toNat_lt ?_
  rwa [UInt8.ofNat_toNat]

/-! ## Numbers -/

/-- `QChar::isSpace`. -/
def isSpace (c : Char) : Bool :=
  c.toNat == 0x20 || (0x09 ≤ c.toNat && c.toNat ≤ 0x0D) || c.toNat == 0x85 || c.toNat == 0xA0
    || c.toNat == 0x1680 || (0x2000 ≤ c.toNat && c.toNat ≤ 0x200A) || c.toNat == 0x2028
    || c.toNat == 0x2029 || c.toNat == 0x202F || c.toNat == 0x205F || c.toNat == 0x3000

def trimmed (text : List Char) : List Char := (text.dropWhile isSpace).rdropWhile isSpace

/-- The digits after a sign. -/
def digits? (text : List Char) : Option Nat :=
  if text ≠ [] ∧ text.all Char.isDigit then some (Nat.ofDigitChars 10 text 0) else none

/-- A number with or without a sign, and white space around it. -/
def integer? (text : List Char) : Option Int :=
  match trimmed text with
  | '-' :: text => (digits? text).map fun n : Nat => -(n : Int)
  | '+' :: text => (digits? text).map (↑)
  | text => (digits? text).map (↑)

/-- `QString::toULongLong`. -/
def toULongLong (text : List Char) : Option UInt64 :=
  match trimmed text with
  | '-' :: _ => none
  | _ => (integer? text).bind fun n => if n < 2 ^ 64 then some (UInt64.ofNat n.toNat) else none

/-- `QString::toInt`. -/
def toInt (text : List Char) : Option Int32 :=
  (integer? text).bind fun n =>
    if -2 ^ 31 ≤ n ∧ n < 2 ^ 31 then some (Int32.ofInt n) else none

/-- `QString::number`. -/
def number (n : Int) : List Char :=
  if n < 0 then '-' :: Nat.toDigits 10 n.natAbs else Nat.toDigits 10 n.natAbs

theorem isDigit_of_mem {n : Nat} (h : c ∈ Nat.toDigits 10 n) : c.isDigit :=
  Nat.isDigit_of_mem_toDigits (by decide) le_rfl h

theorem not_isSpace_of_isDigit (h : c.isDigit) : isSpace c = false := by
  simp only [Char.isDigit, Bool.and_eq_true, decide_eq_true_eq, ge_iff_le, UInt32.le_iff_toNat_le]
    at h
  have hlow : 48 ≤ c.toNat := h.1
  have hhigh : c.toNat ≤ 57 := h.2
  simp only [isSpace, Bool.or_eq_false_iff, Bool.and_eq_false_iff, beq_eq_false_iff_ne,
    decide_eq_false_iff_not]
  omega

theorem trimmed_of_forall {text : List Char} (h : ∀ c ∈ text, isSpace c = false) :
    trimmed text = text := by
  have hleft : text.dropWhile isSpace = text := by
    cases text with
    | nil => rfl
    | cons c text => rw [List.dropWhile_cons_of_neg (by simp [h c List.mem_cons_self])]
  have hright : text.rdropWhile isSpace = text := by
    rw [List.rdropWhile_eq_self_iff]
    intro hne hlast
    rw [h _ (List.getLast_mem hne)] at hlast
    cases hlast
  rw [trimmed, hleft, hright]

@[simp] theorem digits?_toDigits (n : Nat) : digits? (Nat.toDigits 10 n) = some n := by
  have hall : (Nat.toDigits 10 n).all Char.isDigit = true :=
    List.all_eq_true.mpr fun c hc => isDigit_of_mem hc
  rw [digits?, if_pos ⟨Nat.toDigits_ne_nil, hall⟩, Nat.ofDigitChars_ten_toDigits]

theorem trimmed_number (n : Int) : trimmed (number n) = number n := by
  refine trimmed_of_forall fun c hc => ?_
  rw [number] at hc
  split at hc
  · obtain rfl | hc := List.mem_cons.mp hc
    · rfl
    · exact not_isSpace_of_isDigit (isDigit_of_mem hc)
  · exact not_isSpace_of_isDigit (isDigit_of_mem hc)

/-- Digits begin with no sign. -/
theorem toDigits_head {n : Nat} : ∃ c text, Nat.toDigits 10 n = c :: text ∧ c ≠ '-' ∧ c ≠ '+' := by
  obtain ⟨c, text, hcons⟩ := List.exists_cons_of_ne_nil (@Nat.toDigits_ne_nil n 10)
  have hdigit := isDigit_of_mem (hcons ▸ List.mem_cons_self : c ∈ Nat.toDigits 10 n)
  refine ⟨c, text, hcons, ?_, ?_⟩
  · rintro rfl
    exact absurd hdigit (by decide)
  · rintro rfl
    exact absurd hdigit (by decide)

@[simp] theorem integer?_number (n : Int) : integer? (number n) = some n := by
  rw [integer?, trimmed_number, number]
  by_cases hneg : n < 0
  · rw [if_pos hneg]
    simp only [digits?_toDigits, Option.map_some]
    congr 1
    omega
  · rw [if_neg hneg]
    obtain ⟨c, text, hcons, hminus, hplus⟩ := @toDigits_head n.natAbs
    have hdigits := digits?_toDigits n.natAbs
    rw [hcons] at hdigits ⊢
    split
    · next heq => exact absurd (List.cons.inj heq).1 hminus
    · next heq => exact absurd (List.cons.inj heq).1 hplus
    · rw [hdigits, Option.map_some]
      congr 1
      omega

theorem number_inj {m n : Int} (h : number m = number n) : m = n := by
  have hread := congrArg integer? h
  simpa using hread

/-- **A number comes back from its digits.** -/
theorem toULongLong_number (n : UInt64) : toULongLong (number n.toNat) = some n := by
  rw [toULongLong, trimmed_number, integer?_number, number, if_neg (by omega)]
  obtain ⟨c, text, hcons, hminus, -⟩ := @toDigits_head (n.toNat : Int).natAbs
  rw [hcons]
  split
  · next heq => exact absurd (List.cons.inj heq).1 hminus
  · have hlt : (n.toNat : Int) < 2 ^ 64 := by exact_mod_cast n.toNat_lt
    rw [Option.bind_some, if_pos hlt, Int.toNat_natCast, UInt64.ofNat_toNat]

theorem toInt_number (n : Int32) : toInt (number n.toInt) = some n := by
  rw [toInt, integer?_number, Option.bind_some, if_pos ⟨n.le_toInt, n.toInt_lt⟩,
    Int32.ofInt_toInt]

/-- The digits of a number but zero begin with no zero. -/
theorem head?_toDigits {n : Nat} (h : 0 < n) : (Nat.toDigits 10 n).head? ≠ some '0' := by
  induction n using Nat.strong_induction_on with
  | _ n ih =>
    by_cases hlt : n < 10
    · rw [Nat.toDigits_of_lt_base hlt]
      interval_cases n <;> decide
    · rw [Nat.toDigits_of_base_le (by decide) (by omega), List.head?_append_of_ne_nil _
        Nat.toDigits_ne_nil]
      exact ih (n / 10) (by omega) (by omega)

theorem mem_number {n : Int} (h : c ∈ number n) : c = '-' ∨ c.isDigit := by
  rw [number] at h
  split at h
  · exact (List.mem_cons.mp h).imp_right isDigit_of_mem
  · exact .inr (isDigit_of_mem h)

end Texts

end MessengerClient
