import MessengerClient.Lib.Bytes
import Mathlib

/-!
# MessengerClient.Lib.Utf8

Texts as UTF-8 bytes, and rewriting of such bytes by a loop that sees one byte and what comes
after it.

The bytes of one character are not the beginning of those of another (`encodeChar_append_inj`),
so what is left behind the characters of a valid text is valid itself
(`exists_of_encode_append`).  A loop that writes other characters for each character of a text
turns it into valid UTF-8 (`rewrite_encode`).
-/

namespace MessengerClient

namespace Utf8

open String (utf8EncodeChar)

/-! ## Texts and their bytes -/

def encode (cs : List Char) : Bytes := cs.flatMap utf8EncodeChar

@[simp] theorem encode_nil : encode [] = [] := rfl

@[simp] theorem encode_cons (c : Char) (cs : List Char) :
    encode (c :: cs) = utf8EncodeChar c ++ encode cs := rfl

@[simp] theorem encode_append (cs ds : List Char) :
    encode (cs ++ ds) = encode cs ++ encode ds := List.flatMap_append

theorem encodeChar_of_lt {c : Char} (h : c.toNat < 0x80) :
    utf8EncodeChar c = [UInt8.ofNat c.toNat] := by
  rw [utf8EncodeChar]
  exact if_pos (Nat.le_of_lt_succ h)

/-- **A character is read off the front of its bytes in one way.** -/
theorem encodeChar_append_inj {c d : Char} {t u : Bytes}
    (h : utf8EncodeChar c ++ t = utf8EncodeChar d ++ u) : c = d ∧ t = u := by
  have hdecode : ∀ (c : Char) (t : Bytes),
      ByteArray.utf8DecodeChar? (utf8EncodeChar c ++ t).toByteArray 0 = some c := by
    intro c t
    rw [List.toByteArray_append]
    exact ByteArray.utf8DecodeChar?_utf8EncodeChar_append
  have hc : c = d := by
    have hboth := hdecode c t
    rw [h, hdecode d u] at hboth
    exact (Option.some.inj hboth).symm
  rw [hc] at h
  exact ⟨hc, List.append_cancel_left h⟩

theorem encodeChar_inj {c d : Char} (h : utf8EncodeChar c = utf8EncodeChar d) : c = d := by
  have happend : utf8EncodeChar c ++ [] = utf8EncodeChar d ++ [] := by rw [h]
  exact (encodeChar_append_inj happend).1

theorem encodeChar_ne_nil (c : Char) : utf8EncodeChar c ≠ [] := by
  rw [← List.length_pos_iff, String.length_utf8EncodeChar]
  exact c.utf8Size_pos

/-- What comes after some characters of a text are the other characters. -/
theorem exists_of_encode_append {cs ds : List Char} {t : Bytes}
    (h : encode cs ++ t = encode ds) : ∃ es, ds = cs ++ es ∧ t = encode es := by
  induction cs generalizing ds with
  | nil => exact ⟨ds, rfl, h⟩
  | cons c cs ih =>
    rw [encode_cons, List.append_assoc] at h
    cases ds with
    | nil => exact absurd (List.append_eq_nil_iff.mp h).1 (encodeChar_ne_nil c)
    | cons d ds =>
      obtain ⟨rfl, htail⟩ := encodeChar_append_inj h
      obtain ⟨es, rfl, ht⟩ := ih htail
      exact ⟨es, rfl, ht⟩

theorem encode_inj {cs ds : List Char} (h : encode cs = encode ds) : cs = ds := by
  have happend : encode cs ++ [] = encode ds := by rw [List.append_nil, h]
  obtain ⟨es, rfl, hes⟩ := exists_of_encode_append happend
  cases es with
  | nil => rw [List.append_nil]
  | cons e es => exact absurd (List.append_eq_nil_iff.mp hes.symm).1 (encodeChar_ne_nil e)

/-- The bytes of a text do not begin with a continuation byte. -/
theorem isFirst_of_encode {cs : List Char} {b : UInt8} {t : Bytes} (h : encode cs = b :: t) :
    b.IsUTF8FirstByte := by
  cases cs with
  | nil => cases h
  | cons c cs =>
    have hpos : 0 < (utf8EncodeChar c).length := List.length_pos_iff.mpr (encodeChar_ne_nil c)
    have hhead : (utf8EncodeChar c)[0] = b := by
      have hget : (utf8EncodeChar c ++ encode cs)[0]? = some b := by
        rw [← encode_cons, h]
        rfl
      rw [List.getElem?_append_left hpos, List.getElem?_eq_getElem hpos] at hget
      exact Option.some.inj hget
    rw [← hhead]
    exact UInt8.isUTF8FirstByte_getElem_utf8EncodeChar.mpr rfl

/-! ## The bytes of one character -/

theorem toNat_ascii {c : Char} (h : c.toNat < 0x80) : (UInt8.ofNat c.toNat).toNat = c.toNat :=
  UInt8.toNat_ofNat_of_lt' (h.trans (by decide))

/-- Different ASCII characters have different bytes. -/
theorem ascii_ne {c d : Char} (hc : c.toNat < 0x80) (hd : d.toNat < 0x80) (hne : c ≠ d) :
    UInt8.ofNat c.toNat ≠ UInt8.ofNat d.toNat := by
  intro heq
  have htoNat := congrArg UInt8.toNat heq
  rw [toNat_ascii hc, toNat_ascii hd] at htoNat
  exact hne (Char.toNat_inj.mp htoNat)

theorem ge_of_mem_encodeChar {c : Char} (h : 0x80 ≤ c.toNat) {b : UInt8}
    (hb : b ∈ utf8EncodeChar c) : 0x80 ≤ b.toNat := by
  have hrange : c.val.toNat < 0x110000 := by
    have hvalid := c.valid
    unfold UInt32.isValidChar Nat.isValidChar at hvalid
    omega
  change 0x80 ≤ c.val.toNat at h
  rw [utf8EncodeChar] at hb
  split at hb
  · omega
  split at hb
  · simp only [List.mem_cons, List.not_mem_nil, or_false] at hb
    rcases hb with rfl | rfl <;> rw [UInt8.toNat_ofNat'] <;> omega
  split at hb
  · simp only [List.mem_cons, List.not_mem_nil, or_false] at hb
    rcases hb with rfl | rfl | rfl <;> rw [UInt8.toNat_ofNat'] <;> omega
  · simp only [List.mem_cons, List.not_mem_nil, or_false] at hb
    rcases hb with rfl | rfl | rfl | rfl <;> rw [UInt8.toNat_ofNat'] <;> omega

/-- A byte `0xe2` begins a character of three bytes. -/
theorem length_of_head {c : Char} {t : Bytes} (h : utf8EncodeChar c = 0xe2 :: t) :
    t.length = 2 := by
  have hbyte : (0xe2 : UInt8).toNat = 226 := rfl
  rw [utf8EncodeChar] at h
  split at h
  · have hhead := congrArg UInt8.toNat (List.cons.inj h).1
    rw [UInt8.toNat_ofNat', hbyte] at hhead
    omega
  split at h
  · have hhead := congrArg UInt8.toNat (List.cons.inj h).1
    rw [UInt8.toNat_ofNat', hbyte] at hhead
    omega
  split at h
  · exact (List.cons.inj h).2 ▸ rfl
  · have hhead := congrArg UInt8.toNat (List.cons.inj h).1
    rw [UInt8.toNat_ofNat', hbyte] at hhead
    omega

/-- Three bytes of a character stand nowhere in the bytes of another one. -/
theorem at_byte {c d : Char} {x y : UInt8}
    (hd : utf8EncodeChar d = [0xe2, x, y]) (hne : c ≠ d) {before after rest : Bytes} {b : UInt8}
    (h : utf8EncodeChar c = before ++ b :: after) :
    ¬(b = 0xe2 ∧ (after ++ rest)[0]? = some x ∧ (after ++ rest)[1]? = some y) := by
  rintro ⟨rfl, hx, hy⟩
  have hlt : before.length < (utf8EncodeChar c).length := by
    rw [h, List.length_append, List.length_cons]
    omega
  have hget : (utf8EncodeChar c)[before.length] = 0xe2 := by
    simp only [h, List.getElem_append_right le_rfl, Nat.sub_self, List.getElem_cons_zero]
  have hfirst := (@UInt8.isUTF8FirstByte_getElem_utf8EncodeChar c _ hlt).mp
    (hget ▸ (by decide : UInt8.IsUTF8FirstByte 0xe2))
  obtain rfl := List.eq_nil_of_length_eq_zero hfirst
  rw [List.nil_append] at h
  obtain ⟨x', y', rfl⟩ := List.length_eq_two.mp (length_of_head h)
  cases hx
  cases hy
  exact hne (encodeChar_inj (h.trans hd.symm))

def lineSeparator : Char := '\u2028'

def paragraphSeparator : Char := '\u2029'

/-! ## Rewriting -/

/-- The bytes one after another, each written as `step` says of it and what comes after it. -/
def rewrite (step : UInt8 → Bytes → Bytes) : Bytes → Bytes
  | [] => []
  | b :: rest => step b rest ++ rewrite step rest

variable {step : UInt8 → Bytes → Bytes}

/-- Bytes that are copied where they stand. -/
theorem rewrite_copy {bs rest : Bytes}
    (h : ∀ before b after, bs = before ++ b :: after → step b (after ++ rest) = [b]) :
    rewrite step (bs ++ rest) = bs ++ rewrite step rest := by
  induction bs with
  | nil => rfl
  | cons b bs ih =>
    have hrest := ih fun before b' after heq => h (b :: before) b' after (by rw [heq]; rfl)
    have hhead := h [] b bs rfl
    rw [List.cons_append, rewrite, hhead, hrest]
    rfl

/-- **A loop that writes characters for each character** writes valid UTF-8. -/
theorem rewrite_encode {write : Char → List Char} {cs : List Char} (rest : Bytes)
    (h : ∀ c ∈ cs, ∀ rest, rewrite step (utf8EncodeChar c ++ rest) =
      encode (write c) ++ rewrite step rest) :
    rewrite step (encode cs ++ rest) = encode (cs.flatMap write) ++ rewrite step rest := by
  induction cs with
  | nil => rfl
  | cons c cs ih =>
    have hcs := ih fun d hd => h d (List.mem_cons_of_mem _ hd)
    rw [encode_cons, List.append_assoc, h c List.mem_cons_self, hcs, List.flatMap_cons,
      encode_append, List.append_assoc]

end Utf8

end MessengerClient
