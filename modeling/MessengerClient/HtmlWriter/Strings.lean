import MessengerClient.Lib.Json
import MessengerClient.Lib.Escapes
import MessengerClient.Lib.Utf8
import Mathlib

/-!
# MessengerClient.HtmlWriter.Strings

`SerializeString` of an export in HTML, of `export/output/export_output_html.cpp`, read back.  A
text is shown again exactly when it has no line or paragraph separator
(`serializeString_shows_iff`): for those a line break is written, and then the last two of their
bytes again.
-/

namespace MessengerClient

namespace Export

namespace Html

open MessengerClient.Html
open Utf8 (lineSeparator paragraphSeparator)
open String (utf8EncodeChar)

/-- One character of `SerializeString`, with what comes after it. -/
def serializeChar (ch : UInt8) (rest : Bytes) : Bytes :=
  if ch = 0x0a then ascii "<br>"
  else if ch = 0x22 then ascii "&quot;"
  else if ch = 0x26 then ascii "&amp;"
  else if ch = 0x27 then ascii "&apos;"
  else if ch = 0x3c then ascii "&lt;"
  else if ch = 0x3e then ascii "&gt;"
  else if ch < 32 then
    let left := ch &&& 0x0f
    ascii "&#x" ++ [(0x30 : UInt8) + ch >>> (4 : UInt8),
      if left ≥ 10 then 0x41 + (left - 10) else 0x30 + left] ++ ascii ";"
  else if ch = 0xe2 ∧ rest.length ≥ 2 ∧ rest[0]? = some 0x80 then
    if rest[1]? = some 0xa8 then ascii "<br>"
    else if rest[1]? = some 0xa9 then ascii "<br>"
    else [ch]
  else [ch]

def serializeString (value : Bytes) : Bytes := Utf8.rewrite serializeChar value

/-! ## One character -/

/-- The digits `SerializeString` makes of a control character. -/
def digits (n : Nat) : List Char :=
  [Char.ofNat (0x30 + n / 16),
    Char.ofNat (if n % 16 ≥ 10 then 0x41 + (n % 16 - 10) else 0x30 + n % 16)]

/-- What is written for a character that is not a separator. -/
def written (c : Char) : List Char :=
  if c = '\n' then ['<', 'b', 'r', '>']
  else if c = '"' then ['&', 'q', 'u', 'o', 't', ';']
  else if c = '&' then ['&', 'a', 'm', 'p', ';']
  else if c = '\x27' then ['&', 'a', 'p', 'o', 's', ';']
  else if c = '<' then ['&', 'l', 't', ';']
  else if c = '>' then ['&', 'g', 't', ';']
  else if c.toNat < 32 then ['&', '#', 'x'] ++ (digits c.toNat ++ [';'])
  else [c]

theorem encode_digits : ∀ n < 32, ascii "&#x" ++ [(0x30 : UInt8) + UInt8.ofNat n >>> (4 : UInt8),
    if UInt8.ofNat n &&& 0x0f ≥ 10 then 0x41 + ((UInt8.ofNat n &&& 0x0f) - 10)
    else 0x30 + (UInt8.ofNat n &&& 0x0f)] ++ ascii ";" =
      Utf8.encode (['&', '#', 'x'] ++ (digits n ++ [';'])) := by
  decide

theorem hexNumber_digits : ∀ n < 32, hexNumber? (digits n) = some n := by decide

theorem serializeChar_control {n : Nat} (hlt : n < 32) (hn : UInt8.ofNat n ≠ 0x0a) (rest : Bytes) :
    serializeChar (UInt8.ofNat n) rest =
      Utf8.encode (['&', '#', 'x'] ++ (digits n ++ [';'])) := by
  have hbyte : (UInt8.ofNat n).toNat = n := UInt8.toNat_ofNat_of_lt' (hlt.trans (by decide))
  have hne {x : UInt8} (hx : 0x20 ≤ x.toNat) : UInt8.ofNat n ≠ x := fun heq => by
    rw [← heq, hbyte] at hx
    omega
  have hlow : UInt8.ofNat n < 32 := by
    rw [UInt8.lt_iff_toNat_lt, hbyte]
    exact hlt
  rw [serializeChar, if_neg hn, if_neg (hne (by decide)), if_neg (hne (by decide)),
    if_neg (hne (by decide)), if_neg (hne (by decide)), if_neg (hne (by decide)),
    if_pos hlow]
  exact encode_digits n hlt

/-- The characters that are written as entities. -/
def special : List Char := ['<', '>', '&', '"', '\x27']

theorem special_lt : ∀ d ∈ special, d.toNat < 0x80 := by simp [special]

/-- Bytes that are copied. -/
theorem serializeChar_copy {ch : UInt8} {rest : Bytes} (hlow : 0x20 ≤ ch.toNat)
    (hspecial : ∀ d ∈ special, ch ≠ UInt8.ofNat d.toNat)
    (hline : ¬(ch = 0xe2 ∧ rest[0]? = some 0x80 ∧ rest[1]? = some 0xa8))
    (hparagraph : ¬(ch = 0xe2 ∧ rest[0]? = some 0x80 ∧ rest[1]? = some 0xa9)) :
    serializeChar ch rest = [ch] := by
  have hn : ch ≠ 0x0a := fun heq => by
    rw [heq] at hlow
    exact absurd hlow (by decide)
  have hnlt : ¬ch < 32 := by
    rw [UInt8.lt_iff_toNat_lt]
    exact not_lt.mpr hlow
  have hquote : ch ≠ 0x22 := hspecial '"' (by simp [special])
  have hamp : ch ≠ 0x26 := hspecial '&' (by simp [special])
  have hapos : ch ≠ 0x27 := hspecial '\x27' (by simp [special])
  have hlt : ch ≠ 0x3c := hspecial '<' (by simp [special])
  have hgt : ch ≠ 0x3e := hspecial '>' (by simp [special])
  rw [serializeChar, if_neg hn, if_neg hquote, if_neg hamp, if_neg hapos, if_neg hlt, if_neg hgt,
    if_neg hnlt]
  split
  · next h =>
    rw [if_neg fun heq => hline ⟨h.1, h.2.2, heq⟩, if_neg fun heq => hparagraph ⟨h.1, h.2.2, heq⟩]
  · rfl

/-- **A character that is not a separator is written.** -/
theorem rewrite_char {c : Char} (hline : c ≠ lineSeparator) (hparagraph : c ≠ paragraphSeparator)
    (rest : Bytes) : Utf8.rewrite serializeChar (utf8EncodeChar c ++ rest) =
      Utf8.encode (written c) ++ Utf8.rewrite serializeChar rest := by
  by_cases hn : c = '\n'
  · rw [hn]; rfl
  by_cases hquote : c = '"'
  · rw [hquote]; rfl
  by_cases hamp : c = '&'
  · rw [hamp]; rfl
  by_cases hapos : c = '\x27'
  · rw [hapos]; rfl
  by_cases hlt : c = '<'
  · rw [hlt]; rfl
  by_cases hgt : c = '>'
  · rw [hgt]; rfl
  have hspecial : c ∉ special := by simp [special, hlt, hgt, hamp, hquote, hapos]
  rw [written, if_neg hn, if_neg hquote, if_neg hamp, if_neg hapos, if_neg hlt, if_neg hgt]
  by_cases hascii : c.toNat < 0x80
  · rw [Utf8.encodeChar_of_lt hascii, List.singleton_append, Utf8.rewrite]
    have hbyte := Utf8.toNat_ascii hascii
    split
    · next hlow => rw [serializeChar_control hlow (Utf8.ascii_ne hascii (by decide) hn)]
    next hhigh =>
    have hlead : UInt8.ofNat c.toNat ≠ 0xe2 := fun heq => by
      have htoNat : (UInt8.ofNat c.toNat).toNat = 0xe2 := congrArg UInt8.toNat heq
      omega
    have hcopy := @serializeChar_copy _ rest ((not_lt.mp hhigh).trans hbyte.ge)
      (fun d hd => Utf8.ascii_ne hascii (special_lt d hd) fun heq => hspecial (heq ▸ hd))
      (fun h => hlead h.1) fun h => hlead h.1
    rw [hcopy, Utf8.encode_cons, Utf8.encodeChar_of_lt hascii]
    rfl
  · have hhigh : ¬c.toNat < 32 := fun hlow => hascii (hlow.trans (by decide))
    rw [if_neg hhigh, Utf8.encode_cons, Utf8.encode_nil, List.append_nil]
    refine Utf8.rewrite_copy fun before b after heq => ?_
    have hge := Utf8.ge_of_mem_encodeChar (not_lt.mp hascii)
      (heq ▸ List.mem_append_right _ List.mem_cons_self : b ∈ utf8EncodeChar c)
    refine serializeChar_copy (by omega) (fun d hd heqb => ?_) (Utf8.at_byte rfl hline heq)
      (Utf8.at_byte rfl hparagraph heq)
    have hlt := special_lt d hd
    rw [heqb, Utf8.toNat_ascii hlt] at hge
    omega

/-! ## Texts -/

theorem shows_written {c : Char} {t s : List Char} (hs : Shows t s) :
    Shows (written c ++ t) (c :: s) := by
  unfold written
  split
  · next hc => exact hc ▸ Shows.br hs
  split
  · next hc => exact @Shows.entity ['q', 'u', 'o', 't'] _ _ _ (by rw [hc]; decide) hs
  split
  · next hc => exact @Shows.entity ['a', 'm', 'p'] _ _ _ (by rw [hc]; decide) hs
  split
  · next hc => exact @Shows.entity ['a', 'p', 'o', 's'] _ _ _ (by rw [hc]; decide) hs
  split
  · next hc => exact @Shows.entity ['l', 't'] _ _ _ (by rw [hc]; decide) hs
  split
  · next hc => exact @Shows.entity ['g', 't'] _ _ _ (by rw [hc]; decide) hs
  split
  · next hlow =>
    have hnumber := Shows.number (hexNumber_digits c.toNat hlow) hs
    simpa using hnumber
  · next hquote hamp hapos hlt hgt _ =>
    exact Shows.plain (by simp [hquote, hamp, hapos, hlt, hgt]) hs

/-- What is shown of a character: the separators are line breaks. -/
def newlined (c : Char) : Char := if c = lineSeparator ∨ c = paragraphSeparator then '\n' else c

theorem not_separator_of_encode {cs out : List Char}
    (h : serializeString (Utf8.encode cs) = Utf8.encode out) :
    ∀ c ∈ cs, c ≠ lineSeparator ∧ c ≠ paragraphSeparator := by
  have hleft {es : List Char} {t : Bytes} (heq : 0x80 :: t = Utf8.encode es) : False :=
    absurd (Utf8.isFirst_of_encode heq.symm) (by decide)
  induction cs generalizing out with
  | nil => exact fun c hc => by cases hc
  | cons c cs ih =>
    rw [serializeString, Utf8.encode_cons] at h
    by_cases hline : c = lineSeparator
    · rw [hline] at h
      obtain ⟨rest, -, hrest⟩ := @Utf8.exists_of_encode_append ['<', 'b', 'r', '>'] _ _ h
      exact (hleft hrest).elim
    by_cases hparagraph : c = paragraphSeparator
    · rw [hparagraph] at h
      obtain ⟨rest, -, hrest⟩ := @Utf8.exists_of_encode_append ['<', 'b', 'r', '>'] _ _ h
      exact (hleft hrest).elim
    rw [rewrite_char hline hparagraph] at h
    obtain ⟨rest, -, hrest⟩ := Utf8.exists_of_encode_append h
    exact List.forall_mem_cons.mpr ⟨⟨hline, hparagraph⟩, ih hrest⟩

/-- **A text is exported as HTML that is inert and shows it** exactly when it has no separators. -/
theorem serializeString_shows_iff (cs : List Char) :
    (∃ out, serializeString (Utf8.encode cs) = Utf8.encode out ∧ Shows out (cs.map newlined)) ↔
      ∀ c ∈ cs, c ≠ lineSeparator ∧ c ≠ paragraphSeparator := by
  constructor
  · rintro ⟨out, hout, -⟩
    exact not_separator_of_encode hout
  · intro h
    refine ⟨cs.flatMap written, ?_, ?_⟩
    · have hwritten := Utf8.rewrite_encode [] fun c hc => rewrite_char (h c hc).1 (h c hc).2
      rw [List.append_nil, Utf8.rewrite, List.append_nil] at hwritten
      exact hwritten
    · induction cs with
      | nil => exact Shows.nil
      | cons c cs ih =>
        have hc := h c List.mem_cons_self
        rw [List.flatMap_cons, List.map_cons, newlined, if_neg (not_or.mpr hc)]
        exact shows_written (ih fun d hd => h d (List.mem_cons_of_mem _ hd))

/-- The text of one line separator is not. -/
theorem not_shows_separator : ¬∃ out, serializeString (Utf8.encode [lineSeparator]) =
    Utf8.encode out ∧ Shows out ([lineSeparator].map newlined) := by
  rintro ⟨out, hout, -⟩
  exact (not_separator_of_encode hout lineSeparator (List.mem_singleton_self _)).1 rfl

end Html

end Export

end MessengerClient
