import MessengerClient.JsonWriter
import MessengerClient.Lib.Escapes
import MessengerClient.Lib.Utf8
import Mathlib

/-!
# MessengerClient.JsonWriter.Strings

The strings of an export in JSON, read back.  A text is written as a string that says it exactly
when it has no control characters but those with escapes of their own, and no line or paragraph
separator (`serializeString_literal_iff`): for a control character a `\x` is written, that JSON
does not have, and for a separator its escape and then the last two of its bytes again.
-/

namespace MessengerClient

namespace Export

open Json
open Utf8 (lineSeparator paragraphSeparator)
open String (utf8EncodeChar)

/-- The characters that are written as they should be. -/
def Writable (c : Char) : Prop :=
  (0x20 ≤ c.toNat ∨ c = '\n' ∨ c = '\r' ∨ c = '\t') ∧ c ≠ lineSeparator ∧ c ≠ paragraphSeparator

instance (c : Char) : Decidable (Writable c) := inferInstanceAs (Decidable (_ ∧ _))

/-- What is written for them. -/
def written (c : Char) : List Char :=
  if c = '\n' then ['\\', 'n']
  else if c = '\r' then ['\\', 'r']
  else if c = '\t' then ['\\', 't']
  else if c = '"' then ['\\', '"']
  else if c = '\\' then ['\\', '\\']
  else [c]

theorem serializeChars_eq (value : Bytes) :
    serializeChars value = Utf8.rewrite serializeChar value := by
  induction value with
  | nil => rfl
  | cons ch rest ih => rw [serializeChars, ih, Utf8.rewrite]

/-! ## One character -/

/-- Bytes that are copied. -/
theorem serializeChar_copy {ch : UInt8} {rest : Bytes} (hlow : 0x20 ≤ ch.toNat) (hquote : ch ≠ 0x22)
    (hslash : ch ≠ 0x5c)
    (hline : ¬(ch = 0xe2 ∧ rest[0]? = some 0x80 ∧ rest[1]? = some 0xa8))
    (hparagraph : ¬(ch = 0xe2 ∧ rest[0]? = some 0x80 ∧ rest[1]? = some 0xa9)) :
    serializeChar ch rest = [ch] := by
  have hne {x : UInt8} (hx : x.toNat < 0x20) : ch ≠ x := fun heq => by
    rw [heq] at hlow
    omega
  have hnlt : ¬ch < 32 := by
    rw [UInt8.lt_iff_toNat_lt]
    exact not_lt.mpr hlow
  rw [serializeChar, if_neg (hne (by decide)), if_neg (hne (by decide)), if_neg (hne (by decide)),
    if_neg hquote, if_neg hslash, if_neg hnlt]
  split
  · next h =>
    rw [if_neg fun heq => hline ⟨h.1, h.2.2, heq⟩, if_neg fun heq => hparagraph ⟨h.1, h.2.2, heq⟩]
  · rfl

theorem serializeChar_control {ch : UInt8} {rest : Bytes} (hlow : ch.toNat < 0x20) (hn : ch ≠ 0x0a)
    (hr : ch ≠ 0x0d) (ht : ch ≠ 0x09) :
    ∃ digits, serializeChar ch rest = 0x5c :: 0x78 :: digits := by
  have hne {x : UInt8} (hx : 0x20 ≤ x.toNat) : ch ≠ x := fun heq => by
    rw [heq] at hlow
    omega
  rw [serializeChar, if_neg hn, if_neg hr, if_neg ht, if_neg (hne (by decide)),
    if_neg (hne (by decide)), if_pos (UInt8.lt_iff_toNat_lt.mpr hlow)]
  exact ⟨_, rfl⟩

/-- **A writable character is written.** -/
theorem rewrite_writable {c : Char} (h : Writable c) (rest : Bytes) :
    Utf8.rewrite serializeChar (utf8EncodeChar c ++ rest) =
      Utf8.encode (written c) ++ Utf8.rewrite serializeChar rest := by
  obtain ⟨hlow, hline, hparagraph⟩ := h
  by_cases hn : c = '\n'
  · rw [hn]; rfl
  by_cases hr : c = '\r'
  · rw [hr]; rfl
  by_cases ht : c = '\t'
  · rw [ht]; rfl
  by_cases hquote : c = '"'
  · rw [hquote]; rfl
  by_cases hslash : c = '\\'
  · rw [hslash]; rfl
  have hwritten : written c = [c] := by
    rw [written, if_neg hn, if_neg hr, if_neg ht, if_neg hquote, if_neg hslash]
  have hlow : 0x20 ≤ c.toNat := hlow.resolve_right fun h => h.elim hn fun h => h.elim hr ht
  rw [hwritten, Utf8.encode_cons, Utf8.encode_nil, List.append_nil]
  by_cases hascii : c.toNat < 0x80
  · have hbyte := Utf8.toNat_ascii hascii
    have hlead : UInt8.ofNat c.toNat ≠ 0xe2 := fun heq => by
      have htoNat : (UInt8.ofNat c.toNat).toNat = 0xe2 := congrArg UInt8.toNat heq
      omega
    have hcopy := @serializeChar_copy _ rest (hlow.trans hbyte.ge)
      (Utf8.ascii_ne hascii (by decide) hquote) (Utf8.ascii_ne hascii (by decide) hslash)
      (fun h => hlead h.1) fun h => hlead h.1
    rw [Utf8.encodeChar_of_lt hascii, List.singleton_append, Utf8.rewrite, hcopy]
  · refine Utf8.rewrite_copy fun before b after heq => ?_
    have hge := Utf8.ge_of_mem_encodeChar (not_lt.mp hascii)
      (heq ▸ List.mem_append_right _ List.mem_cons_self : b ∈ utf8EncodeChar c)
    have hne {x : UInt8} (hx : x.toNat < 0x80) : b ≠ x := fun heq => by
      rw [heq] at hge
      omega
    exact serializeChar_copy (by omega) (hne (by decide)) (hne (by decide))
      (Utf8.at_byte rfl hline heq) (Utf8.at_byte rfl hparagraph heq)

/-! ## Texts -/

theorem says_written {c : Char} (h : Writable c) {t s : List Char} (hs : Says t s) :
    Says (written c ++ t) (c :: s) := by
  unfold written
  split
  · next hc => exact Says.escape (by rw [hc]; decide) hs
  split
  · next hc => exact Says.escape (by rw [hc]; decide) hs
  split
  · next hc => exact Says.escape (by rw [hc]; decide) hs
  split
  · next hc => exact Says.escape (by rw [hc]; decide) hs
  split
  · next hc => exact Says.escape (by rw [hc]; decide) hs
  · next hn hr ht hquote hslash =>
    exact Says.plain (h.1.resolve_right fun h => h.elim hn fun h => h.elim hr ht) hquote hslash hs

theorem of_says_written {c : Char} {t s : List Char} (h : Says (written c ++ t) s) :
    ∃ s', Says t s' := by
  have hescape {e : Char} (he : e ≠ 'u') (h : Says ('\\' :: e :: t) s) : ∃ s', Says t s' := by
    obtain ⟨-, s', -, -, hs⟩ := says_escape h he
    exact ⟨s', hs⟩
  unfold written at h
  split at h
  · exact hescape (by decide) h
  split at h
  · exact hescape (by decide) h
  split at h
  · exact hescape (by decide) h
  split at h
  · exact hescape (by decide) h
  split at h
  · exact hescape (by decide) h
  · next hquote hslash =>
    obtain ⟨-, s', -, hs⟩ := says_plain h hslash hquote
    exact ⟨s', hs⟩

/-- What a reader makes of the characters of a text, with the closing quote. -/
def ReadBack (cs s : List Char) : Prop :=
  ∃ out, Utf8.rewrite serializeChar (Utf8.encode cs) ++ [0x22] = Utf8.encode out ∧ Says out s

theorem readBack_writable {cs : List Char} (h : ∀ c ∈ cs, Writable c) : ReadBack cs cs := by
  refine ⟨cs.flatMap written ++ ['"'], ?_, ?_⟩
  · have hwritten := Utf8.rewrite_encode [] fun c hc rest => rewrite_writable (h c hc) rest
    rw [List.append_nil, Utf8.rewrite, List.append_nil] at hwritten
    rw [hwritten, Utf8.encode_append]
    rfl
  · induction cs with
    | nil => exact Says.close
    | cons c cs ih =>
      rw [List.flatMap_cons, List.append_assoc]
      exact says_written (h c List.mem_cons_self) (ih fun d hd => h d (List.mem_cons_of_mem _ hd))

/-- A control character without an escape begins with an escape that there is not. -/
theorem not_readBack_control {c : Char} (hlow : c.toNat < 0x20)
    (hc : ¬(c = '\n' ∨ c = '\r' ∨ c = '\t')) (cs s : List Char) : ¬ReadBack (c :: cs) s := by
  rintro ⟨out, hout, hs⟩
  have hascii : c.toNat < 0x80 := hlow.trans (by decide)
  have hbyte := Utf8.toNat_ascii hascii
  rw [not_or, not_or] at hc
  obtain ⟨digits, hdigits⟩ := @serializeChar_control _ (Utf8.encode cs) (hbyte.trans_lt hlow)
    (Utf8.ascii_ne hascii (by decide) hc.1) (Utf8.ascii_ne hascii (by decide) hc.2.1)
    (Utf8.ascii_ne hascii (by decide) hc.2.2)
  rw [Utf8.encode_cons, Utf8.encodeChar_of_lt hascii, List.singleton_append, Utf8.rewrite,
    hdigits] at hout
  obtain ⟨rest, rfl, -⟩ := @Utf8.exists_of_encode_append ['\\', 'x'] _ _ hout
  obtain ⟨d, -, hd, -⟩ := says_escape hs (by decide)
  simp [escapes] at hd

/-- Behind the escape of a separator there is no character. -/
theorem not_readBack_separator {c : Char} (hc : c = lineSeparator ∨ c = paragraphSeparator)
    (cs s : List Char) : ¬ReadBack (c :: cs) s := by
  rintro ⟨out, hout, -⟩
  have hleft {es : List Char} {t : Bytes} (heq : 0x80 :: t = Utf8.encode es) : False :=
    absurd (Utf8.isFirst_of_encode heq.symm) (by decide)
  cases hc with
  | inl hline =>
    rw [hline] at hout
    obtain ⟨rest, -, hrest⟩ :=
      @Utf8.exists_of_encode_append ['\\', 'u', '2', '0', '2', '8'] _ _ hout
    exact hleft hrest
  | inr hparagraph =>
    rw [hparagraph] at hout
    obtain ⟨rest, -, hrest⟩ :=
      @Utf8.exists_of_encode_append ['\\', 'u', '2', '0', '2', '9'] _ _ hout
    exact hleft hrest

theorem writable_of_readBack {cs s : List Char} (h : ReadBack cs s) : ∀ c ∈ cs, Writable c := by
  induction cs generalizing s with
  | nil => exact fun c hc => by cases hc
  | cons c cs ih =>
    have hc : Writable c := by
      by_contra hnot
      rw [Writable, not_and_or, not_or, not_and_or, not_not, not_not, not_le] at hnot
      cases hnot with
      | inl hcontrol => exact not_readBack_control hcontrol.1 hcontrol.2 cs s h
      | inr hseparator => exact not_readBack_separator hseparator cs s h
    obtain ⟨out, hout, hs⟩ := h
    rw [Utf8.encode_cons, rewrite_writable hc, List.append_assoc] at hout
    obtain ⟨rest, rfl, hrest⟩ := Utf8.exists_of_encode_append hout
    obtain ⟨s', hs'⟩ := of_says_written hs
    exact List.forall_mem_cons.mpr ⟨hc, ih ⟨rest, hrest, hs'⟩⟩

theorem writable_of_literal {cs out s : List Char}
    (hout : serializeString (Utf8.encode cs) = Utf8.encode out) (h : Literal out s) :
    ∀ c ∈ cs, Writable c := by
  obtain ⟨t, rfl, hs⟩ := h
  rw [serializeString, serializeChars_eq, Utf8.encode_cons] at hout
  exact writable_of_readBack ⟨t, (List.cons.inj hout).2, hs⟩

/-- **A text is exported as a JSON string that says it** exactly when all its characters are
writable. -/
theorem serializeString_literal_iff (cs : List Char) :
    (∃ out, serializeString (Utf8.encode cs) = Utf8.encode out ∧ Literal out cs) ↔
      ∀ c ∈ cs, Writable c := by
  constructor
  · rintro ⟨out, hout, h⟩
    exact writable_of_literal hout h
  · intro h
    obtain ⟨t, ht, hs⟩ := readBack_writable h
    refine ⟨'"' :: t, ?_, t, rfl, hs⟩
    rw [serializeString, serializeChars_eq, ht]
    rfl

/-- The text of one line separator is not. -/
theorem not_literal_separator : ¬∃ out, serializeString (Utf8.encode [lineSeparator]) =
    Utf8.encode out ∧ Literal out [lineSeparator] := by
  rintro ⟨out, hout, h⟩
  exact (writable_of_literal hout h lineSeparator (List.mem_singleton_self _)).2.1 rfl

end Export

end MessengerClient
