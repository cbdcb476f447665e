import MessengerClient.CustomNetwork.CustomApi
import MessengerClient.Lib.Json
import MessengerClient.Lib.Sextets
import MessengerClient.Lib.Texts
import Mathlib

/-!
# MessengerClient.CustomNetwork.SessionManager

When `SessionManager::needsRefresh` wants a new access token.  It decodes the payload of the token
with the standard alphabet of base64, and the server writes it with the alphabet for URLs: a `-`
or a `_`, which a `>`, `?` or `~` that is the last of three letters becomes, is passed over, and
what stands behind it is read out of step (`needsRefresh_iff`).

The header and the signature of a token are any bytes.  Documents are read by a parameter,
`QJsonDocument::fromJson`, of which `ReadsJson` says what the client relies on.
-/

namespace MessengerClient

/-! ## The tokens of the server -/

namespace Backend

namespace Security

/-- `base64url_encode`. -/
def base64UrlEncode (bytes : Bytes) : List Char := (Sextets.ofBytes bytes).map Sextets.urlLetter

def hexDigit (n : Nat) : UInt8 := UInt8.ofNat (if n < 10 then 0x30 + n else 0x61 + n - 10)

/-- The escape of a UTF-16 unit. -/
def unitEscape (n : Nat) : Bytes :=
  [0x5c, 0x75, hexDigit (n / 0x1000 % 16), hexDigit (n / 0x100 % 16), hexDigit (n / 0x10 % 16),
    hexDigit (n % 16)]

/-- What `json.dumps` writes for a character. -/
def dumpsChar (c : Char) : Bytes :=
  if c = '"' then ascii "\\\""
  else if c = '\\' then ascii "\\\\"
  else if c = '\n' then ascii "\\n"
  else if c = '\r' then ascii "\\r"
  else if c = '\t' then ascii "\\t"
  else if c = '\x0c' then ascii "\\f"
  else if c = '\x08' then ascii "\\b"
  else if 0x20 ≤ c.toNat ∧ c.toNat ≤ 0x7e then [UInt8.ofNat c.toNat]
  else if c.toNat < 0x10000 then unitEscape c.toNat
  else
    unitEscape (0xd800 + (c.toNat - 0x10000) / 0x400 % 0x400) ++
      unitEscape (0xdc00 + (c.toNat - 0x10000) % 0x400)

def dumpsText (text : List Char) : Bytes := 0x22 :: (text.flatMap dumpsChar ++ [0x22])

def dumpsNumber (n : Int) : Bytes := (Texts.number n).map fun c => UInt8.ofNat c.toNat

/-- The first members of a payload, that `login` hands in. -/
def account (sub email : List Char) : Bytes :=
  ascii "\x7b\"sub\":" ++ dumpsText sub ++ ascii ",\"email\":" ++ dumpsText email

/-- The members that `create_access_token` adds. -/
def expiry (exp : Int64) : Bytes :=
  ascii ",\"exp\":" ++ dumpsNumber exp.toInt ++ ascii ",\"type\":\"access\"\x7d"

/-- The payload, a JSON object. -/
def payload (sub email : List Char) (exp : Int64) : Bytes := account sub email ++ expiry exp

/-- A token of `create_access_token`. -/
def createAccessToken (header signature : Bytes) (sub email : List Char) (exp : Int64) : String :=
  String.ofList (base64UrlEncode header ++ '.' :: (base64UrlEncode (payload sub email exp) ++
    '.' :: base64UrlEncode signature))

end Security

end Backend

/-! ## What the server writes -/

namespace Backend

namespace Security

variable {t t' : Bytes} {sub email : List Char} {exp : Int64}

def Printable (t : Bytes) : Prop := ∀ ch ∈ t, 0x20 ≤ ch.toNat ∧ ch.toNat ≤ 0x7e

instance (t : Bytes) : Decidable (Printable t) := inferInstanceAs (Decidable (∀ _ ∈ t, _))

theorem Printable.append (h : Printable t) (h' : Printable t') : Printable (t ++ t') := by
  intro ch hch
  exact (List.mem_append.mp hch).elim (h ch) (h' ch)

theorem hexDigit_spec : ∀ n : Fin 16,
    Printable [hexDigit n.val] ∧ Json.isHex (hexDigit n.val) = true := by
  decide +kernel

theorem isHex_hexDigit (n : Nat) : Json.isHex (hexDigit (n % 16)) = true :=
  (hexDigit_spec ⟨n % 16, Nat.mod_lt n (by decide)⟩).2

theorem printable_hexDigit (n : Nat) : Printable [hexDigit (n % 16)] :=
  (hexDigit_spec ⟨n % 16, Nat.mod_lt n (by decide)⟩).1

theorem printable_unitEscape (n : Nat) : Printable (unitEscape n) := by
  have hescape : Printable [0x5c, 0x75] := by decide +kernel
  exact hescape.append <| (printable_hexDigit (n / 0x1000)).append <|
    (printable_hexDigit (n / 0x100)).append <|
    (printable_hexDigit (n / 0x10)).append (printable_hexDigit n)

theorem chars_unitEscape (n : Nat) : Json.Chars (unitEscape n) :=
  .unicode (isHex_hexDigit _) (isHex_hexDigit _) (isHex_hexDigit _) (isHex_hexDigit _) .nil

/-- **What is written for a character** is printable, and may stand in a string. -/
theorem dumpsChar_spec (c : Char) : Printable (dumpsChar c) ∧ Json.Chars (dumpsChar c) := by
  have hescape {e : UInt8} (he : e ∈ ascii "\"\\/bfnrt") : Json.Chars [0x5c, e] :=
    .escape he .nil
  unfold dumpsChar
  split
  · exact ⟨by decide +kernel, hescape (by decide)⟩
  split
  · exact ⟨by decide +kernel, hescape (by decide)⟩
  split
  · exact ⟨by decide +kernel, hescape (by decide)⟩
  split
  · exact ⟨by decide +kernel, hescape (by decide)⟩
  split
  · exact ⟨by decide +kernel, hescape (by decide)⟩
  split
  · exact ⟨by decide +kernel, hescape (by decide)⟩
  split
  · exact ⟨by decide +kernel, hescape (by decide)⟩
  split
  · next hquote hslash _ _ _ _ _ hprintable =>
    have hascii : c.toNat < 0x80 := by omega
    have hbyte := Utf8.toNat_ascii hascii
    refine ⟨by simpa [Printable, hbyte] using hprintable, .plain ?_ ?_ ?_ .nil⟩
    · rw [UInt8.le_iff_toNat_le, hbyte]
      exact hprintable.1
    · exact Utf8.ascii_ne hascii (by decide) hquote
    · exact Utf8.ascii_ne hascii (by decide) hslash
  split
  · exact ⟨printable_unitEscape _, chars_unitEscape _⟩
  · exact ⟨(printable_unitEscape _).append (printable_unitEscape _),
      (chars_unitEscape _).append (chars_unitEscape _)⟩

theorem printable_dumpsText (text : List Char) : Printable (dumpsText text) := by
  have hquote : Printable [0x22] := by decide +kernel
  refine hquote.append (Printable.append (fun ch hch => ?_) hquote)
  obtain ⟨c, -, hmem⟩ := List.mem_flatMap.mp hch
  exact (dumpsChar_spec c).1 ch hmem

theorem isString_dumpsText (text : List Char) : Json.IsString (dumpsText text) := by
  refine ⟨text.flatMap dumpsChar, ?_, rfl⟩
  induction text with
  | nil => exact .nil
  | cons c text ih => exact (dumpsChar_spec c).2.append ih

/-- The byte of a digit is a digit. -/
theorem isDigit_ofNat {c : Char} (h : c.isDigit = true) :
    Json.isDigit (UInt8.ofNat c.toNat) = true ∧ 0x30 ≤ c.toNat ∧ c.toNat ≤ 0x39 := by
  simp only [Char.isDigit, Bool.and_eq_true, decide_eq_true_eq, ge_iff_le, UInt32.le_iff_toNat_le]
    at h
  have hlow : 0x30 ≤ c.toNat := h.1
  have hhigh : c.toNat ≤ 0x39 := h.2
  have hbyte := @Utf8.toNat_ascii c (by omega)
  refine ⟨?_, hlow, hhigh⟩
  simp only [Json.isDigit, decide_eq_true_eq, UInt8.le_iff_toNat_le, hbyte]
  exact ⟨hlow, hhigh⟩

theorem printable_dumpsNumber (n : Int) : Printable (dumpsNumber n) := by
  intro ch hch
  obtain ⟨c, hc, rfl⟩ := List.mem_map.mp hch
  obtain rfl | hdigit := Texts.mem_number hc
  · decide
  · obtain ⟨-, hlow, hhigh⟩ := isDigit_ofNat hdigit
    rw [Utf8.toNat_ascii (by omega)]
    omega

theorem isNumber_dumpsNumber (n : Int) : Json.IsNumber (dumpsNumber n) := by
  have hint : Json.IntPart ((Nat.toDigits 10 n.natAbs).map fun c => UInt8.ofNat c.toNat) := by
    by_cases hzero : n.natAbs = 0
    · rw [hzero]
      exact .inl (by decide)
    · refine .inr ⟨⟨by simp [Nat.toDigits_ne_nil], fun ch hch => ?_⟩, ?_⟩
      · obtain ⟨c, hc, rfl⟩ := List.mem_map.mp hch
        exact (isDigit_ofNat (Texts.isDigit_of_mem hc)).1
      · have hhead := Texts.head?_toDigits (Nat.pos_of_ne_zero hzero)
        obtain ⟨c, text, hcons, -, -⟩ := @Texts.toDigits_head n.natAbs
        have hdigit := isDigit_ofNat (Texts.isDigit_of_mem (hcons ▸ List.mem_cons_self))
        rw [hcons] at hhead ⊢
        simp only [List.head?_cons, ne_eq, Option.some.injEq] at hhead
        simp only [List.map_cons, List.head?_cons, ne_eq, Option.some.injEq]
        exact @Utf8.ascii_ne c '0' (by omega) (by decide) hhead
  refine ⟨if n < 0 then [0x2d] else [], _, [], [], ?_, hint, .inl rfl, .inl rfl, ?_⟩
  · split <;> decide
  · rw [dumpsNumber, Texts.number]
    split <;> simp

theorem printable_payload : Printable (payload sub email exp) := by
  have hobject : Printable (ascii "\x7b\"sub\":") := by decide +kernel
  have hemail : Printable (ascii ",\"email\":") := by decide +kernel
  have hexp : Printable (ascii ",\"exp\":") := by decide +kernel
  have htype : Printable (ascii ",\"type\":\"access\"\x7d") := by decide +kernel
  have haccount : Printable (account sub email) :=
    ((hobject.append (printable_dumpsText sub)).append hemail).append (printable_dumpsText email)
  exact haccount.append ((hexp.append (printable_dumpsNumber _)).append htype)

/-- **The payload is JSON.** -/
theorem isText_payload : Json.IsText (payload sub email exp) := by
  have hitems := ((Json.Items.nil .object).member (isString_dumpsText "sub".toList)
    (.string (isString_dumpsText sub)) |>.member (isString_dumpsText "email".toList)
    (.string (isString_dumpsText email))).member (isString_dumpsText "exp".toList)
    (.number (isNumber_dumpsNumber exp.toInt)) |>.member (isString_dumpsText "type".toList)
    (.string (isString_dumpsText "access".toList))
  have hvalue := Json.Value.container hitems Json.Space.nil
  have hsub : ascii "\x7b\"sub\":" = 0x7b :: (dumpsText "sub".toList ++ [0x3a]) := by
    decide +kernel
  have hemail : ascii ",\"email\":" = 0x2c :: (dumpsText "email".toList ++ [0x3a]) := by
    decide +kernel
  have hexp : ascii ",\"exp\":" = 0x2c :: (dumpsText "exp".toList ++ [0x3a]) := by decide +kernel
  have htype : ascii ",\"type\":\"access\"\x7d" =
      0x2c :: (dumpsText "type".toList ++ 0x3a :: (dumpsText "access".toList ++ [0x7d])) := by
    decide +kernel
  rw [payload, account, expiry, hsub, hemail, hexp, htype]
  simpa only [Json.Container.opening, Json.Container.closing, List.nil_append, List.append_nil,
    List.append_assoc, List.cons_append, if_true, Bool.false_eq_true, if_false] using hvalue.isText

end Security

end Backend

/-! ## The client -/

namespace CustomNetwork

section

-- the object of a text that is one, by the integers among its members
variable (fromJson : Bytes → Option (String → Option Int))

/-- `SessionManager::needsRefresh` at a time. -/
def SessionData.needsRefresh (session : SessionData) (now : Int) : Bool :=
  if session.accessToken.isEmpty then false
  else
    match session.accessToken.toList.splitOn '.' with
    | [_, part, _] =>
        let payload := Sextets.fromBase64 (Utf8.encode part)
        let json := (fromJson payload).getD fun _ => none
        let exp := (json "exp").getD 0
        exp - now < 300
    | _ => false

/-- `SessionManager::checkTokenExpiry`: whether `tokenRefreshNeeded` is emitted. -/
def SessionData.checkTokenExpiry (session : SessionData) (now : Int) : Bool :=
  session.needsRefresh fromJson now

end

/-! ## What the client reads -/

open Backend.Security

variable {fromJson : Bytes → Option (String → Option Int)} {header signature : Bytes}
  {sub email : List Char} {exp : Int64} {now : Int}

theorem not_mem_base64UrlEncode (bytes : Bytes) : '.' ∉ base64UrlEncode bytes := by
  intro hmem
  obtain ⟨d, hd, heq⟩ := List.mem_map.mp hmem
  exact Sextets.urlLetter_ne (Sextets.lt_of_mem_ofBytes hd) heq

theorem toList_createAccessToken :
    (createAccessToken header signature sub email exp).toList =
      List.intercalate ['.'] [base64UrlEncode header, base64UrlEncode (payload sub email exp),
        base64UrlEncode signature] := by
  simp [createAccessToken, List.intercalate]

/-- What the client relies on of `QJsonDocument::fromJson`, for the payload of a token. -/
structure ReadsJson (fromJson : Bytes → Option (String → Option Int)) (sub email : List Char)
    (exp : Int64) : Prop where
  /-- A text that is not JSON has no object. -/
  none_of_not_isText : ∀ text, ¬Json.IsText text → fromJson text = none
  /-- Of the members with one name the last one counts. -/
  last : ∀ front json, fromJson (front ++ expiry exp) = some json →
    json "exp" = some exp.toInt
  accepts : (fromJson (payload sub email exp)).isSome = true

/-- The expiry that is read: zero where there is none. -/
def readExpiry (fromJson : Bytes → Option (String → Option Int)) (text : Bytes) : Int :=
  (((fromJson text).getD fun _ => none) "exp").getD 0

/-- **What a token is judged by** is what remains of its payload. -/
theorem needsRefresh_createAccessToken :
    SessionData.needsRefresh fromJson
      { accessToken := createAccessToken header signature sub email exp } now = true ↔
      readExpiry fromJson (Sextets.remains (payload sub email exp)) - now < 300 := by
  have hsplit : (createAccessToken header signature sub email exp).toList.splitOn '.' =
      [base64UrlEncode header, base64UrlEncode (payload sub email exp),
        base64UrlEncode signature] := by
    rw [toList_createAccessToken]
    refine List.splitOn_intercalate '.' (fun l hl => ?_) (List.cons_ne_nil _ _)
    simp only [List.mem_cons, List.not_mem_nil, or_false] at hl
    obtain rfl | rfl | rfl := hl <;> exact not_mem_base64UrlEncode _
  have hne : (createAccessToken header signature sub email exp).isEmpty = false := by
    simp [createAccessToken]
  simp only [SessionData.needsRefresh, hne, hsplit, Bool.false_eq_true, if_false,
    decide_eq_true_eq, base64UrlEncode, Sextets.fromBase64_url]
  rfl

/-- Nothing is passed over in the members that the server adds. -/
theorem expiry_plain {ch : UInt8} (h : ch ∈ expiry exp) : ¬(ch = 0x3e ∨ ch = 0x3f ∨ ch = 0x7e) := by
  rw [expiry, List.mem_append, List.mem_append] at h
  obtain (h | h) | h := h
  · revert ch
    decide +kernel
  · obtain ⟨c, hc, rfl⟩ := List.mem_map.mp h
    obtain rfl | hdigit := Texts.mem_number hc
    · decide +kernel
    · obtain ⟨-, hlow, hhigh⟩ := isDigit_ofNat hdigit
      simp only [← UInt8.toNat_inj, UInt8.reduceToNat, @Utf8.toNat_ascii c (by omega)]
      omega
  · revert ch
    decide +kernel

/-- The letters that are passed over stand before the expiry, in whole groups of three. -/
theorem exists_front (sub email : List Char) (exp : Int64) : ∃ front rest,
    payload sub email exp = front ++ (rest ++ expiry exp) ∧ front.length % 3 = 0 ∧
      Sextets.passedOver (rest ++ expiry exp) = 0 := by
  refine ⟨(account sub email).take ((account sub email).length / 3 * 3),
    (account sub email).drop ((account sub email).length / 3 * 3), ?_, ?_, ?_⟩
  · rw [← List.append_assoc, List.take_append_drop, payload]
  · rw [List.length_take]
    omega
  · refine Sextets.passedOver_eq_zero fun ch hch => ?_
    rw [List.drop_append, List.drop_drop, List.drop_eq_nil_of_le (by omega),
      List.nil_append] at hch
    exact expiry_plain (List.mem_of_mem_drop hch)

/-- Out of step, the ends of a payload are read as bytes of which the last ends no text. -/
theorem getLast?_outOfStep {tail : Bytes} {buf nbits : Nat}
    (htail : tail = ascii "ss\"\x7d" ∨ tail = ascii "s\"\x7d" ∨ tail = ascii "\"\x7d")
    (hnbits : nbits = 2 ∨ nbits = 4 ∨ nbits = 6) (hbuf : buf < 2 ^ nbits) :
    ∃ ch, (Sextets.bytesFrom (Sextets.ofBytes tail) buf nbits).getLast? = some ch ∧
      Json.endsText ch = false := by
  have hall : ∀ tail ∈ [ascii "ss\"\x7d", ascii "s\"\x7d", ascii "\"\x7d"],
      ∀ nbits ∈ [2, 4, 6], ∀ buf < 2 ^ nbits,
        (Sextets.bytesFrom (Sextets.ofBytes tail) buf nbits).getLast?.any
          (!Json.endsText ·) = true := by
    decide +kernel
  have hany := hall tail (by simpa using htail) nbits (by simpa using hnbits) buf hbuf
  simpa only [Option.any_eq_true, Bool.not_eq_true'] using hany

/-- A decoder that is out of step ends a payload with no letter that ends a text. -/
theorem not_isText_of_outOfStep {front tail : Bytes} (hfront : front.length % 3 = 0)
    (htail : tail = ascii "ss\"\x7d" ∨ tail = ascii "s\"\x7d" ∨ tail = ascii "\"\x7d")
    (hprintable : Printable (front ++ tail)) (h : Sextets.passedOver (front ++ tail) % 4 ≠ 0) :
    ¬Json.IsText (Sextets.remains (front ++ tail)) := by
  intro htext
  have hplain : Sextets.passedOver tail = 0 := by
    obtain rfl | rfl | rfl := htail <;> decide +kernel
  obtain ⟨t, buf, hbuf, heq⟩ := Sextets.exists_remains_append hfront hprintable hplain
  obtain ⟨ch, hlast, hends⟩ := getLast?_outOfStep htail (by omega) hbuf
  obtain ⟨ch', hlast', hends'⟩ := htext.last
  rw [heq, List.getLast?_append, hlast, Option.some_or, Option.some.injEq] at hlast'
  rw [← hlast', hends] at hends'
  cases hends'

theorem not_isText_remains (h : Sextets.passedOver (payload sub email exp) % 4 ≠ 0) :
    ¬Json.IsText (Sextets.remains (payload sub email exp)) := by
  have hprintable := @printable_payload sub email exp
  -- the last letters, of which as many go with the rest as fill its last group
  obtain ⟨q, heq⟩ : ∃ q, payload sub email exp = q ++ ascii "ss\"\x7d" := by
    have htype : ascii ",\"type\":\"access\"\x7d" =
        ascii ",\"type\":\"acce" ++ ascii "ss\"\x7d" := by decide +kernel
    exact ⟨_, by rw [payload, expiry, htype, ← List.append_assoc, ← List.append_assoc]⟩
  have hone : ascii "ss\"\x7d" = ascii "s" ++ ascii "s\"\x7d" := by decide +kernel
  have htwo : ascii "ss\"\x7d" = ascii "ss" ++ ascii "\"\x7d" := by decide +kernel
  have hcases : q.length % 3 = 0 ∨ q.length % 3 = 1 ∨ q.length % 3 = 2 := by omega
  obtain hlength | hlength | hlength := hcases
  · rw [heq] at h hprintable ⊢
    exact not_isText_of_outOfStep hlength (.inl rfl) hprintable h
  · rw [heq, htwo, ← List.append_assoc] at h hprintable ⊢
    have hss : (ascii "ss").length = 2 := by decide +kernel
    refine not_isText_of_outOfStep ?_ (.inr (.inr rfl)) hprintable h
    rw [List.length_append, hss]
    omega
  · rw [heq, hone, ← List.append_assoc] at h hprintable ⊢
    have hs : (ascii "s").length = 1 := by decide +kernel
    refine not_isText_of_outOfStep ?_ (.inr (.inl rfl)) hprintable h
    rw [List.length_append, hs]
    omega

/-- **A token is judged by its expiry** exactly when none of the letters of its payload is passed
over, or a multiple of four is and what remains is still an object, or an expiry of zero would be
judged in the same way. -/
theorem needsRefresh_iff (header signature : Bytes) (sub email : List Char) (exp : Int64)
    (now : Int) (h : ReadsJson fromJson sub email exp) :
    (SessionData.needsRefresh fromJson
        { accessToken := createAccessToken header signature sub email exp } now = true ↔
      exp.toInt - now < 300) ↔
    Sextets.passedOver (payload sub email exp) = 0 ∨
      (Sextets.passedOver (payload sub email exp) % 4 = 0 ∧
        (fromJson (Sextets.remains (payload sub email exp))).isSome = true) ∨
      (-now < 300 ↔ exp.toInt - now < 300) := by
  rw [needsRefresh_createAccessToken]
  have hnone (hread : fromJson (Sextets.remains (payload sub email exp)) = none) :
      readExpiry fromJson (Sextets.remains (payload sub email exp)) = 0 := by
    rw [readExpiry, hread]
    rfl
  have hsome {front : Bytes} {json : String → Option Int}
      (heq : Sextets.remains (payload sub email exp) = front ++ expiry exp)
      (hread : fromJson (Sextets.remains (payload sub email exp)) = some json) :
      readExpiry fromJson (Sextets.remains (payload sub email exp)) = exp.toInt := by
    rw [readExpiry, hread, Option.getD_some, h.last front json (heq ▸ hread), Option.getD_some]
  by_cases hfour : Sextets.passedOver (payload sub email exp) % 4 = 0
  · -- in step again: the expiry is read if the whole is an object still
    obtain ⟨front, rest, hsplit, hlength, hplain⟩ := exists_front sub email exp
    obtain ⟨t, hremains⟩ : ∃ t, Sextets.remains (payload sub email exp) = t ++ expiry exp := by
      have hprintable := @printable_payload sub email exp
      rw [hsplit] at hfour hprintable ⊢
      obtain ⟨t, heq⟩ := Sextets.exists_remains_append_eq hlength hprintable hplain hfour
      exact ⟨t ++ rest, by rw [heq, List.append_assoc]⟩
    cases hread : fromJson (Sextets.remains (payload sub email exp)) with
    | none =>
        have hzero : Sextets.passedOver (payload sub email exp) ≠ 0 := by
          intro hzero
          have haccepts := h.accepts
          rw [Sextets.remains_eq printable_payload hzero] at hread
          rw [hread] at haccepts
          cases haccepts
        rw [hnone hread]
        simp [hzero]
    | some json =>
        rw [hsome hremains hread]
        simp [hfour]
  · have hzero : Sextets.passedOver (payload sub email exp) ≠ 0 := fun hzero =>
      hfour (by rw [hzero])
    rw [hnone (h.none_of_not_isText _ (not_isText_remains hfour))]
    simp [hzero, hfour]

/-- A reader that knows one payload. -/
def readsPayload (sub email : List Char) (exp : Int64) (text : Bytes) :
    Option (String → Option Int) :=
  if text = payload sub email exp then
    some fun key => if key = "exp" then some exp.toInt else none
  else none

theorem readsJson_readsPayload (sub email : List Char) (exp : Int64) :
    ReadsJson (readsPayload sub email exp) sub email exp where
  none_of_not_isText text htext := by
    rw [readsPayload, if_neg]
    rintro rfl
    exact htext isText_payload
  last front json h := by
    rw [readsPayload] at h
    split at h
    · rw [← Option.some.inj h]
      rfl
    · cases h
  accepts := by rw [readsPayload, if_pos rfl, Option.isSome_some]

def annaId : List Char := "0b2ac9f3-5c1d-4e8a-9f60-7d4b1e2c3a58".toList

def hs256Header : Bytes := ascii "\x7b\"alg\":\"HS256\",\"typ\":\"JWT\"\x7d"

theorem needsRefresh_iff_anna :
    SessionData.needsRefresh (readsPayload annaId "anna@example.com".toList 1800000000)
      { accessToken := createAccessToken hs256Header (List.replicate 32 0) annaId
          "anna@example.com".toList 1800000000 } 1799999000 = true ↔
      (1800000000 : Int64).toInt - 1799999000 < 300 :=
  (needsRefresh_iff hs256Header (List.replicate 32 0) annaId
    "anna@example.com".toList 1800000000 1799999000 (readsJson_readsPayload _ _ _)).mpr
    (.inl (by decide +kernel))

/-- For `a?b@example.com` what is read is no object, and a new token is wanted at once. -/
theorem not_needsRefresh : ¬∀ (fromJson : Bytes → Option (String → Option Int))
    (header signature : Bytes) (sub email : List Char) (exp : Int64) (now : Int),
    ReadsJson fromJson sub email exp →
      (SessionData.needsRefresh fromJson
          { accessToken := createAccessToken header signature sub email exp } now = true ↔
        exp.toInt - now < 300) := by
  intro h
  have hiff := h _ hs256Header (List.replicate 32 0) annaId "a?b@example.com".toList
    1800000000 1799999000 (readsJson_readsPayload _ _ _)
  have hne : Sextets.remains (payload annaId "a?b@example.com".toList 1800000000) ≠
      payload annaId "a?b@example.com".toList 1800000000 := by
    decide +kernel
  rw [needsRefresh_createAccessToken, readExpiry, readsPayload, if_neg hne] at hiff
  exact absurd (hiff.mp (by decide)) (by decide)

end CustomNetwork

end MessengerClient
