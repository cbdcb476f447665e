import MessengerClient.DcOptions
import MessengerClient.Lib.Base64

/-!
# MessengerClient.ProxyData

The passwords of MTProto proxies, of `mtproto/mtproto_proxy_data.cpp`: a secret in hex or in
base64url.  The status of a password is told from its characters; the secret is decoded.

In hex two digits make a byte, so the first two characters are compared.  In base64url the
first two characters hold twelve bits: one of `Q` to `f` after `3` makes `0xDD`, and one of
`g` to `v` after `7` makes `0xEE` (`status_base64Url`).
-/

namespace MessengerClient

namespace MTP

namespace ProxyData

open Base64

/-! ## Passwords -/

/-- A `QString` by its units. -/
abbrev Password : Type := List UInt16

inductive Status where
  | Valid | Unsupported | IncorrectSecret | Invalid
deriving DecidableEq, Repr

/-- `password[i]`, of a password that is long enough. -/
def charAt (password : Password) (i : Nat) : Nat := (password.getD i 0).toNat

/-- `QChar::toLower`, of the letters that passwords are made of. -/
def toLower (code : Nat) : Nat := if charBetween 'A' 'Z' code then code + 32 else code

/-! ## Hex -/

def isHexDigit (ch : UInt16) : Bool :=
  charBetween 'a' 'f' ch.toNat || charBetween 'A' 'F' ch.toNat || charBetween '0' '9' ch.toNat

def isHexMtprotoPassword (password : Password) : Bool :=
  if password.length < 32 || password.length % 2 == 1 then false
  else password.all isHexDigit

def hexMtprotoPasswordStatus (password : Password) : Status :=
  let size := password.length / 2
  let type1 := toLower (charAt password 0)
  let type2 := toLower (charAt password 1)
  let valid := size == 16 ||
    (size == 17 && type1 == 'd'.toNat && type2 == 'd'.toNat) ||
    (size ≥ 21 && type1 == 'e'.toNat && type2 == 'e'.toNat)
  if valid then .Valid
  else if size < 16 then .Invalid
  else .Unsupported

/-- `none` stands for `Unexpected`. -/
def fromHex (ch : UInt16) : Option Nat :=
  if charBetween '0' '9' ch.toNat then some (ch.toNat - '0'.toNat)
  else if charBetween 'A' 'F' ch.toNat then some (10 + (ch.toNat - 'A'.toNat))
  else if charBetween 'a' 'f' ch.toNat then some (10 + (ch.toNat - 'a'.toNat))
  else none

/-- `none` stands for the failed `Expects` of an even size, too. -/
def secretFromHexMtprotoPassword : Password → Option Bytes
  | [] => some []
  | [_] => none
  | ch :: ch' :: password => do
      let high ← fromHex ch
      let low ← fromHex ch'
      let rest ← secretFromHexMtprotoPassword password
      return UInt8.ofNat (high * 16 + low) :: rest

/-! ## Base64url -/

/-- Without up to `n` characters `=` at the end. -/
def skipPadding : Nat → Password → Password
  | 0, password => password
  | n + 1, password =>
      if password.getLast?.map (·.toNat) = some '='.toNat then skipPadding n password.dropLast
      else password

def base64UrlInner (password : Password) : Password := skipPadding 2 password

def isBase64UrlDigit (ch : UInt16) : Bool :=
  charBetween 'a' 'z' ch.toNat || charBetween 'A' 'Z' ch.toNat || charBetween '0' '9' ch.toNat ||
    ch.toNat == '_'.toNat || ch.toNat == '-'.toNat

def isBase64UrlMtprotoPassword (password : Password) : Bool :=
  if password.length < 22 || password.length % 4 == 1 then false
  else (base64UrlInner password).all isBase64UrlDigit

def base64UrlMtprotoPasswordStatus (password : Password) : Status :=
  let size := (base64UrlInner password).length * 3 / 4
  let first := charAt password 0
  let second := charAt password 1
  let valid := size == 16 ||
    (size == 17 && first == '3'.toNat &&
      (charBetween 'Q' 'Z' second || charBetween 'a' 'f' second)) ||
    (size ≥ 21 && first == '7'.toNat && charBetween 'g' 'v' second)
  let incorrect := size ≥ 21 && toLower first == 'e'.toNat && toLower second == 'e'.toNat
  if size < 16 then .Invalid
  else if valid then .Valid
  else if incorrect then .IncorrectSecret
  else .Unsupported

/-- `QString::toLatin1`. -/
def toLatin1 (password : Password) : Bytes :=
  password.map fun ch => if ch.toNat < 256 then UInt8.ofNat ch.toNat else UInt8.ofNat '?'.toNat

def secretFromBase64UrlMtprotoPassword (password : Password) : Bytes :=
  Base64.decode ((toLatin1 password).map (·.toNat))

/-! ## Both -/

/-- `secretFromMtprotoPassword` of a proxy of type `Mtproto`. -/
def secretFromMtprotoPassword (password : Password) : Option Bytes :=
  if isHexMtprotoPassword password then secretFromHexMtprotoPassword password
  else if isBase64UrlMtprotoPassword password then
    some (secretFromBase64UrlMtprotoPassword password)
  else some []

def mtprotoPasswordStatus (password : Password) : Status :=
  if isHexMtprotoPassword password then hexMtprotoPasswordStatus password
  else if isBase64UrlMtprotoPassword password then base64UrlMtprotoPasswordStatus password
  else .Invalid

/-- A secret that connections take. -/
def Usable (secret : Bytes) : Prop :=
  secret.length = 16 ∨ secret.length = 17 ∧ secret.head? = some 0xDD ∨
    21 ≤ secret.length ∧ secret.head? = some 0xEE

/-- The status agrees with the secret. -/
structure Agrees (status : Status) (secret : Bytes) : Prop where
  valid : status = .Valid ↔ Usable secret
  short : secret.length < 16 → status = .Invalid

/-! ## Hex agrees -/

/-- A hex digit is below sixteen, and the letters of the first byte are its digits. -/
theorem exists_fromHex {ch : UInt16} (h : isHexDigit ch = true) :
    ∃ d, fromHex ch = some d ∧ d < 16 ∧ (toLower ch.toNat = 'd'.toNat ↔ d = 13) ∧
      (toLower ch.toNat = 'e'.toNat ↔ d = 14) := by
  simp only [isHexDigit, Bool.or_eq_true, charBetween_iff, Char.reduceToNat] at h
  simp only [fromHex, toLower, charBetween_iff, Char.reduceToNat]
  obtain (h | h) | h := h
  · refine ⟨10 + (ch.toNat - 97), ?_, by omega, ?_, ?_⟩
    · rw [if_neg (by omega), if_neg (by omega), if_pos h]
    · rw [if_neg (by omega)]
      omega
    · rw [if_neg (by omega)]
      omega
  · refine ⟨10 + (ch.toNat - 65), ?_, by omega, ?_, ?_⟩
    · rw [if_neg (by omega), if_pos h]
    · rw [if_pos (by omega)]
      omega
    · rw [if_pos (by omega)]
      omega
  · refine ⟨ch.toNat - 48, ?_, by omega, ?_, ?_⟩
    · rw [if_pos h]
    · rw [if_neg (by omega)]
      omega
    · rw [if_neg (by omega)]
      omega

theorem exists_secretFromHex {password : Password} (h : ∀ ch ∈ password, isHexDigit ch = true)
    (heven : password.length % 2 = 0) :
    ∃ secret, secretFromHexMtprotoPassword password = some secret ∧
      secret.length = password.length / 2 := by
  induction password using secretFromHexMtprotoPassword.induct with
  | case1 => exact ⟨[], rfl, rfl⟩
  | case2 => cases heven
  | case3 ch ch' password ih =>
      obtain ⟨hch, h⟩ := List.forall_mem_cons.mp h
      obtain ⟨hch', h⟩ := List.forall_mem_cons.mp h
      rw [List.length_cons, List.length_cons] at heven
      obtain ⟨secret, hsecret, hlength⟩ := ih h (by omega)
      obtain ⟨high, hhigh, -⟩ := exists_fromHex hch
      obtain ⟨low, hlow, -⟩ := exists_fromHex hch'
      refine ⟨UInt8.ofNat (high * 16 + low) :: secret, ?_, ?_⟩
      · rw [secretFromHexMtprotoPassword, hhigh, hlow, hsecret]
        rfl
      · rw [List.length_cons, hlength, List.length_cons, List.length_cons]
        omega

theorem ofNat_eq_iff {n : Nat} {b : UInt8} (hn : n < 256) : UInt8.ofNat n = b ↔ n = b.toNat := by
  rw [← UInt8.toNat_inj, UInt8.toNat_ofNat_of_lt' hn]

/-- **A password in hex** has the status of its secret. -/
theorem agrees_hex {password : Password} (h : isHexMtprotoPassword password = true) :
    ∃ secret, secretFromHexMtprotoPassword password = some secret ∧
      Agrees (hexMtprotoPasswordStatus password) secret := by
  rw [isHexMtprotoPassword] at h
  split at h
  · cases h
  · next hsize =>
    simp only [Bool.or_eq_true, decide_eq_true_eq, beq_iff_eq, not_or, not_lt] at hsize
    have hall := List.all_eq_true.mp h
    obtain ⟨secret, hsecret, hlength⟩ := exists_secretFromHex hall (by omega)
    refine ⟨secret, hsecret, ?_⟩
    obtain ⟨ch, ch', rest, rfl⟩ : ∃ ch ch' rest, password = ch :: ch' :: rest := by
      rcases password with _ | ⟨ch, _ | ⟨ch', rest⟩⟩
      · exact absurd hsize.1 (by decide)
      · exact absurd hsize.1 (by simp)
      · exact ⟨ch, ch', rest, rfl⟩
    obtain ⟨high, hhigh, hhighlt, hhighd, hhighe⟩ := exists_fromHex (hall ch List.mem_cons_self)
    obtain ⟨low, hlow, hlowlt, hlowd, hlowe⟩ :=
      exists_fromHex (hall ch' (List.mem_cons_of_mem ch List.mem_cons_self))
    have hhead : secret.head? = some (UInt8.ofNat (high * 16 + low)) := by
      rw [secretFromHexMtprotoPassword, hhigh, hlow] at hsecret
      change (secretFromHexMtprotoPassword rest).bind _ = some secret at hsecret
      obtain ⟨tail, -, htail⟩ := Option.bind_eq_some_iff.mp hsecret
      exact (Option.some.inj htail) ▸ rfl
    have hdd : secret.head? = some 0xDD ↔ high = 13 ∧ low = 13 := by
      rw [hhead, Option.some_inj, ofNat_eq_iff (by omega)]
      show high * 16 + low = 221 ↔ _
      omega
    have hee : secret.head? = some 0xEE ↔ high = 14 ∧ low = 14 := by
      rw [hhead, Option.some_inj, ofNat_eq_iff (by omega)]
      show high * 16 + low = 238 ↔ _
      omega
    have hchars : charAt (ch :: ch' :: rest) 0 = ch.toNat ∧
        charAt (ch :: ch' :: rest) 1 = ch'.toNat := ⟨rfl, rfl⟩
    refine ⟨?_, fun hshort => by omega⟩
    have hvalid : hexMtprotoPasswordStatus (ch :: ch' :: rest) = .Valid ↔
        (secret.length = 16 ∨ secret.length = 17 ∧ high = 13 ∧ low = 13) ∨
          21 ≤ secret.length ∧ high = 14 ∧ low = 14 := by
      rw [hexMtprotoPasswordStatus, hchars.1, hchars.2, ← hlength, ← hhighd, ← hhighe, ← hlowd,
        ← hlowe]
      split
      · next hv =>
        simp only [Bool.or_eq_true, Bool.and_eq_true, decide_eq_true_eq, beq_iff_eq,
          and_assoc] at hv
        exact iff_of_true rfl hv
      · next hv =>
        simp only [Bool.or_eq_true, Bool.and_eq_true, decide_eq_true_eq, beq_iff_eq,
          and_assoc] at hv
        refine iff_of_false (fun hstatus => ?_) hv
        split at hstatus <;> cases hstatus
    rw [hvalid, Usable, hdd, hee, or_assoc]

/-! ## Base64url agrees -/

/-- What is skipped at the end is padding. -/
theorem exists_padding (n : Nat) (password : Password) :
    ∃ padding, password = skipPadding n password ++ padding ∧ padding.length ≤ n ∧
      ∀ ch ∈ padding, ch.toNat = '='.toNat := by
  induction n generalizing password with
  | zero => exact ⟨[], (List.append_nil _).symm, le_rfl, by simp⟩
  | succ n ih =>
      rw [skipPadding]
      split
      · next hlast =>
        obtain ⟨ch, hlast, hch⟩ := Option.map_eq_some_iff.mp hlast
        obtain ⟨padding, hpassword, hlength, hpadding⟩ := ih password.dropLast
        have hsplit := List.dropLast_append_getLast? ch hlast
        refine ⟨padding ++ [ch], ?_, ?_, ?_⟩
        · rw [← List.append_assoc, ← hpassword, hsplit]
        · rw [List.length_append, List.length_singleton]
          omega
        · intro ch' hch'
          obtain hch' | hch' := List.mem_append.mp hch'
          · exact hpadding ch' hch'
          · rw [List.mem_singleton.mp hch']
            exact hch
      · exact ⟨[], (List.append_nil _).symm, Nat.zero_le _, by simp⟩

/-- The six bits of a character that is admitted, and which characters make the first bytes. -/
theorem exists_digit {ch : UInt16} (h : isBase64UrlDigit ch = true) :
    ∃ d, digit? ch.toNat = some d ∧ d < 64 ∧ ch.toNat < 256 ∧
      (ch.toNat = '3'.toNat ↔ d = 55) ∧ (ch.toNat = '7'.toNat ↔ d = 59) ∧
      ((charBetween 'Q' 'Z' ch.toNat || charBetween 'a' 'f' ch.toNat) = true ↔ d / 16 = 1) ∧
      (charBetween 'g' 'v' ch.toNat = true ↔ d / 16 = 2) := by
  simp only [isBase64UrlDigit, Bool.or_eq_true, charBetween_iff, Char.reduceToNat, beq_iff_eq] at h
  have hsome : digit? ch.toNat ≠ none := by
    simp only [digit?, charBetween_iff, Char.reduceToNat]
    grind
  obtain ⟨d, hd⟩ := Option.ne_none_iff_exists'.mp hsome
  refine ⟨d, hd, digit?_lt hd, by omega, ?_⟩
  simp only [digit?, charBetween_iff, Char.reduceToNat] at hd
  simp only [Bool.or_eq_true, charBetween_iff, Char.reduceToNat]
  grind

theorem toNat_toLatin1 {password : Password} (h : ∀ ch ∈ password, ch.toNat < 256) :
    (toLatin1 password).map (·.toNat) = password.map (·.toNat) := by
  rw [toLatin1, List.map_map]
  refine List.map_congr_left fun ch hch => ?_
  show (if ch.toNat < 256 then UInt8.ofNat ch.toNat else _).toNat = ch.toNat
  rw [if_pos (h ch hch), UInt8.toNat_ofNat_of_lt' (h ch hch)]

/-- The secret is decoded from what is before the padding. -/
theorem secret_eq {inner padding : Password} (h : ∀ ch ∈ inner, isBase64UrlDigit ch = true)
    (hpadding : ∀ ch ∈ padding, ch.toNat = '='.toNat) :
    secretFromBase64UrlMtprotoPassword (inner ++ padding) =
      Base64.decode (inner.map (·.toNat)) := by
  have hlatin1 : ∀ ch ∈ inner ++ padding, ch.toNat < 256 := by
    intro ch hch
    obtain hch | hch := List.mem_append.mp hch
    · obtain ⟨d, -, -, hlt, -⟩ := exists_digit (h ch hch)
      exact hlt
    · rw [hpadding ch hch]
      decide
  rw [secretFromBase64UrlMtprotoPassword, toNat_toLatin1 hlatin1, List.map_append, decode,
    decodeFrom_append, decode]
  intro code hcode
  obtain ⟨ch, hch, rfl⟩ := List.mem_map.mp hcode
  rw [hpadding ch hch]
  decide

/-- **A password in base64url** has the status of its secret. -/
theorem agrees_base64Url {password : Password} (h : isBase64UrlMtprotoPassword password = true) :
    Agrees (base64UrlMtprotoPasswordStatus password)
      (secretFromBase64UrlMtprotoPassword password) := by
  rw [isBase64UrlMtprotoPassword] at h
  split at h
  · cases h
  · next hsize =>
    simp only [Bool.or_eq_true, decide_eq_true_eq, beq_iff_eq, not_or, not_lt] at hsize
    have hall := List.all_eq_true.mp h
    obtain ⟨padding, hpassword, hlength, hpadding⟩ := exists_padding 2 password
    have hsplit : password = base64UrlInner password ++ padding := hpassword
    generalize hinner : base64UrlInner password = inner at hall hsplit
    have hlong : 20 ≤ inner.length := by
      have := congrArg List.length hsplit
      rw [List.length_append] at this
      omega
    obtain ⟨ch, ch', rest, rfl⟩ : ∃ ch ch' rest, inner = ch :: ch' :: rest := by
      rcases inner with _ | ⟨ch, _ | ⟨ch', rest⟩⟩
      · exact absurd hlong (by decide)
      · exact absurd hlong (by simp)
      · exact ⟨ch, ch', rest, rfl⟩
    obtain ⟨d, hd, hdlt, -, hthree, hseven, -⟩ := exists_digit (hall ch List.mem_cons_self)
    obtain ⟨d', hd', hdlt', -, -, -, hqf, hgv⟩ :=
      exists_digit (hall ch' (List.mem_cons_of_mem ch List.mem_cons_self))
    have hsecret : secretFromBase64UrlMtprotoPassword password =
        Base64.decode ((ch :: ch' :: rest).map (·.toNat)) := by
      rw [hsplit]
      exact secret_eq hall hpadding
    have hsecretLength : (secretFromBase64UrlMtprotoPassword password).length =
        (ch :: ch' :: rest).length * 3 / 4 := by
      rw [hsecret, length_decode, List.length_map]
      intro code hcode
      obtain ⟨ch, hch, rfl⟩ := List.mem_map.mp hcode
      obtain ⟨d, hd, -⟩ := exists_digit (hall ch hch)
      rw [hd]
      rfl
    have hhead : (secretFromBase64UrlMtprotoPassword password).head? =
        some (UInt8.ofNat (d * 4 + d' / 16)) := by
      rw [hsecret]
      exact head?_decode hd hd'
    have hdd : (secretFromBase64UrlMtprotoPassword password).head? = some 0xDD ↔
        d = 55 ∧ d' / 16 = 1 := by
      rw [hhead, Option.some_inj, ofNat_eq_iff (by omega)]
      show d * 4 + d' / 16 = 221 ↔ _
      omega
    have hee : (secretFromBase64UrlMtprotoPassword password).head? = some 0xEE ↔
        d = 59 ∧ d' / 16 = 2 := by
      rw [hhead, Option.some_inj, ofNat_eq_iff (by omega)]
      show d * 4 + d' / 16 = 238 ↔ _
      omega
    have hchars : charAt password 0 = ch.toNat ∧ charAt password 1 = ch'.toNat := by
      rw [hsplit]
      exact ⟨rfl, rfl⟩
    generalize secretFromBase64UrlMtprotoPassword password = secret at *
    have hstatus : base64UrlMtprotoPasswordStatus password =
        if secret.length < 16 then .Invalid
        else if (secret.length = 16 ∨ secret.length = 17 ∧ d = 55 ∧ d' / 16 = 1) ∨
            21 ≤ secret.length ∧ d = 59 ∧ d' / 16 = 2 then .Valid
        else if 21 ≤ secret.length ∧ toLower ch.toNat = 'e'.toNat ∧
            toLower ch'.toNat = 'e'.toNat then .IncorrectSecret
        else .Unsupported := by
      rw [base64UrlMtprotoPasswordStatus, hinner, ← hsecretLength, hchars.1, hchars.2]
      simp only [Bool.or_eq_true, Bool.and_eq_true, decide_eq_true_eq, beq_iff_eq, and_assoc,
        hthree, hseven, hgv, ← hqf]
    constructor
    · rw [hstatus, Usable, hdd, hee, ← or_assoc]
      split
      · exact iff_of_false Status.noConfusion (by omega)
      · split
        · next hvalid => exact iff_of_true rfl hvalid
        · next hvalid =>
          refine iff_of_false (fun heq => ?_) hvalid
          split at heq <;> cases heq
    · intro hshort
      rw [hstatus, if_pos hshort]

/-- **The status of a password** is `Valid` when its secret is usable, and `Invalid` when it is
shorter than any secret. -/
theorem status_agrees {password : Password}
    (h : isHexMtprotoPassword password = true ∨ isBase64UrlMtprotoPassword password = true) :
    ∃ secret, secretFromMtprotoPassword password = some secret ∧
      Agrees (mtprotoPasswordStatus password) secret := by
  unfold secretFromMtprotoPassword mtprotoPasswordStatus
  by_cases hhex : isHexMtprotoPassword password = true
  · rw [if_pos hhex, if_pos hhex]
    exact agrees_hex hhex
  · have hbase64 := h.resolve_left hhex
    rw [if_neg hhex, if_neg hhex, if_pos hbase64, if_pos hbase64]
    exact ⟨_, rfl, agrees_base64Url hbase64⟩

/-- A usable secret is one that the options of a dc may have, and not empty. -/
theorem usable_iff {secret : Bytes} :
    Usable secret ↔ validateSecret secret = true ∧ secret ≠ [] := by
  unfold Usable validateSecret
  simp only [Bool.or_eq_true, Bool.and_eq_true, decide_eq_true_eq, beq_iff_eq, List.isEmpty_iff]
  cases secret with
  | nil => simp
  | cons b secret => tauto

/-- The units of an ASCII text. -/
def ascii (text : String) : Password := text.toList.map fun c => UInt16.ofNat c.toNat

/-- A secret of seventeen bytes with `0xDD` first, in base64url. -/
theorem status_agrees_base64Url :
    ∃ secret, secretFromMtprotoPassword (ascii "3QAAAAAAAAAAAAAAAAAAAAA=") = some secret ∧
      Agrees (mtprotoPasswordStatus (ascii "3QAAAAAAAAAAAAAAAAAAAAA=")) secret :=
  status_agrees (Or.inr (by decide +kernel))

end ProxyData

end MTP

end MessengerClient
