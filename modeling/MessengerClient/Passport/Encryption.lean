import MessengerClient.Lib.Bytes
import Mathlib.Algebra.BigOperators.Group.List.Basic
import Mathlib.Logic.Equiv.Basic

/-!
# MessengerClient.Passport.Encryption

The encryption of passport data and of the secrets that it is encrypted with.

A failed `Expects` or `Assert` is `none`; where the code logs an error and returns no bytes the
result is `some []`.  A span holds less than `2 ^ 63` bytes, so no sum of sizes leaves `size_t`.
-/

namespace MessengerClient

namespace Passport

def kAesKeyLength : Nat := 32
def kAesIvLength : Nat := 16
def kSecretSize : Nat := 32
def kAesParamsHashSize : Nat := 64
def kMinPadding : Nat := 32
def kMaxPadding : Nat := 255
def kAlignTo : Nat := 16

/-! ## The cryptographic library -/

/-- `AES_ENCRYPT` or `AES_DECRYPT`. -/
inductive Direction where
  | encrypt
  | decrypt
deriving DecidableEq

structure OpenSsl where
  sha256 : Bytes → Bytes
  sha512 : Bytes → Bytes
  /-- `AES_set_encrypt_key` or `AES_set_decrypt_key` takes the key. -/
  setKey : Direction → Bytes → Bool
  /-- What `AES_cbc_encrypt` writes, for a key, an iv and the bytes that it reads. -/
  cbc : Direction → Bytes → Bytes → Bytes → Bytes

/-- What the code relies on. -/
structure OpenSsl.Lawful (ssl : OpenSsl) : Prop where
  length_sha256 : ∀ bytes, (ssl.sha256 bytes).length = 32
  length_sha512 : ∀ bytes, (ssl.sha512 bytes).length = 64
  setKey : ∀ direction key, key.length = 32 → ssl.setKey direction key = true
  length_cbc : ∀ direction key iv bytes, key.length = 32 → iv.length = 16 →
    bytes.length % 16 = 0 → (ssl.cbc direction key iv bytes).length = bytes.length
  decrypt_encrypt : ∀ key iv bytes, key.length = 32 → iv.length = 16 → bytes.length % 16 = 0 →
    ssl.cbc .decrypt key iv (ssl.cbc .encrypt key iv bytes) = bytes

structure AesParams where
  key : Bytes
  iv : Bytes

def prepareAesParamsWithHash (hashForEncryptionKey : Bytes) : Option AesParams :=
  if hashForEncryptionKey.length = kAesParamsHashSize then
    some { key := hashForEncryptionKey.take kAesKeyLength
           iv := (hashForEncryptionKey.drop kAesKeyLength).take kAesIvLength }
  else
    none

def prepareAesParams (ssl : OpenSsl) (bytesForEncryptionKey : Bytes) : Option AesParams :=
  prepareAesParamsWithHash (ssl.sha512 bytesForEncryptionKey)

def encryptOrDecrypt (ssl : OpenSsl) (initial : Bytes) (params : AesParams)
    (direction : Direction) : Option Bytes :=
  if initial.length &&& 0x0F = 0 ∧ params.key.length = kAesKeyLength ∧
      params.iv.length = kAesIvLength then
    if ssl.setKey direction params.key then
      some (ssl.cbc direction params.key params.iv initial)
    else
      some []
  else
    none

def encrypt (ssl : OpenSsl) (decrypted : Bytes) (params : AesParams) : Option Bytes :=
  encryptOrDecrypt ssl decrypted params .encrypt

def decrypt (ssl : OpenSsl) (encrypted : Bytes) (params : AesParams) : Option Bytes :=
  encryptOrDecrypt ssl encrypted params .decrypt

/-- Parameters of the sizes that the cipher takes. -/
structure AesParams.Sized (params : AesParams) : Prop where
  key : params.key.length = 32
  iv : params.iv.length = 16

theorem prepareAesParams_eq {ssl : OpenSsl} (h : ssl.Lawful) (bytes : Bytes) :
    ∃ params : AesParams, prepareAesParams ssl bytes = some params ∧ params.Sized := by
  have hlength := h.length_sha512 bytes
  refine ⟨_, if_pos hlength, ?_, ?_⟩
  · simp [hlength, kAesKeyLength]
  · simp [hlength, kAesKeyLength, kAesIvLength]

theorem encryptOrDecrypt_eq {ssl : OpenSsl} (h : ssl.Lawful) {params : AesParams}
    (hsized : params.Sized) {initial : Bytes} (hlength : initial.length % 16 = 0)
    (direction : Direction) :
    encryptOrDecrypt ssl initial params direction =
      some (ssl.cbc direction params.key params.iv initial) := by
  have hmask : initial.length &&& 0x0F = 0 := by
    rw [show (0x0F : Nat) = 2 ^ 4 - 1 from rfl, Nat.and_two_pow_sub_one_eq_mod]
    exact hlength
  unfold encryptOrDecrypt
  rw [if_pos ⟨hmask, hsized.key, hsized.iv⟩, if_pos (h.setKey direction _ hsized.key)]

/-- **The cipher round trip**: bytes that fill whole blocks are encrypted to as many bytes, and
decrypted under the same parameters. -/
theorem encrypt_decrypt {ssl : OpenSsl} (h : ssl.Lawful) {params : AesParams}
    (hsized : params.Sized) (bytes : Bytes) (hlength : bytes.length % 16 = 0) :
    ∃ encrypted, encrypt ssl bytes params = some encrypted ∧
      encrypted.length = bytes.length ∧ decrypt ssl encrypted params = some bytes := by
  have hsame := h.length_cbc .encrypt _ _ _ hsized.key hsized.iv hlength
  refine ⟨_, encryptOrDecrypt_eq h hsized hlength .encrypt, hsame, ?_⟩
  unfold decrypt
  rw [encryptOrDecrypt_eq h hsized (by rw [hsame]; exact hlength),
    h.decrypt_encrypt _ _ _ hsized.key hsized.iv hlength]

/-! ## Secrets -/

/-- `ranges::accumulate` in `uint64`. -/
def accumulate (bytes : Bytes) : Nat :=
  bytes.foldl (fun sum value => (sum + value.toNat) % 2 ^ 64) 0

def checkBytesMod255 (bytes : Bytes) : Bool := accumulate bytes % 255 = 239

def checkSecretBytes (secret : Bytes) : Bool := checkBytesMod255 secret

/-- `GenerateSecretBytes`, for the bytes that `set_random` puts in the vector. -/
def generateSecretBytes (random : Bytes) : Bytes :=
  let mod := accumulate random % 255
  let add := 255 + 239 - mod
  let first := ((random.headD 0).toNat + add) % 255
  random.set 0 (UInt8.ofNat first)

def decryptSecretBytesWithHash (ssl : OpenSsl) (encryptedSecret hashForEncryptionKey : Bytes) :
    Option Bytes :=
  if encryptedSecret.isEmpty then
    some []
  else if encryptedSecret.length ≠ kSecretSize then
    some []
  else do
    let params ← prepareAesParamsWithHash hashForEncryptionKey
    let result ← decrypt ssl encryptedSecret params
    if checkSecretBytes result then some result else some []

def decryptSecretBytes (ssl : OpenSsl) (encryptedSecret bytesForEncryptionKey : Bytes) :
    Option Bytes :=
  decryptSecretBytesWithHash ssl encryptedSecret (ssl.sha512 bytesForEncryptionKey)

def encryptSecretBytes (ssl : OpenSsl) (secret bytesForEncryptionKey : Bytes) : Option Bytes :=
  if secret.length = kSecretSize ∧ checkSecretBytes secret = true then do
    let params ← prepareAesParams ssl bytesForEncryptionKey
    encrypt ssl secret params
  else
    none

def encryptValueSecret (ssl : OpenSsl) (valueSecret secret valueHash : Bytes) : Option Bytes :=
  encryptSecretBytes ssl valueSecret (secret ++ valueHash)

def decryptValueSecret (ssl : OpenSsl) (encrypted secret valueHash : Bytes) : Option Bytes :=
  decryptSecretBytes ssl encrypted (secret ++ valueHash)

/-- The sum of the bytes. -/
def total (bytes : Bytes) : Nat := (bytes.map UInt8.toNat).sum

@[simp] theorem total_cons (byte : UInt8) (bytes : Bytes) :
    total (byte :: bytes) = byte.toNat + total bytes := by
  simp [total]

theorem total_le (bytes : Bytes) : total bytes ≤ 255 * bytes.length := by
  induction bytes with
  | nil => simp [total]
  | cons byte bytes ih =>
    have hbyte := byte.toNat_lt
    simp only [total_cons, List.length_cons]
    omega

/-- The sum of a secret does not wrap. -/
theorem accumulate_eq (bytes : Bytes) (h : bytes.length ≤ 32) : accumulate bytes = total bytes := by
  have hfold : ∀ (bytes : Bytes) (sum : Nat), sum + total bytes < 2 ^ 64 →
      bytes.foldl (fun sum value => (sum + value.toNat) % 2 ^ 64) sum = sum + total bytes := by
    intro bytes
    induction bytes with
    | nil => simp [total]
    | cons byte bytes ih =>
      intro sum hlt
      rw [total_cons] at hlt
      have hstep : (sum + byte.toNat) % 2 ^ 64 = sum + byte.toNat := Nat.mod_eq_of_lt (by omega)
      rw [List.foldl_cons, hstep, ih _ (by omega), total_cons, Nat.add_assoc]
  have hle := total_le bytes
  rw [accumulate, hfold bytes 0 (by omega), Nat.zero_add]

theorem length_generateSecretBytes (random : Bytes) :
    (generateSecretBytes random).length = random.length := by
  simp [generateSecretBytes]

/-- **Generated secrets pass the check**: the first byte is moved by what the sum misses. -/
theorem checkSecretBytes_generateSecretBytes {random : Bytes} (h : random.length = kSecretSize) :
    checkSecretBytes (generateSecretBytes random) = true := by
  cases random with
  | nil => simp [kSecretSize] at h
  | cons first rest =>
    have hle : (first :: rest).length ≤ 32 := le_of_eq h
    have hsum := accumulate_eq (generateSecretBytes (first :: rest))
      (by rw [length_generateSecretBytes]; exact hle)
    have hmod : total (generateSecretBytes (first :: rest)) % 255 = 239 := by
      simp only [generateSecretBytes, List.headD_cons, List.set_cons_zero, total_cons,
        UInt8.toNat_ofNat', accumulate_eq _ hle]
      omega
    rw [checkSecretBytes, checkBytesMod255, hsum, hmod, decide_eq_true rfl]

/-- **The round trip of a secret** that passes the check. -/
theorem decryptValueSecret_encryptValueSecret {ssl : OpenSsl} (h : ssl.Lawful)
    {valueSecret : Bytes} (hlength : valueSecret.length = kSecretSize)
    (hcheck : checkSecretBytes valueSecret = true) (secret valueHash : Bytes) :
    ∃ encrypted, encryptValueSecret ssl valueSecret secret valueHash = some encrypted ∧
      decryptValueSecret ssl encrypted secret valueHash = some valueSecret := by
  obtain ⟨params, hparams, hsized⟩ := prepareAesParams_eq h (secret ++ valueHash)
  have hblocks : valueSecret.length % 16 = 0 := by rw [hlength]; rfl
  obtain ⟨encrypted, hencrypt, hsame, hdecrypt⟩ := encrypt_decrypt h hsized _ hblocks
  rw [hlength] at hsame
  have hne : encrypted.isEmpty = false := by
    cases encrypted with
    | nil => simp [kSecretSize] at hsame
    | cons _ _ => rfl
  refine ⟨encrypted, ?_, ?_⟩
  · simp [encryptValueSecret, encryptSecretBytes, hlength, hcheck, hparams, hencrypt]
  · rw [prepareAesParams] at hparams
    simp [decryptValueSecret, decryptSecretBytes, decryptSecretBytesWithHash, hne, hsame, hparams,
      hdecrypt, hcheck]

/-! ## Data -/

structure EncryptedData where
  secret : Bytes
  hash : Bytes
  bytes : Bytes
deriving DecidableEq

/-- The padding of `EncryptData`, for the size of the bytes and the random value. -/
def padding (size : Nat) (random : UInt32) : Nat :=
  let kFromPadding := kMinPadding + kAlignTo - 1
  let kPaddingDelta := kMaxPadding - kFromPadding
  let randomPadding := kFromPadding + random.toNat % kPaddingDelta
  randomPadding - (size + randomPadding) % kAlignTo

/-- The vector that `EncryptData` encrypts; `fill` gives the random bytes of the padding. -/
def padded (bytes : Bytes) (padding : Nat) (fill : Nat → UInt8) : Bytes :=
  UInt8.ofNat padding :: (List.range (padding - 1)).map fill ++ bytes

def encryptData (ssl : OpenSsl) (bytes dataSecret : Bytes) (random : UInt32)
    (fill : Nat → UInt8) : Option EncryptedData :=
  let padding := padding bytes.length random
  if ¬(kMinPadding ≤ padding ∧ padding ≤ kMaxPadding) then
    none
  else if (padding + bytes.length) % kAlignTo ≠ 0 then
    none
  else do
    let unencrypted := padded bytes padding fill
    let dataHash := ssl.sha256 unencrypted
    let params ← prepareAesParams ssl (dataSecret ++ dataHash)
    let encrypted ← encrypt ssl unencrypted params
    return { secret := dataSecret, hash := dataHash, bytes := encrypted }

def decryptData (ssl : OpenSsl) (encrypted dataHash dataSecret : Bytes) : Option Bytes :=
  let kDataHashSize := 32
  if encrypted.isEmpty then
    some []
  else if dataHash.length ≠ kDataHashSize then
    some []
  else if dataSecret.length ≠ kSecretSize then
    some []
  else if encrypted.length % kAlignTo ≠ 0 then
    some []
  else do
    let params ← prepareAesParams ssl (dataSecret ++ dataHash)
    let decrypted ← decrypt ssl encrypted params
    if ssl.sha256 decrypted ≠ dataHash then
      some []
    else
      let padding := (decrypted.headD 0).toNat
      if padding < kMinPadding ∨ kMaxPadding < padding ∨ decrypted.length < padding then
        some []
      else
        some (decrypted.drop padding)

/-- The padding is in its bounds and fills the last block. -/
theorem padding_bounds (size : Nat) (random : UInt32) :
    kMinPadding ≤ padding size random ∧ padding size random ≤ kMaxPadding ∧
      (padding size random + size) % kAlignTo = 0 := by
  simp only [padding, kMinPadding, kMaxPadding, kAlignTo]
  omega

theorem length_padded (bytes : Bytes) {padding : Nat} (fill : Nat → UInt8) (h : 0 < padding) :
    (padded bytes padding fill).length = padding + bytes.length := by
  simp [padded]
  omega

theorem drop_padded (bytes : Bytes) {padding : Nat} (fill : Nat → UInt8) (h : 0 < padding) :
    (padded bytes padding fill).drop padding = bytes := by
  rw [padded, List.drop_append_of_le_length (by simp; omega)]
  rw [List.drop_eq_nil_of_le (by simp; omega), List.nil_append]

/-- **The round trip of the data**, whatever the padding. -/
theorem decryptData_encryptData {ssl : OpenSsl} (h : ssl.Lawful) (bytes : Bytes)
    {dataSecret : Bytes} (hsecret : dataSecret.length = kSecretSize) (random : UInt32)
    (fill : Nat → UInt8) :
    ∃ encrypted, encryptData ssl bytes dataSecret random fill = some encrypted ∧
      encrypted.secret = dataSecret ∧
      decryptData ssl encrypted.bytes encrypted.hash dataSecret = some bytes := by
  obtain ⟨hmin, hmax, halign⟩ := padding_bounds bytes.length random
  have hpos : 0 < padding bytes.length random := Nat.lt_of_lt_of_le (by decide) hmin
  have hlength := length_padded bytes fill hpos
  have hdrop := drop_padded bytes fill hpos
  have hhead : ((padded bytes (padding bytes.length random) fill).headD 0).toNat =
      padding bytes.length random := by
    simp only [kMaxPadding] at hmax
    simp only [padded, List.cons_append, List.headD_cons, UInt8.toNat_ofNat']
    omega
  simp only [encryptData]
  rw [if_neg (not_not_intro ⟨hmin, hmax⟩), if_neg (not_not_intro halign)]
  generalize padded bytes (padding bytes.length random) fill = unencrypted at *
  obtain ⟨params, hparams, hsized⟩ :=
    prepareAesParams_eq h (dataSecret ++ ssl.sha256 unencrypted)
  obtain ⟨encrypted, hencrypt, hsame, hdecrypt⟩ :=
    encrypt_decrypt h hsized unencrypted (by rw [hlength]; exact halign)
  rw [hparams, Option.bind_eq_bind, Option.bind_some, hencrypt]
  refine ⟨_, rfl, rfl, ?_⟩
  dsimp only
  have hne : encrypted.isEmpty = false := by
    cases encrypted with
    | nil => simp at hsame; omega
    | cons _ _ => rfl
  have hblocks : encrypted.length % kAlignTo = 0 := by rw [hsame, hlength]; exact halign
  have hhash := h.length_sha256 unencrypted
  have hgood : ¬(padding bytes.length random < kMinPadding ∨
      kMaxPadding < padding bytes.length random ∨
      unencrypted.length < padding bytes.length random) := by
    omega
  simp only [decryptData, hne, hhash, hsecret, hblocks, hparams, hdecrypt, hhead, hdrop, hgood,
    Bool.false_eq_true, ne_eq, not_true_eq_false, ↓reduceIte, Option.bind_eq_bind,
    Option.bind_some]

/-- **What the owner of the data decrypts**: the bytes that were encrypted, and the secrets that
they were encrypted with. -/
theorem decryptable {ssl : OpenSsl} (h : ssl.Lawful) :
    (∀ (bytes dataSecret : Bytes) (random : UInt32) (fill : Nat → UInt8),
      dataSecret.length = kSecretSize → checkSecretBytes dataSecret = true →
      (32 ≤ padding bytes.length random ∧ padding bytes.length random ≤ 255 ∧
        (padding bytes.length random + bytes.length) % 16 = 0) ∧
      ∃ encrypted, encryptData ssl bytes dataSecret random fill = some encrypted ∧
        encrypted.secret = dataSecret ∧
        decryptData ssl encrypted.bytes encrypted.hash dataSecret = some bytes) ∧
    ∀ random : Bytes, random.length = 32 →
      (generateSecretBytes random).length = kSecretSize ∧
      checkSecretBytes (generateSecretBytes random) = true ∧
      ∀ secret valueHash, ∃ encrypted,
        encryptValueSecret ssl (generateSecretBytes random) secret valueHash = some encrypted ∧
        decryptValueSecret ssl encrypted secret valueHash = some (generateSecretBytes random) := by
  constructor
  · intro bytes dataSecret random fill hsecret _
    exact ⟨padding_bounds bytes.length random, decryptData_encryptData h bytes hsecret random fill⟩
  · intro random hrandom
    have hlength : (generateSecretBytes random).length = kSecretSize :=
      (length_generateSecretBytes random).trans hrandom
    have hcheck := checkSecretBytes_generateSecretBytes hrandom
    exact ⟨hlength, hcheck, decryptValueSecret_encryptValueSecret h hlength hcheck⟩

/-! ## A secret and no data

The library at the values that the real one has here: the padding of no bytes and the secret, both
encrypted under the parameters of the secret and the hash. -/

namespace Sample

def secret : Bytes := 239 :: List.replicate 31 0

def unencrypted : Bytes := 32 :: List.replicate 31 0

def dataHash : Bytes :=
  [109, 8, 85, 163, 53, 128, 47, 11, 194, 9, 70, 243, 196, 140, 5, 182, 185, 140, 20, 181, 120, 2,
   13, 95, 66, 161, 102, 185, 127, 230, 245, 159]

def hashForEncryptionKey : Bytes :=
  [34, 233, 134, 43, 156, 18, 207, 199, 8, 227, 41, 244, 72, 249, 122, 94, 105, 228, 17, 25, 75,
   105, 102, 164, 102, 89, 195, 104, 178, 235, 56, 191, 95, 132, 105, 181, 38, 181, 54, 16, 22, 75,
   202, 126, 145, 83, 82, 172, 179, 19, 191, 234, 115, 63, 73, 138, 192, 214, 196, 65, 173, 164,
   161, 17]

/-- The cipher text of `unencrypted`. -/
def encrypted : Bytes :=
  [255, 216, 198, 231, 135, 217, 34, 125, 25, 66, 163, 100, 163, 35, 84, 8, 189, 123, 106, 243, 222,
   39, 211, 151, 191, 235, 212, 194, 243, 112, 7, 202]

/-- The cipher text of `secret`. -/
def encryptedSecret : Bytes :=
  [13, 61, 248, 51, 173, 157, 118, 46, 219, 106, 8, 80, 90, 58, 92, 250, 219, 223, 39, 194, 245,
   172, 176, 147, 144, 184, 223, 140, 166, 20, 55, 172]

def cipher : Equiv.Perm Bytes :=
  (Equiv.swap unencrypted encrypted).trans (Equiv.swap secret encryptedSecret)

def ssl : OpenSsl where
  sha256 := fun _ => dataHash
  sha512 := fun _ => hashForEncryptionKey
  setKey := fun _ _ => true
  cbc
    | .encrypt, _, _, bytes => cipher bytes
    | .decrypt, _, _, bytes => cipher.symm bytes

theorem length_swap {a b : Bytes} (h : a.length = b.length) (bytes : Bytes) :
    (Equiv.swap a b bytes).length = bytes.length := by
  rw [Equiv.swap_apply_def]
  split
  · next ha => rw [ha, h]
  · split
    · next hb => rw [hb, h]
    · rfl

theorem lawful : ssl.Lawful where
  length_sha256 := fun _ => rfl
  length_sha512 := fun _ => rfl
  setKey := fun _ _ _ => rfl
  length_cbc := fun direction _ _ bytes _ _ _ => by
    have hdata : unencrypted.length = encrypted.length := rfl
    have hsecret : secret.length = encryptedSecret.length := rfl
    cases direction with
    | encrypt => exact (length_swap hsecret _).trans (length_swap hdata bytes)
    | decrypt => exact (length_swap hdata _).trans (length_swap hsecret bytes)
  decrypt_encrypt := fun _ _ bytes _ _ _ => cipher.symm_apply_apply bytes

end Sample

open Sample in
theorem decryptable_no_bytes :
    (∃ encrypted, encryptData ssl [] secret 0 (fun _ => 0) = some encrypted ∧
      encrypted.secret = secret ∧
      decryptData ssl encrypted.bytes encrypted.hash secret = some []) ∧
    generateSecretBytes (List.replicate 32 0) = secret ∧
    ∃ encrypted, encryptValueSecret ssl secret secret dataHash = some encrypted ∧
      decryptValueSecret ssl encrypted secret dataHash = some secret := by
  have hsecret : generateSecretBytes (List.replicate 32 0) = secret := by decide
  have hdata := ((decryptable lawful).1 [] secret 0 (fun _ => 0) rfl (by decide)).2
  have hvalue := (((decryptable lawful).2 (List.replicate 32 0) rfl).2.2 secret dataHash)
  rw [hsecret] at hvalue
  exact ⟨hdata, hsecret, hvalue⟩

end Passport

end MessengerClient
