import MessengerClient.Storage.FileUtilities

/-!
# MessengerClient.Storage.Encrypted

`PrepareEncrypted` and `DecryptLocal`: the encryption of the contents of a local file.

The sizes are counted in `uint32`.  Where a buffer is too short for what is written to it, or
for what is read of it, the result is `none`, and so it is where `DecryptLocal` fails.
-/

namespace MessengerClient

namespace Storage

/-! ## The cryptographic library -/

structure Crypto (AuthKey : Type) where
  md5 : Bytes → Bytes
  hashSha1 : Bytes → Bytes
  /-- What is written for some bytes, a key and the front of the digest. -/
  aesEncryptLocal : Bytes → AuthKey → Bytes → Bytes
  aesDecryptLocal : Bytes → AuthKey → Bytes → Bytes

variable {AuthKey : Type}

/-- What the code relies on. -/
structure Crypto.Lawful (lib : Crypto AuthKey) : Prop where
  length_md5 : ∀ bytes, (lib.md5 bytes).length = 16
  length_hashSha1 : ∀ bytes, (lib.hashSha1 bytes).length = 20
  length_aesEncryptLocal : ∀ bytes key key128, bytes.length % 16 = 0 →
    (lib.aesEncryptLocal bytes key key128).length = bytes.length
  decrypt_encrypt : ∀ bytes key key128, bytes.length % 16 = 0 →
    lib.aesDecryptLocal (lib.aesEncryptLocal bytes key key128) key key128 = bytes

variable (lib : Crypto AuthKey)

/-! ## PrepareEncrypted -/

/-- The size with the padding. -/
def fullSize (size : Nat) : Nat :=
  if size &&& 0x0F = 0 then size else u32 (size + (0x10 - (size &&& 0x0F) : Nat))

/-- The bytes with the padding, which `random` fills. -/
def padded (data : Bytes) (random : Nat → UInt8) : Option Bytes :=
  let size := u32 data.length
  if size &&& 0x0F = 0 then some data
  else if fullSize size < size then none
  else some (data.take size ++ (List.range (fullSize size - size)).map random)

def PrepareEncrypted (data : Bytes) (random : Nat → UInt8) (key : AuthKey) : Option Bytes := do
  let size := u32 data.length
  let toEncrypt ← padded data random
  if toEncrypt.length < 4 then none
  else
    let toEncrypt := le32 size ++ toEncrypt.drop 4
    -- The digest is longer than the part of it that is kept.
    if u32 (0x10 + fullSize size : Nat) < 20 then none
    else
      let key128 := (lib.hashSha1 (toEncrypt.take (u32 toEncrypt.length))).take 0x10
      some (key128 ++ lib.aesEncryptLocal (toEncrypt.take (fullSize size)) key key128)

/-! ## DecryptLocal -/

def DecryptLocal (encrypted : Bytes) (key : AuthKey) : Option Bytes :=
  if encrypted.length ≤ 16 ∨ encrypted.length &&& 0x0F ≠ 0 then none
  else
    let fullLen := u32 (encrypted.length - 16 : Nat)
    let encryptedKey := encrypted.take 16
    let decrypted := lib.aesDecryptLocal ((encrypted.drop 16).take fullLen) key encryptedKey
    if (lib.hashSha1 decrypted).take 16 ≠ encryptedKey then none
    else
      match readLe32 decrypted with
      | none => none
      | some (dataLen, _) =>
          if u32 decrypted.length < dataLen ∨ dataLen ≤ u32 (fullLen - 16) ∨ dataLen < 4 then none
          else some (decrypted.take dataLen)

/-! ## Sizes -/

theorem and_0x0F (n : Nat) : n &&& 0x0F = n % 16 := Nat.and_two_pow_sub_one_eq_mod n 4

theorem fullSize_of_le {size : Nat} (h : size ≤ 2 ^ 32 - 16) :
    fullSize size = (size + 15) / 16 * 16 := by
  unfold fullSize u32
  rw [and_0x0F]
  split <;> omega

/-- There are at most two blocks less than what a `uint32` counts. -/
theorem fullSize_bounds {size : Nat} (h : size ≤ 2 ^ 32 - 32) :
    size ≤ fullSize size ∧ fullSize size < size + 16 ∧ fullSize size ≤ 2 ^ 32 - 32 ∧
      fullSize size % 16 = 0 := by
  rw [fullSize_of_le (by omega)]
  omega

theorem u32_length_lt (data : Bytes) : u32 data.length < 2 ^ 32 := u32_lt _

/-- The padding fills up the last block of what a `uint32` counts. -/
theorem padded_eq {data : Bytes} (random : Nat → UInt8) (h : u32 data.length ≤ 2 ^ 32 - 32) :
    ∃ toEncrypt, padded data random = some toEncrypt ∧
      fullSize (u32 data.length) ≤ toEncrypt.length ∧
      (data.length < 2 ^ 32 → toEncrypt.length = fullSize data.length ∧
        toEncrypt.take data.length = data) := by
  obtain ⟨hle, -⟩ := fullSize_bounds h
  have hsize : u32 data.length ≤ data.length := by
    unfold u32
    omega
  unfold padded
  dsimp only
  split
  · next hzero =>
      refine ⟨data, rfl, by rw [fullSize, if_pos hzero]; exact hsize, fun hlt => ?_⟩
      rw [u32_of_lt hlt] at hzero
      exact ⟨by rw [fullSize, if_pos hzero], List.take_length⟩
  · have hlength : (data.take (u32 data.length) ++
        (List.range (fullSize (u32 data.length) - u32 data.length)).map random).length =
          fullSize (u32 data.length) := by
      rw [List.length_append, List.length_take, List.length_map, List.length_range]
      omega
    rw [if_neg (by omega)]
    refine ⟨_, rfl, hlength.ge, fun hlt => ⟨by rw [hlength, u32_of_lt hlt], ?_⟩⟩
    rw [u32_of_lt hlt, List.take_length, List.take_left]

/-! ## What is prepared -/

theorem PrepareEncrypted_eq {data : Bytes} (random : Nat → UInt8) (key : AuthKey)
    (hpos : 0 < u32 data.length) (h : u32 data.length ≤ 2 ^ 32 - 32) {toEncrypt : Bytes}
    (hpadded : padded data random = some toEncrypt)
    (hlength : fullSize (u32 data.length) ≤ toEncrypt.length) :
    PrepareEncrypted lib data random key =
      let toEncrypt := le32 (u32 data.length) ++ toEncrypt.drop 4
      let key128 := (lib.hashSha1 (toEncrypt.take (u32 toEncrypt.length))).take 0x10
      some (key128 ++
        lib.aesEncryptLocal (toEncrypt.take (fullSize (u32 data.length))) key key128) := by
  obtain ⟨hle, hlt, hmost, hblocks⟩ := fullSize_bounds h
  have hsize : u32 (0x10 + fullSize (u32 data.length) : Nat) =
      0x10 + fullSize (u32 data.length) := u32_of_lt (by omega)
  rw [PrepareEncrypted, hpadded, Option.bind_eq_bind, Option.bind_some, if_neg (by omega),
    if_neg (by omega)]

/-- **What is prepared.**  The contents are encrypted unless their size, as a `uint32`, is
`0` or leaves less than two blocks. -/
theorem PrepareEncrypted_isSome_iff (data : Bytes) (random : Nat → UInt8) (key : AuthKey) :
    (PrepareEncrypted lib data random key).isSome ↔
      0 < u32 data.length ∧ u32 data.length ≤ 2 ^ 32 - 32 := by
  constructor
  · intro h
    have hwhole : 20 ≤ u32 (0x10 + fullSize (u32 data.length) : Nat) := by
      by_contra hshort
      rw [PrepareEncrypted] at h
      cases hpadded : padded data random with
      | none =>
          rw [hpadded] at h
          cases h
      | some toEncrypt =>
          rw [hpadded, Option.bind_eq_bind, Option.bind_some, if_pos (Nat.lt_of_not_le hshort),
            ite_self] at h
          cases h
    have hlt := u32_length_lt data
    generalize u32 data.length = size at *
    unfold fullSize u32 at hwhole
    rw [and_0x0F] at hwhole
    split at hwhole <;> omega
  · rintro ⟨hpos, hmost⟩
    obtain ⟨toEncrypt, hpadded, hlength, -⟩ := padded_eq random hmost
    rw [PrepareEncrypted_eq lib random key hpos hmost hpadded hlength]
    rfl

variable {lib}

theorem length_PrepareEncrypted (hlib : lib.Lawful) {data encrypted : Bytes}
    {random : Nat → UInt8} {key : AuthKey}
    (h : PrepareEncrypted lib data random key = some encrypted) :
    encrypted.length = 16 + fullSize (u32 data.length) := by
  obtain ⟨hpos, hmost⟩ :=
    (PrepareEncrypted_isSome_iff lib data random key).mp (by rw [h]; rfl)
  obtain ⟨toEncrypt, hpadded, hlength, -⟩ := padded_eq random hmost
  obtain ⟨hle, hlt, -, hblocks⟩ := fullSize_bounds hmost
  rw [PrepareEncrypted_eq lib random key hpos hmost hpadded hlength] at h
  cases h
  have htake : ((le32 (u32 data.length) ++ toEncrypt.drop 4).take
      (fullSize (u32 data.length))).length = fullSize (u32 data.length) := by
    rw [List.length_take, List.length_append, List.length_drop, length_le32]
    omega
  rw [List.length_append, List.length_take, hlib.length_hashSha1,
    hlib.length_aesEncryptLocal _ _ _ (by rw [htake]; exact hblocks), htake]
  omega

/-! ## Round trip -/

/-- What is decrypted of what was prepared has the length in front of it. -/
def Decrypts (lib : Crypto AuthKey) (data : Bytes) (random : Nat → UInt8) (key : AuthKey) :
    Prop :=
  ∃ encrypted, PrepareEncrypted lib data random key = some encrypted ∧
    DecryptLocal lib encrypted key = some (le32 data.length ++ data.drop 4)

/-- Whole blocks that have their length in front are decrypted. -/
theorem DecryptLocal_eq (hlib : lib.Lawful) (key : AuthKey) {toEncrypt rest : Bytes} {size : Nat}
    (hread : readLe32 toEncrypt = some (size, rest)) (hfour : 4 ≤ size)
    (hle : size ≤ toEncrypt.length) (hlt : toEncrypt.length < size + 16)
    (hblocks : toEncrypt.length % 16 = 0) (hmost : toEncrypt.length < 2 ^ 32) :
    DecryptLocal lib ((lib.hashSha1 toEncrypt).take 0x10 ++
        lib.aesEncryptLocal toEncrypt key ((lib.hashSha1 toEncrypt).take 0x10)) key =
      some (toEncrypt.take size) := by
  have hkey : ((lib.hashSha1 toEncrypt).take 0x10).length = 16 := by
    rw [List.length_take, hlib.length_hashSha1]
    rfl
  generalize hkey128 : (lib.hashSha1 toEncrypt).take 0x10 = key128 at hkey
  have henc := hlib.length_aesEncryptLocal toEncrypt key key128 hblocks
  have hlength : (key128 ++ lib.aesEncryptLocal toEncrypt key key128).length =
      16 + toEncrypt.length := by
    rw [List.length_append, hkey, henc]
  have hfullLen : u32 (16 + toEncrypt.length - 16 : Nat) = toEncrypt.length := by
    rw [Nat.add_sub_cancel_left, u32_of_lt hmost]
  have hdrop : ((key128 ++ lib.aesEncryptLocal toEncrypt key key128).drop 16).take
      toEncrypt.length = lib.aesEncryptLocal toEncrypt key key128 := by
    rw [← hkey, List.drop_left, ← henc, List.take_length]
  have htake : (key128 ++ lib.aesEncryptLocal toEncrypt key key128).take 16 = key128 := by
    rw [← hkey, List.take_left]
  have hwindow : ¬ (u32 toEncrypt.length < size ∨ size ≤ u32 (toEncrypt.length - 16) ∨
      size < 4) := by
    unfold u32
    omega
  unfold DecryptLocal
  rw [hlength, and_0x0F, if_neg (by omega), hfullLen]
  simp only [hdrop, htake, hlib.decrypt_encrypt _ _ _ hblocks, hkey128, hread]
  rw [if_neg (by simp), if_neg hwindow]

/-- Contents of up to two blocks less than `2 ^ 32` bytes are decrypted. -/
theorem decrypts_of_le (hlib : lib.Lawful) {data : Bytes} (hfour : 4 ≤ data.length)
    (h : data.length ≤ 2 ^ 32 - 32) (random : Nat → UInt8) (key : AuthKey) :
    Decrypts lib data random key := by
  obtain ⟨hle, hlt, hmost, hblocks⟩ := fullSize_bounds h
  have hsize : u32 data.length = data.length := u32_of_lt (by omega)
  obtain ⟨toEncrypt, hpadded, hlength, hwhole⟩ := padded_eq random (hsize.le.trans h)
  obtain ⟨hfull, htake⟩ := hwhole (by omega)
  have heq := PrepareEncrypted_eq lib random key (by omega) (hsize.le.trans h) hpadded
    hlength
  rw [hsize] at heq
  have hlen : (le32 data.length ++ toEncrypt.drop 4).length = fullSize data.length := by
    rw [List.length_append, List.length_drop, length_le32]
    omega
  have hfront : (le32 data.length ++ toEncrypt.drop 4).take data.length =
      le32 data.length ++ data.drop 4 := by
    rw [List.take_append, length_le32, List.take_of_length_le (by rw [length_le32]; exact hfour),
      ← List.drop_take, htake]
  refine ⟨_, heq, ?_⟩
  rw [hlen, u32_of_lt (by omega), ← hlen, List.take_length, ← hfront]
  exact DecryptLocal_eq hlib key (readLe32_le32 (by omega) _) hfour (by omega) (by omega)
    (by omega) (by omega)

/-- What is decrypted is no longer than a `uint32` can say. -/
theorem length_DecryptLocal_lt {encrypted decrypted : Bytes} {key : AuthKey}
    (h : DecryptLocal lib encrypted key = some decrypted) : decrypted.length < 2 ^ 32 := by
  unfold DecryptLocal at h
  dsimp only at h
  split at h
  · cases h
  · split at h
    · cases h
    · split at h
      · cases h
      · next dataLen rest hread =>
          split at h
          · cases h
          · next hwindow =>
              cases h
              have hlt := u32_lt (lib.aesDecryptLocal ((encrypted.drop 16).take
                (u32 (encrypted.length - 16 : Nat))) key (encrypted.take 16)).length
              rw [List.length_take]
              omega

/-- **The round trip.**  Contents of four bytes or more are decrypted just when they leave
two blocks of what a `uint32` counts. -/
theorem decrypts_iff_le (hlib : lib.Lawful) {data : Bytes} (hfour : 4 ≤ data.length)
    (random : Nat → UInt8) (key : AuthKey) :
    Decrypts lib data random key ↔ data.length ≤ 2 ^ 32 - 32 := by
  constructor
  · rintro ⟨encrypted, hprepare, hdecrypt⟩
    have hlt := length_DecryptLocal_lt hdecrypt
    rw [List.length_append, List.length_drop, length_le32] at hlt
    have hsome := (PrepareEncrypted_isSome_iff lib data random key).mp
      (by rw [hprepare]; rfl)
    rw [u32_of_lt (by omega)] at hsome
    exact hsome.2
  · exact fun h => decrypts_of_le hlib hfour h random key

end Storage

end MessengerClient
