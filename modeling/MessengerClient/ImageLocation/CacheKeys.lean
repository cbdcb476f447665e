import MessengerClient.ImageLocation
import Mathlib.Order.RelClasses

/-!
# MessengerClient.ImageLocation.CacheKeys

Equality, order and cache keys of the file locations.  The order compares the same
fields as equality, so it is a strict weak order with equality as its equivalence.
The cache key packs fewer fields than equality compares for peer photos and sticker
set thumbnails, and lays three fields of a stream part over each other.
-/

namespace MessengerClient

namespace StorageFileLocation

variable {a b l : StorageFileLocation}

/-! ## Order and equality -/

/-- What the order compares: validity, then the type, then the fields of the type. -/
def orderKey (l : StorageFileLocation) : List Int :=
  if l.valid then 1 :: l.type.toByte.toNat :: l.tie else [0]

theorem toByte_injective {s t : StorageFileType} (h : s.toByte = t.toByte) : s = t := by
  revert h
  cases s <;> cases t <;> decide

theorem toByte_toNat_ne {s t : StorageFileType} (h : ¬ s = t) :
    ¬ s.toByte.toNat = t.toByte.toNat :=
  fun hst => h (toByte_injective (UInt8.toNat_inj.mp hst))

theorem less_iff : a.less b ↔ a.orderKey < b.orderKey := by
  unfold less orderKey
  cases ha : a.valid <;> cases hb : b.valid
  · simp
  · simp [List.cons_lt_cons_iff]
  · simp [List.cons_lt_cons_iff]
  · by_cases ht : a.type = b.type
    · simp [ht]
    · have hne := toByte_toNat_ne ht
      simp [ht, hne, List.cons_lt_cons_iff, UInt8.lt_iff_toNat_lt]

theorem equal_iff : a.equal b ↔ a.orderKey = b.orderKey := by
  unfold equal orderKey
  cases ha : a.valid <;> cases hb : b.valid
  · simp
  · simp
  · simp
  · by_cases ht : a.type = b.type
    · have hta := ht
      cases hb : b.type <;> rw [hb] at hta <;>
        simp [hta, hb, tie, Int32.toInt_inj, UInt64.toNat_inj, UInt16.toNat_inj, UInt8.toNat_inj,
          and_comm, and_left_comm, and_assoc]
    · have hne := toByte_toNat_ne ht
      simp [ht, hne]

theorem less_isStrictWeakOrder :
    IsStrictWeakOrder StorageFileLocation fun a b => a.less b = true := by
  have h : (fun a b : StorageFileLocation => a.less b = true)
      = Order.Preimage orderKey ((· < ·) : List Int → List Int → Prop) := by
    funext a b
    exact propext less_iff
  have : IsStrictWeakOrder (List Int) (· < ·) := isStrictWeakOrder_of_isOrderConnected
  rw [h]
  infer_instance

/-- The equivalence of the order is equality. -/
theorem incomparable_iff : ¬ a.less b ∧ ¬ b.less a ↔ a.equal b := by
  rw [less_iff, less_iff, equal_iff]
  constructor
  · rintro ⟨hab, hba⟩
    exact le_antisymm (not_lt.mp hba) (not_lt.mp hab)
  · intro h
    rw [h]
    exact ⟨lt_irrefl _, lt_irrefl _⟩

/-! ## The packed word -/

/-- The kind that the word names: documents without a size letter keep the old one. -/
def keyTag (l : StorageFileLocation) : UInt64 :=
  if l.type = .document ∧ l.sizeLetter = 0 then 1 else l.type.toByte.toUInt64 + 3

def keyDc (l : StorageFileLocation) : UInt64 :=
  if l.type = .takeout then 0 else l.sliced

/-- What stands from bit 16 on. -/
def keyRest (l : StorageFileLocation) : UInt64 :=
  match l.type with
  | .legacy | .peerPhoto | .stickerSetThumb => l.localId.toUInt32.toUInt64 <<< 16
  | .encrypted | .secure | .takeout => 0
  | .document | .photo => l.sizeLetter.toUInt64 <<< 16
  | .groupCallStream =>
      (l.localId.toUInt32 <<< 16).toUInt64 ||| (l.volumeId <<< 20)
        ||| (l.sizeLetter.toUInt64 <<< 56)

def keyLow (l : StorageFileLocation) : UInt64 :=
  match l.type with
  | .legacy | .peerPhoto | .stickerSetThumb => l.volumeId
  | .takeout => 0
  | _ => l.id

/-- Bit `i` of a stream part above its dc and type: the scale has the lowest sixteen
bits, the time begins at the fourth and the channel at the fortieth. -/
def streamBit (l : StorageFileLocation) (i : Nat) : Bool :=
  (i < 16 && l.localId.toUInt32.toNat.testBit i) || (4 ≤ i && l.volumeId.toNat.testBit (i - 4))
    || (40 ≤ i && l.sizeLetter.toNat.testBit (i - 40))

theorem cacheKey_eq (l : StorageFileLocation) :
    l.cacheKey = { high := (l.keyTag <<< 8) ||| l.keyDc ||| l.keyRest, low := l.keyLow } := by
  unfold cacheKey keyTag keyDc keyRest keyLow shifted
  cases h : l.type with
  | document =>
      by_cases hl : l.sizeLetter = 0
      · have htag : (1 : UInt64) <<< 8 = 0x100 := rfl
        simp [hl, documentCacheKey, sliced, kDocumentCacheTag, kDocumentCacheMask, htag]
      · simp [hl]
  | groupCallStream => simp [UInt64.or_assoc]
  | _ => simp

theorem testBit_keyRest (h : l.type = .groupCallStream) (i : Nat) :
    l.keyRest.toNat.testBit i = (decide (16 ≤ i ∧ i < 64) && l.streamBit (i - 16)) := by
  simp only [keyRest, h, streamBit, UInt64.toNat_or, UInt64.toNat_shiftLeft, UInt32.toNat_toUInt64,
    UInt32.toNat_shiftLeft, UInt8.toNat_toUInt64, UInt64.reduceToNat, UInt32.reduceToNat,
    Nat.testBit_or, Nat.testBit_mod_two_pow, Nat.testBit_shiftLeft]
  grind

theorem shiftLeft_mod (x : UInt64) : (x <<< 16).toNat % 2 ^ 16 = 0 := by
  have h : (x <<< 16).toNat = x.toNat <<< 16 % 2 ^ 64 := UInt64.toNat_shiftLeft x 16
  rw [h, Nat.shiftLeft_eq]
  omega

/-- The rest leaves the lowest sixteen bits to the dc and the type. -/
theorem keyRest_mod (l : StorageFileLocation) : l.keyRest.toNat % 2 ^ 16 = 0 := by
  cases h : l.type with
  | groupCallStream =>
      apply Nat.eq_of_testBit_eq
      intro i
      rw [Nat.testBit_mod_two_pow, testBit_keyRest h]
      grind
  | encrypted | secure | takeout => simp [keyRest, h]
  | _ =>
      simp only [keyRest, h]
      exact shiftLeft_mod _

theorem keyTag_lt (l : StorageFileLocation) : l.keyTag.toNat < 2 ^ 8 := by
  unfold keyTag
  split
  · decide
  · cases l.type <;> decide

theorem keyDc_lt (l : StorageFileLocation) : l.keyDc.toNat < 2 ^ 8 := by
  unfold keyDc sliced
  split
  · decide
  · rw [UInt64.toNat_and]
    exact Nat.lt_of_le_of_lt Nat.and_le_right (by decide)

/-- The parts of the word do not overlap. -/
theorem cacheKey_high_toNat (l : StorageFileLocation) :
    l.cacheKey.high.toNat = 2 ^ 8 * l.keyTag.toNat + l.keyDc.toNat + l.keyRest.toNat := by
  have htag := l.keyTag_lt
  have hdc := l.keyDc_lt
  have hrest := l.keyRest_mod
  have hlow : 2 ^ 8 * l.keyTag.toNat + l.keyDc.toNat < 2 ^ 16 := by omega
  have hshift : (l.keyTag <<< 8).toNat = 2 ^ 8 * l.keyTag.toNat := by
    have h : (l.keyTag <<< 8).toNat = l.keyTag.toNat <<< 8 % 2 ^ 64 :=
      UInt64.toNat_shiftLeft l.keyTag 8
    rw [h, Nat.shiftLeft_eq]
    omega
  have hmul : l.keyRest.toNat = 2 ^ 16 * (l.keyRest.toNat / 2 ^ 16) := by omega
  rw [cacheKey_eq, UInt64.toNat_or, UInt64.toNat_or, hshift, ← Nat.two_pow_add_eq_or_of_lt hdc,
    Nat.or_comm, hmul, ← Nat.two_pow_add_eq_or_of_lt hlow, ← hmul]
  omega

theorem cacheKey_eq_iff : a.cacheKey = b.cacheKey ↔
    a.keyTag = b.keyTag ∧ a.keyDc = b.keyDc ∧ a.keyRest = b.keyRest ∧ a.keyLow = b.keyLow := by
  constructor
  · intro h
    have hhigh : a.cacheKey.high.toNat = b.cacheKey.high.toNat := by rw [h]
    have hlow := congrArg Key.low h
    rw [cacheKey_high_toNat, cacheKey_high_toNat] at hhigh
    rw [cacheKey_eq, cacheKey_eq] at hlow
    have := a.keyTag_lt
    have := b.keyTag_lt
    have := a.keyDc_lt
    have := b.keyDc_lt
    have := a.keyRest_mod
    have := b.keyRest_mod
    refine ⟨UInt64.toNat_inj.mp ?_, UInt64.toNat_inj.mp ?_, UInt64.toNat_inj.mp ?_, hlow⟩ <;> omega
  · rintro ⟨htag, hdc, hrest, hlow⟩
    rw [cacheKey_eq, cacheKey_eq, htag, hdc, hrest, hlow]

theorem mem_all (type : StorageFileType) : type ∈ StorageFileType.all := by
  cases type <;> decide

/-- The word names the type. -/
theorem type_eq_of_keyTag (h : a.keyTag = b.keyTag) : a.type = b.type := by
  have hinj : ∀ type ∈ StorageFileType.all, ∀ type' ∈ StorageFileType.all,
      type.toByte.toUInt64 + 3 = type'.toByte.toUInt64 + 3 → type = type' := by decide
  have hne : ∀ type ∈ StorageFileType.all, type.toByte.toUInt64 + 3 ≠ 1 := by decide
  rw [keyTag, keyTag] at h
  split at h
  · next ha =>
    split at h
    · next hb => exact ha.1.trans hb.1.symm
    · exact absurd h.symm (hne _ (mem_all _))
  · split at h
    · exact absurd h (hne _ (mem_all _))
    · exact hinj _ (mem_all _) _ (mem_all _) h

/-- A valid location that the constructor built for a dc in `1..255`. -/
structure Stored where
  location : StorageFileLocation
  built : ∃ (dcId : Int32) (self : UserId) (tl : MTPInputFileLocation),
    1 ≤ dcId ∧ dcId ≤ 255 ∧ ofTL dcId self tl = some location
  valid : location.valid

theorem Stored.wellBuilt (s : Stored) : s.location.WellBuilt := by
  obtain ⟨_, _, _, _, _, h⟩ := s.built
  exact (wellBuilt_of_ofTL h).1

theorem Stored.dcId_lt (s : Stored) : s.location.dcId.toNat < 2 ^ 8 := by
  obtain ⟨dcId, _, _, hpos, hle, h⟩ := s.built
  rw [(wellBuilt_of_ofTL h).2, UInt32.toNat_toUInt16]
  have hle' : dcId.toUInt32 ≤ (255 : Int32).toUInt32 :=
    Int32.toUInt32_le (Int32.le_trans (by decide) hpos) hle
  rw [UInt32.le_iff_toNat_le] at hle'
  have hmax : (255 : Int32).toUInt32.toNat = 255 := rfl
  omega

/-- **When the key tells two locations apart exactly as equality does.**  Peer photos of
one dc and photo must be of one peer and size, thumbnails of one dc and version must be
of one sticker set; parts of one call must agree in scale and channel exactly when the
packed scale, time and channel agree bit by bit. -/
def KeysSeparate (a b : StorageFileLocation) : Prop :=
  a.type = b.type →
    match a.type with
    | .peerPhoto =>
        a.dcId = b.dcId → a.volumeId = b.volumeId → a.id = b.id ∧ a.sizeLetter = b.sizeLetter
    | .stickerSetThumb => a.dcId = b.dcId → a.localId = b.localId → a.id = b.id
    | .groupCallStream =>
        a.dcId = b.dcId → a.id = b.id →
          ((a.localId = b.localId ∧ a.sizeLetter = b.sizeLetter)
            ↔ ∀ i < 48, a.streamBit i = b.streamBit i)
    | _ => True

/-- The streams pack to one word exactly when all the bits that are kept agree. -/
theorem keyRest_eq_iff (ha : a.type = .groupCallStream) (hb : b.type = .groupCallStream) :
    a.keyRest = b.keyRest ↔ ∀ i < 48, a.streamBit i = b.streamBit i := by
  constructor
  · intro h i hi
    have hbit : a.keyRest.toNat.testBit (i + 16) = b.keyRest.toNat.testBit (i + 16) := by rw [h]
    rw [testBit_keyRest ha, testBit_keyRest hb, Nat.add_sub_cancel] at hbit
    have hrange : 16 ≤ i + 16 ∧ i + 16 < 64 := by omega
    simpa [hrange] using hbit
  · intro h
    apply UInt64.toNat_inj.mp
    apply Nat.eq_of_testBit_eq
    intro i
    rw [testBit_keyRest ha, testBit_keyRest hb]
    by_cases hi : 16 ≤ i ∧ i < 64
    · rw [h (i - 16) (by omega)]
    · simp [hi]

theorem shiftLeft_inj {x y : UInt64} (hx : x.toNat < 2 ^ 32) (hy : y.toNat < 2 ^ 32) :
    x <<< 16 = y <<< 16 ↔ x = y := by
  constructor
  · intro h
    have hn : x.toNat <<< 16 % 2 ^ 64 = y.toNat <<< 16 % 2 ^ 64 := by
      have h := congrArg UInt64.toNat h
      rwa [UInt64.toNat_shiftLeft, UInt64.toNat_shiftLeft] at h
    rw [Nat.shiftLeft_eq, Nat.shiftLeft_eq] at hn
    apply UInt64.toNat_inj.mp
    omega
  · intro h
    rw [h]

theorem localId_word_inj {x y : Int32} :
    x.toUInt32.toUInt64 <<< 16 = y.toUInt32.toUInt64 <<< 16 ↔ x = y := by
  have hx : x.toUInt32.toUInt64.toNat < 2 ^ 32 := x.toUInt32.toNat_lt
  have hy : y.toUInt32.toUInt64.toNat < 2 ^ 32 := y.toUInt32.toNat_lt
  rw [shiftLeft_inj hx hy, UInt32.toUInt64_inj]
  exact ⟨fun h => congrArg UInt32.toInt32 h, fun h => by rw [h]⟩

theorem sizeLetter_word_inj {x y : UInt8} :
    x.toUInt64 <<< 16 = y.toUInt64 <<< 16 ↔ x = y := by
  have hx : x.toUInt64.toNat < 2 ^ 32 := by
    have := x.toNat_lt
    rw [UInt8.toNat_toUInt64]
    omega
  have hy : y.toUInt64.toNat < 2 ^ 32 := by
    have := y.toNat_lt
    rw [UInt8.toNat_toUInt64]
    omega
  rw [shiftLeft_inj hx hy, UInt8.toUInt64_inj]

theorem sliced_toNat (h : l.dcId.toNat < 2 ^ 8) : l.sliced.toNat = l.dcId.toNat := by
  have hmask : (0xFF : UInt64).toNat = 2 ^ 8 - 1 := rfl
  rw [sliced, UInt64.toNat_and, hmask, Nat.and_two_pow_sub_one_eq_mod, UInt16.toNat_toUInt64,
    Nat.mod_eq_of_lt h]

theorem sliced_inj (ha : a.dcId.toNat < 2 ^ 8) (hb : b.dcId.toNat < 2 ^ 8) :
    a.sliced = b.sliced ↔ a.dcId = b.dcId := by
  rw [← UInt64.toNat_inj, sliced_toNat ha, sliced_toNat hb, UInt16.toNat_inj]

theorem keysSeparate_iff (a b : Stored) :
    (a.location.cacheKey = b.location.cacheKey ↔ a.location.equal b.location)
      ↔ KeysSeparate a.location b.location := by
  have hda := a.dcId_lt
  have hdb := b.dcId_lt
  have hwa := a.wellBuilt
  have hwb := b.wellBuilt
  have hva := a.valid
  have hvb := b.valid
  generalize a.location = a at *
  generalize b.location = b at *
  rw [cacheKey_eq_iff]
  by_cases ht : a.type = b.type
  · cases hb : b.type with
    | groupCallStream =>
        have ha := ht.trans hb
        rw [keyRest_eq_iff ha hb]
        simp only [KeysSeparate, equal, keyTag, keyDc, keyLow, ha, hb, hva, hvb]
        simp only [reduceCtorEq, false_and, ↓reduceIte, sliced_inj hda hdb]
        grind
    | peerPhoto =>
        have ha := ht.trans hb
        simp only [KeysSeparate, equal, keyTag, keyDc, keyRest, keyLow, ha, hb, hva, hvb,
          hwa.localId ha, hwb.localId hb]
        simp only [reduceCtorEq, false_and, ↓reduceIte, sliced_inj hda hdb]
        grind
    | stickerSetThumb =>
        have ha := ht.trans hb
        simp only [KeysSeparate, equal, keyTag, keyDc, keyRest, keyLow, ha, hb, hva, hvb,
          hwa.volumeId ha, hwb.volumeId hb]
        simp only [reduceCtorEq, false_and, ↓reduceIte, sliced_inj hda hdb, localId_word_inj]
        grind
    | document =>
        -- A document without a size letter has the old tag, and then the letters agree.
        have ha := ht.trans hb
        have htag : (1 : UInt64) ≠ StorageFileType.document.toByte.toUInt64 + 3 := by decide
        simp only [KeysSeparate, equal, keyTag, keyDc, keyRest, keyLow, ha, hb, hva, hvb]
        simp only [reduceCtorEq, true_and, ↓reduceIte, sliced_inj hda hdb, sizeLetter_word_inj]
        grind
    | _ =>
        have ha := ht.trans hb
        simp only [KeysSeparate, equal, keyTag, keyDc, keyRest, keyLow, ha, hb, hva, hvb]
        simp only [reduceCtorEq, false_and, ↓reduceIte, sliced_inj hda hdb, localId_word_inj,
          sizeLetter_word_inj]
        grind
  · have hkey : a.keyTag ≠ b.keyTag := fun h => ht (type_eq_of_keyTag h)
    have hequal : a.equal b = false := by simp [equal, hva, hvb, ht]
    simp [KeysSeparate, ht, hkey, hequal]

/-- **The order is a strict weak order with equality as its equivalence, and the keys tell
two locations apart as equality does if and only if `KeysSeparate` holds of them.** -/
theorem cacheKey_separates_iff (a b : Stored) :
    IsStrictWeakOrder Stored (fun a b => a.location.less b.location)
      ∧ ((¬ a.location.less b.location ∧ ¬ b.location.less a.location)
          ↔ a.location.equal b.location)
      ∧ ((a.location.cacheKey = b.location.cacheKey ↔ a.location.equal b.location)
          ↔ KeysSeparate a.location b.location) := by
  refine ⟨?_, incomparable_iff, keysSeparate_iff a b⟩
  have := less_isStrictWeakOrder
  exact inferInstanceAs (IsStrictWeakOrder Stored
    (Order.Preimage Stored.location fun a b : StorageFileLocation => a.less b = true))

/-- The small and the big userpic of one photo. -/
def userpic (big : Bool) : Stored where
  location := {
    dcId := 2, type := .peerPhoto, sizeLetter := if big then 'c'.toUInt8 else 'a'.toUInt8
    id := 1, accessHash := 5, volumeId := 7 }
  built := by
    refine ⟨2, 0, .peerPhotoFile big (.user 1 5) 7, by decide, by decide, ?_⟩
    cases big <;> decide
  valid := by cases big <;> decide

/-- The two userpics share a cache entry and are not equal. -/
theorem cacheKey_not_separates : ¬ ∀ a b : Stored,
    a.location.cacheKey = b.location.cacheKey ↔ a.location.equal b.location := by
  intro h
  have hkey : (userpic false).location.cacheKey = (userpic true).location.cacheKey := by decide
  have hequal : ¬ (userpic false).location.equal (userpic true).location := by decide
  exact hequal ((h _ _).mp hkey)

end StorageFileLocation

end MessengerClient
