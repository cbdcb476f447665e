import MessengerClient.Lib.DataStream
import MessengerClient.PeerId
import Mathlib.Data.List.Lex

/-!
# MessengerClient.ImageLocation

The file locations of `ui/image/image_location.cpp`: how they are built from the TL
objects, compared, turned into cache keys, written and read back.

`none` stands for a failed `Assert`, an `Unexpected` and a `v::get` of the wrong
alternative.
-/

namespace MessengerClient

def kNonStorageLocationToken : UInt8 := 0x10
def kLegacyInMessagePeerIdFlag : UInt8 := 0x08
def kModernLocationFlag : UInt8 := 0x20
def kInMessageFieldsFlag : UInt8 := 0x40

/-! ## TL objects -/

inductive MTPInputPeer where
  | empty
  | self
  | chat (chatId : UInt64)
  | user (userId accessHash : UInt64)
  | channel (channelId accessHash : UInt64)
  | userFromMessage (peer : MTPInputPeer) (msgId : Int32) (userId : UInt64)
  | channelFromMessage (peer : MTPInputPeer) (msgId : Int32) (channelId : UInt64)
deriving DecidableEq, Repr

/-- The constructors that the location does not expect are one. -/
inductive MTPInputStickerSet where
  | empty
  | id (id accessHash : UInt64)
  | other
deriving DecidableEq, Repr

inductive MTPInputGroupCall where
  | call (id accessHash : UInt64)
  | other
deriving DecidableEq, Repr

inductive MTPInputFileLocation where
  | file (volumeId : UInt64) (localId : Int32) (secret : UInt64) (fileReference : QByteArray)
  | encryptedFile (id accessHash : UInt64)
  | documentFile (id accessHash : UInt64) (fileReference thumbSize : QByteArray)
  | secureFile (id accessHash : UInt64)
  | takeoutFile
  | photoFile (id accessHash : UInt64) (fileReference thumbSize : QByteArray)
  | photoLegacyFile (id accessHash : UInt64) (fileReference : QByteArray) (volumeId : UInt64)
      (localId : Int32) (secret : UInt64)
  | peerPhotoFile (big : Bool) (peer : MTPInputPeer) (photoId : UInt64)
  | stickerSetThumb (stickerset : MTPInputStickerSet) (thumbVersion : Int32)
  | groupCallStream (call : MTPInputGroupCall) (timeMs : UInt64) (scale : Int32)
      (videoChannel videoQuality : Option Int32)
deriving DecidableEq, Repr

/-! ## Storage locations -/

/-- `StorageFileLocation::Type`. -/
inductive StorageFileType where
  | legacy
  | encrypted
  | document
  | secure
  | takeout
  | photo
  | peerPhoto
  | stickerSetThumb
  | groupCallStream
deriving DecidableEq, Repr

def StorageFileType.toByte : StorageFileType → UInt8
  | .legacy => 0x00
  | .encrypted => 0x01
  | .document => 0x02
  | .secure => 0x03
  | .takeout => 0x04
  | .photo => 0x05
  | .peerPhoto => 0x06
  | .stickerSetThumb => 0x07
  | .groupCallStream => 0x08

def StorageFileType.all : List StorageFileType :=
  [.legacy, .encrypted, .document, .secure, .takeout, .photo, .peerPhoto, .stickerSetThumb,
    .groupCallStream]

/-- The type of a byte, if it is one. -/
def StorageFileType.ofByte (byte : UInt8) : Option StorageFileType :=
  StorageFileType.all.find? fun type => type.toByte = byte

@[ext]
structure StorageFileLocation where
  dcId : UInt16 := 0
  type : StorageFileType := .legacy
  sizeLetter : UInt8 := 0
  localId : Int32 := 0
  id : UInt64 := 0
  accessHash : UInt64 := 0
  volumeId : UInt64 := 0
  inMessagePeerId : PeerId := {}
  inMessageId : UInt32 := 0
  fileReference : QByteArray := {}
deriving DecidableEq, Repr

namespace StorageFileLocation

/-- The lambda of the constructor for the plain kinds of peers; `none` for the others. -/
def fillPeer (l : StorageFileLocation) (self : UserId) :
    MTPInputPeer → Option StorageFileLocation
  | .empty => some { l with id := 0 }
  | .self => some { l with id := (peerFromUser self).value }
  | .chat chatId => some { l with id := (peerFromChat chatId).value }
  | .user userId accessHash =>
      some { l with id := (peerFromUser userId).value, accessHash := accessHash }
  | .channel channelId accessHash =>
      some { l with id := (peerFromChannel channelId).value, accessHash := accessHash }
  | _ => none

/-- The peer of a message: bad data gives no peer. -/
def fillMessagePeer (l : StorageFileLocation) (self : UserId) (peer : MTPInputPeer) :
    StorageFileLocation :=
  (l.fillPeer self peer).getD { l with id := 0, accessHash := 0 }

def fillAnyPeer (l : StorageFileLocation) (self : UserId) : MTPInputPeer → StorageFileLocation
  | .userFromMessage peer msgId userId =>
      { l.fillMessagePeer self peer with
        inMessagePeerId := peerFromUser userId, inMessageId := msgId.toUInt32 }
  | .channelFromMessage peer msgId channelId =>
      { l.fillMessagePeer self peer with
        inMessagePeerId := peerFromChannel channelId, inMessageId := msgId.toUInt32 }
  | peer => l.fillMessagePeer self peer

/-- The first character of a thumbnail size. -/
def sizeLetterOf (thumbSize : QByteArray) : UInt8 := thumbSize.bytes.headD 0

/-- The constructor from a TL object. -/
def ofTL (dcId : Int32) (self : UserId) (tl : MTPInputFileLocation) :
    Option StorageFileLocation :=
  let l : StorageFileLocation := { dcId := dcId.toUInt32.toUInt16 }
  match tl with
  | .file volumeId localId secret fileReference =>
      some { l with
        type := .legacy, volumeId := volumeId, localId := localId, accessHash := secret
        fileReference := fileReference }
  | .encryptedFile id accessHash =>
      some { l with type := .encrypted, id := id, accessHash := accessHash }
  | .documentFile id accessHash fileReference thumbSize =>
      some { l with
        type := .document, id := id, accessHash := accessHash, fileReference := fileReference
        sizeLetter := sizeLetterOf thumbSize }
  | .secureFile id accessHash =>
      some { l with type := .secure, id := id, accessHash := accessHash }
  | .takeoutFile => some { l with type := .takeout }
  | .photoFile id accessHash fileReference thumbSize =>
      some { l with
        type := .photo, id := id, accessHash := accessHash, fileReference := fileReference
        sizeLetter := sizeLetterOf thumbSize }
  | .photoLegacyFile _ _ fileReference volumeId localId secret =>
      some { l with
        type := .legacy, volumeId := volumeId, localId := localId, accessHash := secret
        fileReference := fileReference }
  | .peerPhotoFile big peer photoId =>
      some { fillAnyPeer { l with type := .peerPhoto } self peer with
        volumeId := photoId, sizeLetter := if big then 'c'.toUInt8 else 'a'.toUInt8 }
  | .stickerSetThumb stickerset thumbVersion =>
      match stickerset with
      | .empty =>
          some { l with type := .stickerSetThumb, id := 0, volumeId := 0, localId := thumbVersion }
      | .id id accessHash =>
          some { l with
            type := .stickerSetThumb, id := id, accessHash := accessHash, volumeId := 0
            localId := thumbVersion }
      | .other => none
  | .groupCallStream call timeMs scale videoChannel videoQuality =>
      match call with
      | .call id accessHash =>
          some { l with
            type := .groupCallStream, id := id, accessHash := accessHash, volumeId := timeMs
            localId := scale
            sizeLetter := ((videoChannel.getD 0).toUInt32 &&& 0x3F).toUInt8
              ||| (((videoQuality.getD 0).toUInt32 &&& 0x03) <<< 6).toUInt8 }
      | .other => none

def convertToModernPeerPhoto (l : StorageFileLocation) (id accessHash photoId : UInt64) :
    StorageFileLocation :=
  if l.type ≠ .legacy ∧ l.type ≠ .peerPhoto then
    l
  else if photoId = 0 then
    {}
  else
    { l with
      type := .peerPhoto, id := id, accessHash := accessHash, sizeLetter := 'a'.toUInt8
      volumeId := photoId, localId := 0, inMessagePeerId := {}, inMessageId := 0 }

def valid (l : StorageFileLocation) : Bool :=
  match l.type with
  | .legacy => l.dcId != 0 && l.volumeId != 0 && l.localId != 0
  | .encrypted | .secure | .document => l.dcId != 0 && l.id != 0
  | .photo => l.dcId != 0 && l.id != 0 && l.sizeLetter != 0
  | .takeout => true
  | .peerPhoto | .stickerSetThumb => l.dcId != 0 && l.id != 0
  | .groupCallStream => l.dcId != 0 && l.id != 0 && l.volumeId != 0

/-! ## Cache keys, equality and order -/

/-- `Storage::Cache::Key`. -/
structure Key where
  high : UInt64
  low : UInt64
deriving DecidableEq, Repr

def kDocumentCacheTag : UInt64 := 0x100
def kDocumentCacheMask : UInt64 := 0xFF

/-- `Data::DocumentCacheKey`. -/
def documentCacheKey (dcId : UInt16) (id : UInt64) : Key :=
  { high := kDocumentCacheTag ||| (dcId.toUInt64 &&& kDocumentCacheMask), low := id }

/-- Skip `1` for legacy document cache keys, and `2` because it is used for good
(fullsize) document thumbnails. -/
def shifted (l : StorageFileLocation) : UInt64 := (l.type.toByte.toUInt64 + 3) <<< 8

def sliced (l : StorageFileLocation) : UInt64 := l.dcId.toUInt64 &&& 0xFF

def cacheKey (l : StorageFileLocation) : Key :=
  match l.type with
  | .legacy | .peerPhoto | .stickerSetThumb =>
      { high := l.shifted ||| l.sliced ||| (l.localId.toUInt32.toUInt64 <<< 16), low := l.volumeId }
  | .encrypted | .secure => { high := l.shifted ||| l.sliced, low := l.id }
  | .document =>
      if l.sizeLetter = 0 then documentCacheKey l.dcId l.id
      else { high := l.shifted ||| l.sliced ||| (l.sizeLetter.toUInt64 <<< 16), low := l.id }
  | .photo => { high := l.shifted ||| l.sliced ||| (l.sizeLetter.toUInt64 <<< 16), low := l.id }
  | .takeout => { high := l.shifted, low := 0 }
  | .groupCallStream =>
      -- The scale is shifted as a `uint32`, so its upper half is lost.
      { high := l.shifted ||| l.sliced ||| (l.localId.toUInt32 <<< 16).toUInt64
          ||| (l.volumeId <<< 20) ||| (l.sizeLetter.toUInt64 <<< 56)
        low := l.id }

/-- `operator==`. -/
def equal (a b : StorageFileLocation) : Bool :=
  if a.valid != b.valid then false
  else if !a.valid then true
  else if a.type ≠ b.type then false
  else
    match a.type with
    | .legacy => a.dcId == b.dcId && a.volumeId == b.volumeId && a.localId == b.localId
    | .encrypted | .secure => a.dcId == b.dcId && a.id == b.id
    | .photo | .document => a.dcId == b.dcId && a.id == b.id && a.sizeLetter == b.sizeLetter
    | .takeout => true
    | .peerPhoto =>
        a.dcId == b.dcId && a.volumeId == b.volumeId && a.localId == b.localId && a.id == b.id
          && a.sizeLetter == b.sizeLetter
    | .stickerSetThumb =>
        a.dcId == b.dcId && a.volumeId == b.volumeId && a.localId == b.localId && a.id == b.id
    | .groupCallStream =>
        a.dcId == b.dcId && a.id == b.id && a.localId == b.localId
          && a.sizeLetter == b.sizeLetter

/-- `std::tie` of the fields that `operator<` compares; their types are the same for
locations of one type. -/
def tie (l : StorageFileLocation) : List Int :=
  match l.type with
  | .legacy => [l.localId.toInt, l.volumeId.toNat, l.dcId.toNat]
  | .encrypted | .secure => [l.id.toNat, l.dcId.toNat]
  | .photo | .document => [l.id.toNat, l.dcId.toNat, l.sizeLetter.toNat]
  | .takeout => []
  | .peerPhoto =>
      [l.id.toNat, l.sizeLetter.toNat, l.localId.toInt, l.volumeId.toNat, l.dcId.toNat]
  | .stickerSetThumb => [l.id.toNat, l.localId.toInt, l.volumeId.toNat, l.dcId.toNat]
  | .groupCallStream => [l.id.toNat, l.localId.toInt, l.dcId.toNat, l.sizeLetter.toNat]

/-- `operator<`. -/
def less (a b : StorageFileLocation) : Bool :=
  if a.valid != b.valid then !a.valid
  else if !a.valid then false
  else if a.type ≠ b.type then a.type.toByte < b.type.toByte
  else a.tie < b.tie

/-! ## What the constructor keeps -/

variable {l : StorageFileLocation}

/-- What the constructor leaves unset in the types that use the place for other fields. -/
structure WellBuilt (l : StorageFileLocation) : Prop where
  localId : l.type = .peerPhoto → l.localId = 0
  volumeId : l.type = .stickerSetThumb → l.volumeId = 0
  inMessagePeerId : l.inMessagePeerId.value ≠ 0 → l.type = .peerPhoto

theorem fillPeer_keeps {self : UserId} {peer : MTPInputPeer} {l' : StorageFileLocation}
    (h : l.fillPeer self peer = some l') :
    l'.type = l.type ∧ l'.dcId = l.dcId ∧ l'.localId = l.localId := by
  cases peer <;> cases h <;> exact ⟨rfl, rfl, rfl⟩

theorem fillMessagePeer_keeps (l : StorageFileLocation) (self : UserId) (peer : MTPInputPeer) :
    (l.fillMessagePeer self peer).type = l.type ∧ (l.fillMessagePeer self peer).dcId = l.dcId
      ∧ (l.fillMessagePeer self peer).localId = l.localId := by
  unfold fillMessagePeer
  cases h : l.fillPeer self peer with
  | none => exact ⟨rfl, rfl, rfl⟩
  | some l' => exact fillPeer_keeps h

theorem fillAnyPeer_keeps (l : StorageFileLocation) (self : UserId) (peer : MTPInputPeer) :
    (l.fillAnyPeer self peer).type = l.type ∧ (l.fillAnyPeer self peer).dcId = l.dcId
      ∧ (l.fillAnyPeer self peer).localId = l.localId := by
  cases peer <;> exact fillMessagePeer_keeps l self _

theorem wellBuilt_of_ofTL {dcId : Int32} {self : UserId} {tl : MTPInputFileLocation}
    (h : ofTL dcId self tl = some l) : l.WellBuilt ∧ l.dcId = dcId.toUInt32.toUInt16 := by
  cases tl with
  | peerPhotoFile big peer photoId =>
      cases h
      have hkeeps := fillAnyPeer_keeps
        { dcId := dcId.toUInt32.toUInt16, type := .peerPhoto } self peer
      refine ⟨⟨fun _ => hkeeps.2.2, fun h => ?_, fun _ => hkeeps.1⟩, hkeeps.2.1⟩
      rw [hkeeps.1] at h
      cases h
  | stickerSetThumb stickerset thumbVersion =>
      cases stickerset <;> cases h <;> exact ⟨by constructor <;> simp, rfl⟩
  | groupCallStream call timeMs scale videoChannel videoQuality =>
      cases call <;> cases h <;> exact ⟨by constructor <;> simp, rfl⟩
  | _ =>
      cases h
      exact ⟨by constructor <;> simp, rfl⟩

end StorageFileLocation

end MessengerClient
