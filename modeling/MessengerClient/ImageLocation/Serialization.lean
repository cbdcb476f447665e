import MessengerClient.ImageLocation
import MessengerClient.Lib.Utf16

/-!
# MessengerClient.ImageLocation.Serialization

How `ui/image/image_location.cpp` writes the locations and reads them back.  One byte
carries the type of a storage location with the flags of two formats, the other kinds
are told by a token in its place, and the size of an image stands behind the location.
-/

namespace MessengerClient

namespace StorageFileLocation

/-! ## Storage locations -/

/-- The type with its flags, and the two fields that hold either the local id or the
peer of a message. -/
def header (l : StorageFileLocation) : UInt8 × Int32 × Int32 :=
  if l.inMessagePeerId.value ≠ 0 then
    (l.type.toByte ||| kModernLocationFlag ||| kInMessageFieldsFlag,
      (l.inMessagePeerId.value >>> 32).toUInt32.toInt32,
      (l.inMessagePeerId.value &&& 0xFFFFFFFF).toUInt32.toInt32)
  else
    (l.type.toByte ||| kModernLocationFlag, l.localId, 0)

def fieldBytes (l : StorageFileLocation) : Bytes :=
  putUInt16 l.dcId ++ (putUInt8 l.header.1 ++ (putUInt8 l.sizeLetter ++ (putInt32 l.header.2.1
    ++ (putUInt64 l.id ++ (putUInt64 l.accessHash ++ (putUInt64 l.volumeId
    ++ (putInt32 l.header.2.2 ++ (putInt32 l.inMessageId.toInt32
    ++ putByteArray l.fileReference))))))))

/-- The three `Assert`s of `serialize`. -/
def serializeAsserts (l : StorageFileLocation) : Bool :=
  l.type.toByte &&& kModernLocationFlag == 0 && l.type.toByte &&& kInMessageFieldsFlag == 0
    && (l.inMessagePeerId.value == 0 || l.localId == 0)
    && l.header.1 != kNonStorageLocationToken

def serialize (l : StorageFileLocation) : Option Bytes :=
  if l.valid then
    if l.serializeAsserts then some l.fieldBytes else none
  else
    some []

def serializeSize (l : StorageFileLocation) : Nat :=
  if l.valid then 8 * 5 + (4 + l.fileReference.bytes.length) else 0

/-- The second field and the message id, where the format has them. -/
def readMessageFields (present : Bool) : Get (Int32 × UInt32) := do
  if present then
    let field2 ← Get.int32
    let inMessageId ← Get.int32
    return (field2, inMessageId.toUInt32)
  else
    return (0, 0)

/-- The type without the flags of its format. -/
def withoutFlags (typeWithFlags : UInt8) : UInt8 :=
  if typeWithFlags &&& kModernLocationFlag ≠ 0 then
    if typeWithFlags &&& kInMessageFieldsFlag ≠ 0 then
      typeWithFlags &&& ~~~kModernLocationFlag &&& ~~~kInMessageFieldsFlag
    else
      typeWithFlags &&& ~~~kModernLocationFlag
  else if typeWithFlags &&& kLegacyInMessagePeerIdFlag ≠ 0 then
    typeWithFlags &&& ~~~kLegacyInMessagePeerIdFlag
  else
    typeWithFlags

/-- The peer of a message in the legacy format. -/
def legacyMessagePeer (type : StorageFileType) (field2 : Int32) : PeerId :=
  if field2 ≠ 0 ∧ type = .peerPhoto then
    if 0 < field2 then peerFromUser (field2.toInt64.toUInt64)
    else peerFromChannel ((-field2).toInt64.toUInt64)
  else
    {}

/-- Put the fields that were read in their places. -/
def interpret (l : StorageFileLocation) (typeWithFlags : UInt8) (field1 field2 : Int32) :
    StorageFileLocation :=
  if typeWithFlags &&& kModernLocationFlag ≠ 0 then
    if typeWithFlags &&& kInMessageFieldsFlag ≠ 0 then
      { l with
        localId := 0
        inMessagePeerId :=
          { value := (field1.toUInt32.toUInt64 <<< 32) ||| field2.toUInt32.toUInt64 } }
    else
      { l with localId := field1, inMessagePeerId := {} }
  else
    { l with
      id := if l.type = .peerPhoto then (deserializePeerId l.id).value else l.id
      localId := if l.type = .peerPhoto then 0 else field1
      inMessagePeerId := legacyMessagePeer l.type field2 }

/-- The location of the fields, if it is one that can be used. -/
def restore (l : StorageFileLocation) (typeWithFlags : UInt8) (field1 field2 : Int32) :
    Option StorageFileLocation := do
  let type ← StorageFileType.ofByte (withoutFlags typeWithFlags)
  let result := interpret { l with type := type } typeWithFlags field1 field2
  -- No information about `thumb_version`, which is required.
  if result.type = .stickerSetThumb ∧ result.volumeId ≠ 0 then none
  else if result.valid then some result else none

/-- Everything behind the byte of the type. -/
def readFields (dcId : UInt16) (typeWithFlags : UInt8) : Get (Option StorageFileLocation) := do
  let sizeLetter ← Get.uint8
  let field1 ← Get.int32
  let id ← Get.uint64
  let accessHash ← Get.uint64
  let volumeId ← Get.uint64
  let (field2, inMessageId) ← readMessageFields
    (typeWithFlags &&& kModernLocationFlag ≠ 0 || typeWithFlags &&& kLegacyInMessagePeerIdFlag ≠ 0)
  let fileReference ← Get.byteArray
  return restore { dcId, sizeLetter, id, accessHash, volumeId, inMessageId, fileReference }
    typeWithFlags field1 field2

def read : Get (Option StorageFileLocation) := do
  let dcId ← Get.uint16
  let typeWithFlags ← Get.uint8
  if typeWithFlags = kNonStorageLocationToken then
    return none
  else
    (readFields dcId typeWithFlags).checked

def fromSerialized (serialized : Bytes) : Option StorageFileLocation :=
  if serialized = [] then some {} else read.run serialized

end StorageFileLocation

/-! ## All kinds of locations -/

inductive NonStorageLocationType where
  | web
  | geo
  | url
  | memory
  | audioAlbumThumb
deriving DecidableEq, Repr

def NonStorageLocationType.toByte : NonStorageLocationType → UInt8
  | .web => 0
  | .geo => 1
  | .url => 2
  | .memory => 3
  | .audioAlbumThumb => 4

def NonStorageLocationType.all : List NonStorageLocationType :=
  [.web, .geo, .url, .memory, .audioAlbumThumb]

def NonStorageLocationType.ofByte (byte : UInt8) : Option NonStorageLocationType :=
  NonStorageLocationType.all.find? fun type => type.toByte = byte

/-- The coordinates are the bits of the `float64` values. -/
structure GeoPointLocation where
  lat : UInt64
  lon : UInt64
  access : UInt64
  width : Int32
  height : Int32
  zoom : Int32
  scale : Int32
deriving DecidableEq, Repr

inductive DownloadLocation where
  | storage (file : StorageFileLocation)
  | web (url : QByteArray) (accessHash : UInt64)
  | geo (point : GeoPointLocation)
  | plainUrl (url : QString)
  | audioAlbumThumb (documentId : UInt64)
  | memory (bytes : QByteArray)
deriving DecidableEq, Repr

namespace DownloadLocation

def valid : DownloadLocation → Bool
  | .geo _ => true
  | .storage file => file.valid
  | .web url _ => url.bytes != []
  | .plainUrl url => url.text != ""
  | .audioAlbumThumb documentId => documentId != 0
  | .memory bytes => bytes.bytes != []

/-- What is written behind the token of a location that is not in a storage. -/
def kindBytes : DownloadLocation → Option Bytes
  | .storage _ => none
  | .web url accessHash =>
      some (putUInt8 NonStorageLocationType.web.toByte ++ (putByteArray url ++ putUInt64 accessHash))
  | .geo point =>
      some (putUInt8 NonStorageLocationType.geo.toByte ++ (putUInt64 point.lat
        ++ (putUInt64 point.lon ++ (putUInt64 point.access ++ (putInt32 point.width
        ++ (putInt32 point.height ++ (putInt32 point.zoom ++ putInt32 point.scale)))))))
  | .audioAlbumThumb documentId =>
      some (putUInt8 NonStorageLocationType.audioAlbumThumb.toByte ++ putUInt64 documentId)
  | .plainUrl url => some (putUInt8 NonStorageLocationType.url.toByte ++ putByteArray url.toUtf8)
  | .memory bytes => some (putUInt8 NonStorageLocationType.memory.toByte ++ putByteArray bytes)

/-- `v::get<StorageFileLocation>`. -/
def asStorage : DownloadLocation → Option StorageFileLocation
  | .storage file => some file
  | _ => none

def isStorage (l : DownloadLocation) : Bool := l.asStorage.isSome

def serialize (l : DownloadLocation) : Option Bytes := do
  if !l.valid || l.isStorage then
    (← l.asStorage).serialize
  else
    return putUInt16 0 ++ (putUInt8 kNonStorageLocationToken ++ (← l.kindBytes))

def kindSize : DownloadLocation → Option Nat
  | .storage _ => none
  | .web url _ => some ((4 + url.bytes.length) + 8)
  | .geo _ => some (2 * 8 + 8 + 4 * 4)
  | .plainUrl url => some (4 + url.toUtf8.bytes.length)
  | .audioAlbumThumb _ => some 8
  | .memory bytes => some (4 + bytes.bytes.length)

def serializeSize (l : DownloadLocation) : Option Nat := do
  if !l.valid || l.isStorage then
    return (← l.asStorage).serializeSize
  else
    return 2 + 1 + 1 + (← l.kindSize)

-- `base::FromUtf8Safe` is not part of the repository.
variable (fromUtf8Safe : QByteArray → QString)

/-- The location behind the byte of its kind. -/
def readKind : Option NonStorageLocationType → Get (Option DownloadLocation)
  | none => return none
  | some .web => do
      let url ← Get.byteArray
      let accessHash ← Get.uint64
      return some (.web url accessHash)
  | some .geo => do
      let lat ← Get.uint64
      let lon ← Get.uint64
      let access ← Get.uint64
      let width ← Get.int32
      let height ← Get.int32
      let zoom ← Get.int32
      let scale ← Get.int32
      return some (.geo { lat, lon, access, width, height, zoom, scale })
  | some .audioAlbumThumb => do
      let id ← Get.uint64
      return some (.audioAlbumThumb id)
  | some .url => do
      let utf ← Get.byteArray
      return some (.plainUrl (fromUtf8Safe utf))
  | some .memory => do
      let bytes ← Get.byteArray
      return some (.memory bytes)

def readNonStorage : Get (Option DownloadLocation) := do
  let type ← Get.uint8
  readKind fromUtf8Safe (NonStorageLocationType.ofByte type)

def readHead : Get (UInt16 × UInt8) := do
  let dcId ← Get.uint16
  let token ← Get.uint8
  return (dcId, token)

def fromSerialized (serialized : Bytes) : Option DownloadLocation :=
  let ((dcId, token), stream) := readHead { rest := serialized }
  if dcId ≠ 0 ∨ token ≠ kNonStorageLocationToken then
    (StorageFileLocation.fromSerialized serialized).map .storage
  else
    ((readNonStorage fromUtf8Safe).checked stream).1

end DownloadLocation

/-! ## Locations with a size -/

/-- Both image locations: a file of either sort, and the size of the image. -/
structure SizedLocation (File : Type) where
  file : File
  width : Int32 := 0
  height : Int32 := 0
deriving DecidableEq, Repr

/-- Append the size to the bytes of the file, unless there is nothing to save. -/
def SizedLocation.append {File : Type} (l : SizedLocation File) (file : Bytes) : Bytes :=
  if file ≠ [] ∨ 0 < l.width ∨ 0 < l.height then
    file ++ (putInt32 l.width ++ putInt32 l.height)
  else
    file

def SizedLocation.sizeWith {File : Type} (l : SizedLocation File) (part : Nat) : Nat :=
  if part > 0 ∨ 0 < l.width ∨ 0 < l.height then part + 2 * 4 else 0

def readSize : Get (Int32 × Int32) := do
  let width ← Get.int32
  let height ← Get.int32
  return (width, height)

/-- The size at the end of the bytes. -/
def SizedLocation.fromSerialized {File : Type} (file : Option File) (serialized : Bytes) :
    Option (SizedLocation File) := do
  let file ← file
  let full := serialized.length
  if full = 0 then
    return { file := file }
  else if full ≥ 2 * 4 then
    let size ← (some <$> readSize).checked.run (serialized.drop (full - 2 * 4))
    return { file := file, width := size.1, height := size.2 }
  else
    none

abbrev StorageImageLocation : Type := SizedLocation StorageFileLocation

namespace StorageImageLocation

def serialize (l : StorageImageLocation) : Option Bytes := l.append <$> l.file.serialize

def serializeSize (l : StorageImageLocation) : Nat := l.sizeWith l.file.serializeSize

def fromSerialized (serialized : Bytes) : Option StorageImageLocation :=
  SizedLocation.fromSerialized (StorageFileLocation.fromSerialized serialized) serialized

end StorageImageLocation

abbrev ImageLocation : Type := SizedLocation DownloadLocation

namespace ImageLocation

def serialize (l : ImageLocation) : Option Bytes := l.append <$> l.file.serialize

def serializeSize (l : ImageLocation) : Option Nat := l.sizeWith <$> l.file.serializeSize

def fromSerialized (fromUtf8Safe : QByteArray → QString) (serialized : Bytes) :
    Option ImageLocation :=
  SizedLocation.fromSerialized (DownloadLocation.fromSerialized fromUtf8Safe serialized) serialized

end ImageLocation

end MessengerClient
