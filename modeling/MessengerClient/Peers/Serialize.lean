import MessengerClient.Peers

/-!
# MessengerClient.Peers.Serialize

`storage/serialize_peer.cpp`: a peer in a stream.  The fields of each kind of peer
stand in a record of what is saved, which is written and read field by field and then
applied to the peer.
-/

namespace MessengerClient

namespace Serialize

def kModernImageLocationTag : Int32 := Int32.minValue
def kVersionTag : UInt64 := 0x77FFFFFFFFFFFFFF
def kVersion : Int32 := 3

/-- `AppVersion` of `core/version.h`. -/
def kAppVersion : Int := 7000003

/-! ## Image locations -/

/-- The fields of the old format, behind the width. -/
def legacyFields (streamAppVersion : Int) (width : Int32) : Get (Option StorageImageLocation) :=
  Get.checked do
    let height ← Get.int32
    let dc ← Get.int32
    let volume ← Get.uint64
    let localId ← Get.int32
    let secret ← Get.uint64
    let fileReference ← Get.gated (streamAppVersion ≥ 1003013) Get.byteArray {}
    return do
      let file ← StorageFileLocation.ofTL dc 0 (.file volume localId secret fileReference)
      return { file := file, width := width, height := height }

def readLegacyStorageImageLocationOrTag (streamAppVersion : Int) :
    Get (Option StorageImageLocation) := do
  let width ← Get.int32
  if width = kModernImageLocationTag then
    return none
  else
    legacyFields streamAppVersion width

def imageLocationSize (l : ImageLocation) : Option Nat := (4 * 2 + ·) <$> l.serializeSize

/-- The bytes of a location as an array; `none` where they cannot be counted. -/
def byteArrayOf (bytes : Bytes) : Option QByteArray :=
  if h : bytes.length < 0xFFFFFFFF then some { bytes := bytes, length_lt := h } else none

def writeImageLocation (l : ImageLocation) : Option Bytes := do
  let serialized ← byteArrayOf (← l.serialize)
  return putInt32 kModernImageLocationTag ++ putByteArray serialized

-- `base::FromUtf8Safe` is not part of the repository.
variable (fromUtf8Safe : QByteArray → QString)

def readImageLocation (streamAppVersion : Int) : Get (Option ImageLocation) := do
  match ← readLegacyStorageImageLocationOrTag streamAppVersion with
  | some legacy =>
      return some { file := .storage legacy.file, width := legacy.width, height := legacy.height }
  | none =>
      Get.checked do
        let serialized ← Get.byteArray
        return ImageLocation.fromSerialized fromUtf8Safe serialized.bytes

/-! ## What is saved -/

structure SavedUser where
  first : QString
  last : QString
  phone : QString
  username : QString
  access : UInt64
  flags : Int32
  inlinePlaceholder : QString
  lastseen : UInt32
  contact : Int32
  botInfoVersion : Int32
  supportsGuestChat : Int32
deriving DecidableEq, Repr

def SavedUser.bytes (s : SavedUser) : Bytes :=
  putQString s.first ++ (putQString s.last ++ (putQString s.phone ++ (putQString s.username
    ++ (putUInt64 s.access ++ (putInt32 s.flags ++ (putQString s.inlinePlaceholder
    ++ (putUInt32 s.lastseen ++ (putInt32 s.contact ++ (putInt32 s.botInfoVersion
    ++ putInt32 s.supportsGuestChat)))))))))

def readUser (streamAppVersion : Int) (version : Int32) : Get SavedUser := do
  let first ← Get.qString
  let last ← Get.qString
  let phone ← Get.qString
  let username ← Get.qString
  let access ← Get.uint64
  let flags ← Get.gated (streamAppVersion ≥ 9012) Get.int32 0
  let inlinePlaceholder ← Get.gated (streamAppVersion ≥ 9016) Get.qString {}
  let lastseen ← Get.uint32
  let contact ← Get.int32
  let botInfoVersion ← Get.int32
  let supportsGuestChat ← Get.gated (version > 2) Get.int32 0
  return ⟨first, last, phone, username, access, flags, inlinePlaceholder, lastseen, contact,
    botInfoVersion, supportsGuestChat⟩

structure SavedChat where
  name : QString
  count : Int32
  date : Int32
  version : Int32
  field1 : Int32
  field2 : Int32
  flags : UInt32
  inviteLink : QString
deriving DecidableEq, Repr

def SavedChat.bytes (s : SavedChat) : Bytes :=
  putQString s.name ++ (putInt32 s.count ++ (putInt32 s.date ++ (putInt32 s.version
    ++ (putInt32 s.field1 ++ (putInt32 s.field2 ++ (putUInt32 s.flags
    ++ putQString s.inviteLink))))))

def readChat : Get SavedChat := do
  let name ← Get.qString
  let count ← Get.int32
  let date ← Get.int32
  let version ← Get.int32
  let field1 ← Get.int32
  let field2 ← Get.int32
  let flags ← Get.uint32
  let inviteLink ← Get.qString
  return ⟨name, count, date, version, field1, field2, flags, inviteLink⟩

structure SavedChannel where
  name : QString
  access : UInt64
  date : Int32
  version : Int32
  oldForbidden : Int32
  flags : UInt32
  inviteLink : QString
deriving DecidableEq, Repr

def SavedChannel.bytes (s : SavedChannel) : Bytes :=
  putQString s.name ++ (putUInt64 s.access ++ (putInt32 s.date ++ (putInt32 s.version
    ++ (putInt32 s.oldForbidden ++ (putUInt32 s.flags ++ putQString s.inviteLink)))))

def readChannel : Get SavedChannel := do
  let name ← Get.qString
  let access ← Get.uint64
  let date ← Get.int32
  let version ← Get.int32
  let oldForbidden ← Get.int32
  let flags ← Get.uint32
  let inviteLink ← Get.qString
  return ⟨name, access, date, version, oldForbidden, flags, inviteLink⟩

/-! ## Writing -/

def savedUser (u : UserData) : SavedUser where
  first := u.firstName
  last := u.lastName
  phone := u.phone
  username := u.usernames.username
  access := u.accessHash
  flags := u.flags.toInt32
  inlinePlaceholder := u.botInfo.elim {} BotInfo.inlinePlaceholder
  lastseen := u.lastseen.serialize
  contact := if u.isContact then 1 else 0
  botInfoVersion := u.botInfo.elim (-1) BotInfo.version
  supportsGuestChat := if u.botInfo.any BotInfo.supportsGuestChat then 1 else 0

def savedChat (c : ChatData) : SavedChat where
  name := c.name
  count := c.count
  date := c.date
  version := c.version
  field1 := (c.creator &&& 0xFFFFFFFF).toUInt32.toInt32
  field2 := ((c.creator >>> 32).toUInt32 <<< 8).toInt32
  flags := c.flags
  inviteLink := c.inviteLink

/-- The flags are written as a `quint32`. -/
def savedChannel (c : ChannelData) : SavedChannel where
  name := c.name
  access := c.accessHash
  date := c.date
  version := 0
  oldForbidden := 0
  flags := c.flags.toUInt32
  inviteLink := c.inviteLink

def savedBytes : Peer → Bytes
  | .user u => (savedUser u).bytes
  | .chat c => (savedChat c).bytes
  | .channel c => (savedChannel c).bytes

def writePeer (peer : Peer) : Option Bytes := do
  let id ← serializePeerId peer.id
  let location ← writeImageLocation peer.data.userpicLocation
  return putUInt64 id ++ (putUInt64 kVersionTag ++ (putInt32 kVersion
    ++ (putUInt64 peer.data.userpicPhotoId ++ (location
    ++ (putInt32 (if peer.data.userpicHasVideo then 1 else 0) ++ savedBytes peer)))))

def stringSize (s : QString) : Nat := 4 + s.size * 2

def savedSize : Peer → Nat
  | .user u =>
      stringSize u.firstName + stringSize u.lastName + stringSize u.phone
        + stringSize u.usernames.username + 8 + 4
        + stringSize (u.botInfo.elim {} BotInfo.inlinePlaceholder) + 4 + 4 + 4 + 4
  | .chat c => stringSize c.name + 4 + 4 + 4 + 4 + 4 + 4 + stringSize c.inviteLink
  | .channel c => stringSize c.name + 8 + 4 + 4 + 4 + 4 + stringSize c.inviteLink

def peerSize (peer : Peer) : Option Nat := do
  let location ← imageLocationSize peer.data.userpicLocation
  return 8 + 8 + 4 + 8 + location + 4 + savedSize peer

/-! ## Applying what was read -/

/-- The flags of old versions had the bits of the TL objects. -/
def convertFlags {Flags : Type} [OrOp Flags] [AndOp Flags] [Complement Flags] (zero : Flags)
    (conversions : List (UInt32 × Flags)) (saved : UInt32) (flags : Flags) : Flags :=
  let mask := conversions.foldl (fun mask c => mask ||| c.2) zero
  let set := conversions.foldl (fun set c => if saved &&& c.1 ≠ 0 then set ||| c.2 else set) zero
  (flags &&& ~~~mask) ||| set

def bit (n : UInt32) : UInt32 := (1 : UInt32) <<< n

def userConversions : List (UInt32 × UInt32) :=
  [(bit 13, UserDataFlag.deleted), (bit 17, UserDataFlag.verified), (bit 24, UserDataFlag.scam),
    (bit 26, UserDataFlag.fake), (bit 21, UserDataFlag.botInlineGeo),
    (bit 23, UserDataFlag.support), (bit 11, UserDataFlag.contact),
    (bit 12, UserDataFlag.mutualContact)]

def chatConversions : List (UInt32 × UInt32) :=
  [(bit 2, ChatDataFlag.left), (bit 0, ChatDataFlag.creator), (bit 5, ChatDataFlag.deactivated),
    (bit 31, ChatDataFlag.forbidden), (bit 23, ChatDataFlag.callActive),
    (bit 24, ChatDataFlag.callNotEmpty)]

def channelConversions : List (UInt32 × UInt64) :=
  [(bit 5, ChannelDataFlag.broadcast), (bit 7, ChannelDataFlag.verified),
    (bit 19, ChannelDataFlag.scam), (bit 25, ChannelDataFlag.fake),
    (bit 8, ChannelDataFlag.megagroup), (bit 26, ChannelDataFlag.gigagroup),
    (bit 6, ChannelDataFlag.username), (bit 11, ChannelDataFlag.signatures),
    (bit 20, ChannelDataFlag.hasLink), (bit 22, ChannelDataFlag.slowmodeEnabled),
    (bit 23, ChannelDataFlag.callActive), (bit 24, ChannelDataFlag.callNotEmpty),
    (bit 31, ChannelDataFlag.forbidden), (bit 2, ChannelDataFlag.left),
    (bit 0, ChannelDataFlag.creator)]

def restoreUser (streamAppVersion : Int) (version : Int32) (u : UserData) (s : SavedUser) :
    UserData :=
  let u := { u with phone := s.phone }
  let u := u.setName s.first s.last s.username
  let u := u.setFlags <|
    if streamAppVersion ≥ 2008007 then s.flags.toUInt32
    else convertFlags 0 userConversions s.flags.toUInt32 u.flags
  let u := u.setAccessHash s.access
  let u := { u with
    lastseen :=
      if version > 1 then LastseenStatus.fromSerialized s.lastseen
      else LastseenStatus.fromLegacy s.lastseen.toInt32 }
  let u := u.setIsContact (s.contact == 1)
  let u := u.setBotInfoVersion s.botInfoVersion
  { u with
    botInfo := u.botInfo.map fun info =>
      { info with
        supportsGuestChat := s.supportsGuestChat == 1
        inlinePlaceholder :=
          if s.inlinePlaceholder.isEmpty then info.inlinePlaceholder else s.inlinePlaceholder } }

def restoreChat (streamAppVersion : Int) (c : ChatData) (s : SavedChat) : ChatData :=
  let c := c.setName s.name
  let oldForbidden : UInt32 :=
    if s.field2.toUInt32 &&& 0xFF = 1 then ChatDataFlag.forbidden else 0
  { c with
    count := s.count
    date := s.date
    -- The participants are not saved, so the version is not restored.
    version := 0
    flags :=
      if streamAppVersion ≥ 2008007 then s.flags
      else if streamAppVersion ≥ 9012 then
        convertFlags 0 chatConversions s.flags c.flags ||| oldForbidden
      else c.flags ||| (if s.flags = 1 then ChatDataFlag.left else 0) ||| oldForbidden
    creator := s.field1.toUInt32.toUInt64 ||| ((s.field2.toUInt32 >>> 8).toUInt64 <<< 32)
    inviteLink := s.inviteLink }

def restoreChannel (streamAppVersion : Int) (c : ChannelData) (s : SavedChannel) : ChannelData :=
  let c := c.setName s.name {}
  let c := { c with accessHash := s.access, date := s.date }
  let c := c.setFlags <|
    if streamAppVersion ≥ 2008007 then s.flags.toUInt64
    else convertFlags 0 channelConversions s.flags c.flags
      ||| (if s.oldForbidden ≠ 0 then ChannelDataFlag.forbidden else 0)
  { c with inviteLink := s.inviteLink }

/-! ## Reading -/

/-- What was read for a peer of its kind. -/
inductive Saved where
  | user (s : SavedUser)
  | chat (s : SavedChat)
  | channel (s : SavedChannel)
deriving DecidableEq, Repr

/-- Read the fields of the kind that the peer is of. -/
def readSaved (streamAppVersion : Int) (version : Int32) : Peer → Get Saved
  | .user _ => .user <$> readUser streamAppVersion version
  | .chat _ => .chat <$> readChat
  | .channel _ => .channel <$> readChannel

def Saved.accessHash : Saved → UInt64
  | .user s => s.access
  | .chat _ => 0
  | .channel s => s.access

def convertToModernPeerPhoto (l : ImageLocation) (id accessHash photoId : UInt64) : ImageLocation :=
  { l with
    file :=
      match l.file with
      | .storage file => .storage (file.convertToModernPeerPhoto id accessHash photoId)
      | file => file }

/-- The part of the peer that all kinds have. -/
def restoreData (data : PeerData) (saved : Saved) (userpic : ImageLocation) (photoId : UInt64)
    (photoHasVideo : Int32) : PeerData :=
  { data with loadedStatus := .normal }.setUserpic photoId
    (convertToModernPeerPhoto userpic data.id.value saved.accessHash photoId) (photoHasVideo == 1)

/-- The peer with everything that was read. -/
def restorePeer (streamAppVersion : Int) (version : Int32) (userpic : ImageLocation)
    (photoId : UInt64) (photoHasVideo : Int32) : Peer → Saved → Peer
  | .user u, .user s =>
      .user { restoreUser streamAppVersion version u s with
        toPeerData := restoreData u.toPeerData (.user s) userpic photoId photoHasVideo
        isUser := u.isUser }
  | .chat c, .chat s =>
      .chat { restoreChat streamAppVersion c s with
        toPeerData := restoreData c.toPeerData (.chat s) userpic photoId photoHasVideo
        isChat := c.isChat }
  | .channel c, .channel s =>
      .channel { restoreChannel streamAppVersion c s with
        toPeerData := restoreData c.toPeerData (.channel s) userpic photoId photoHasVideo
        isChannel := c.isChannel }
  | peer, _ => peer

/-- The version and the photo id: in the old format the photo id stands for the tag. -/
def readVersion (versionTag : UInt64) : Get (Int32 × UInt64) :=
  if versionTag = kVersionTag then do
    let version ← Get.int32
    let photoId ← Get.uint64
    return (version, photoId)
  else
    return (0, versionTag)

/-- The peer that is read into, and if it is to be changed. -/
def target (session : Session) (peerId : PeerId) : Option (Peer × Bool) := do
  let loaded :=
    if peerId = session.userPeerId then session.peer session.userPeerId
    else session.peerLoaded peerId
  let apply := loaded.all fun peer => !peer.isLoaded
  return (← loaded.or (session.peer peerId), apply)

/-- `none` is the null pointer, and an id that no peer can have. -/
def readPeer (session : Session) (streamAppVersion : Int) : Get (Option (Peer × Session)) := do
  let peerIdSerialized ← Get.uint64
  let versionTag ← Get.uint64
  let peerId := deserializePeerId peerIdSerialized
  if peerId.value = 0 then
    return none
  else
    let (version, photoId) ← readVersion versionTag
    match ← readImageLocation fromUtf8Safe streamAppVersion with
    | none => return none
    | some userpic =>
        let photoHasVideo ← Get.gated (version > 0) Get.int32 0
        match target session peerId with
        | none => return none
        | some (peer, apply) =>
            let saved ← readSaved streamAppVersion version peer
            let result :=
              if apply then
                restorePeer streamAppVersion version userpic photoId photoHasVideo peer saved
              else
                peer
            return some (result, session.put result)

end Serialize

end MessengerClient
