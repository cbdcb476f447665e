import MessengerClient.ImageLocation.Serialization

/-!
# MessengerClient.Peers

Users, basic groups and channels as `data/data_user.cpp`, `data/data_chat.cpp` and
`data/data_channel.cpp` keep them: the fields that are saved, and the setters that
restore them.

The early return of `updateNameDelayed` is left out, since everything it skips would
set the same values; so are the events, the forums and the full name of a user.
-/

namespace MessengerClient

/-! ## Last seen -/

def kLifeStartDate : Nat := 1375315200
def kSpecialValueSkip : Nat := 4

/-- The largest value: a time that still fits a `TimeId`. -/
def kLastseenMax : Nat := 2 ^ 31 - 1 - kLifeStartDate

theorem zero_le_kLastseenMax : (0 : UInt32).toNat ≤ kLastseenMax := by decide

theorem skip_of_unavailable (n : Nat) (h : false = true) : n ≤ (0 : UInt32).toNat := by
  cases h

/-- The values that the constructors give. -/
@[ext]
structure LastseenStatus where
  value : UInt32 := 0
  available : Bool := false
  hiddenByMe : Bool := false
  value_le : value.toNat ≤ kLastseenMax := by first | exact zero_le_kLastseenMax | decide
  skip : available → kSpecialValueSkip ≤ value.toNat := by
    first | exact skip_of_unavailable _ | decide
deriving DecidableEq, Repr

namespace LastseenStatus

/-- `LongAgo`, `Recently`, `WithinWeek` and `WithinMonth`. -/
def special (value : Fin 4) (byMe : Bool) : LastseenStatus where
  value := UInt32.ofNat value
  hiddenByMe := byMe
  value_le := by
    revert value
    decide
  skip := by
    intro h
    cases h

def onlineTill (till : Int32) (isLocal hiddenByMe : Bool) : LastseenStatus :=
  if h : (kLifeStartDate + kSpecialValueSkip : Int) ≤ till.toInt then
    have hlt := till.toInt_lt
    have hvalue : (UInt32.ofNat (till.toInt - kLifeStartDate).toNat).toNat
        = (till.toInt - kLifeStartDate).toNat := by
      unfold kLifeStartDate
      exact UInt32.toNat_ofNat_of_lt' (by simp only [UInt32.size]; omega)
    { value := UInt32.ofNat (till.toInt - kLifeStartDate).toNat
      available := !isLocal
      hiddenByMe := hiddenByMe
      value_le := by
        rw [hvalue]
        unfold kLastseenMax
        omega
      skip := by
        intro _
        rw [hvalue]
        omega }
  else
    special 0 hiddenByMe

def serialize (s : LastseenStatus) : UInt32 :=
  (s.value &&& (0x3FFFFFFF : UInt32)) ||| (s.available.toUInt32 <<< 30)
    ||| (s.hiddenByMe.toUInt32 <<< 31)

/-- `valid()` of the fields that were read. -/
def valid (value : UInt32) (available : Bool) : Prop :=
  2 ^ 31 - 1 - value.toNat > kLifeStartDate ∧ (available → kSpecialValueSkip ≤ value.toNat)

instance (value : UInt32) (available : Bool) : Decidable (valid value available) :=
  inferInstanceAs (Decidable (_ ∧ _))

def fromSerialized (value : UInt32) : LastseenStatus :=
  if h : valid (value &&& 0x3FFFFFFF) ((value >>> 30) &&& 1 != 0) then
    { value := value &&& 0x3FFFFFFF
      available := (value >>> 30) &&& 1 != 0
      hiddenByMe := (value >>> 31) &&& 1 != 0
      value_le := by
        have := h.1
        unfold kLastseenMax
        omega
      skip := h.2 }
  else
    {}

def fromLegacy (value : Int32) : LastseenStatus :=
  if value = -2 then special 1 false
  else if value = -3 then special 2 false
  else if value = -4 then special 3 false
  else if value < -30 then onlineTill (-value) true false
  else if 0 < value then onlineTill value false false
  else {}

end LastseenStatus

/-! ## Usernames -/

/-- `Data::UsernamesInfo`. -/
structure UsernamesInfo where
  usernames : List QString := []
  indexEditableUsername : Int := -1
deriving DecidableEq, Repr

namespace UsernamesInfo

def username (i : UsernamesInfo) : QString := i.usernames.headD {}

def editableUsername (i : UsernamesInfo) : QString :=
  if i.indexEditableUsername < 0 then {}
  else i.usernames.getD i.indexEditableUsername.toNat {}

def setUsername (i : UsernamesInfo) (username : QString) : UsernamesInfo :=
  if i.usernames = [] || i.indexEditableUsername < 0
      || i.usernames.length ≤ i.indexEditableUsername then
    if username.isEmpty then { i with indexEditableUsername := -1 }
    else { usernames := i.usernames ++ [username], indexEditableUsername := 0 }
  else if i.usernames.getD i.indexEditableUsername.toNat {} ≠ username then
    if username.isEmpty then
      { usernames := i.usernames.eraseIdx i.indexEditableUsername.toNat
        indexEditableUsername := -1 }
    else
      { i with usernames := i.usernames.set i.indexEditableUsername.toNat username }
  else
    i

/-- What `updateNameDelayed` does: a username that is the editable one is not set again. -/
def update (i : UsernamesInfo) (username : QString) : UsernamesInfo :=
  if i.editableUsername ≠ username then i.setUsername username else i

end UsernamesInfo

/-! ## Peers -/

inductive LoadedStatus where
  | not
  | minimal
  | normal
  | full
deriving DecidableEq, Repr

def kUnknownPhotoId : UInt64 := 0xFFFFFFFFFFFFFFFF

structure PeerData where
  id : PeerId
  loadedStatus : LoadedStatus := .not
  photoId : UInt64 := kUnknownPhotoId
  userpicHasVideo : Bool := false
  userpicLocation : ImageLocation := { file := .storage {} }
deriving DecidableEq, Repr

namespace PeerData

def isLoaded (p : PeerData) : Bool := p.loadedStatus == .normal || p.loadedStatus == .full

def userpicPhotoId (p : PeerData) : UInt64 := if p.photoId = kUnknownPhotoId then 0 else p.photoId

def setUserpic (p : PeerData) (photoId : UInt64) (location : ImageLocation) (hasVideo : Bool) :
    PeerData :=
  { p with photoId := photoId, userpicHasVideo := hasVideo, userpicLocation := location }

end PeerData

namespace UserDataFlag

def contact : UInt32 := (1 : UInt32) <<< 0
def mutualContact : UInt32 := (1 : UInt32) <<< 1
def deleted : UInt32 := (1 : UInt32) <<< 2
def verified : UInt32 := (1 : UInt32) <<< 3
def scam : UInt32 := (1 : UInt32) <<< 4
def fake : UInt32 := (1 : UInt32) <<< 5
def botInlineGeo : UInt32 := (1 : UInt32) <<< 6
def support : UInt32 := (1 : UInt32) <<< 10
def self : UInt32 := (1 : UInt32) <<< 13
def forum : UInt32 := (1 : UInt32) <<< 27

end UserDataFlag

inductive ContactStatus where
  | unknown
  | contact
  | notContact
deriving DecidableEq, Repr

structure BotInfo where
  version : Int32 := 0
  inlinePlaceholder : QString := {}
  supportsGuestChat : Bool := false
deriving DecidableEq, Repr

def kInaccessibleAccessHashOld : UInt64 := 0xFFFFFFFFFFFFFFFF

structure UserData extends PeerData where
  firstName : QString := {}
  lastName : QString := {}
  phone : QString := {}
  usernames : UsernamesInfo := {}
  accessHash : UInt64 := 0
  flags : UInt32 := 0
  lastseen : LastseenStatus := {}
  contactStatus : ContactStatus := .unknown
  botInfo : Option BotInfo := none
  isUser : peerIsUser id
deriving DecidableEq, Repr

namespace UserData

def isBot (u : UserData) : Bool := u.botInfo.isSome

def isContact (u : UserData) : Bool := u.contactStatus == .contact

/-- `QChar::isSpace`. -/
def isSpace (c : Char) : Bool :=
  c.toNat == 0x20 || (0x09 ≤ c.toNat && c.toNat ≤ 0x0D) || c.toNat == 0x85 || c.toNat == 0xA0
    || c.toNat == 0x1680 || (0x2000 ≤ c.toNat && c.toNat ≤ 0x200A) || c.toNat == 0x2028
    || c.toNat == 0x2029 || c.toNat == 0x202F || c.toNat == 0x205F || c.toNat == 0x3000

/-- `trimmed().isEmpty()`. -/
def isBlank (s : QString) : Bool := s.text.toList.all isSpace

def setName (u : UserData) (newFirstName newLastName newUsername : QString) : UserData :=
  let changeName := !newFirstName.isEmpty || !newLastName.isEmpty
  let u :=
    if changeName && isBlank newFirstName then { u with firstName := newLastName, lastName := {} }
    else if changeName then { u with firstName := newFirstName, lastName := newLastName }
    else u
  { u with usernames := u.usernames.update newUsername }

def setFlags (u : UserData) (which : UInt32) : UserData :=
  let which := if u.isBot then which else which &&& ~~~UserDataFlag.forum
  { u with flags := (u.flags &&& UserDataFlag.self) ||| (which &&& ~~~UserDataFlag.self) }

def setAccessHash (u : UserData) (accessHash : UInt64) : UserData :=
  if accessHash = kInaccessibleAccessHashOld then
    { u with accessHash := 0, flags := u.flags ||| UserDataFlag.deleted }
  else
    { u with accessHash := accessHash }

def setIsContact (u : UserData) (is : Bool) : UserData :=
  { u with contactStatus := if is then .contact else .notContact }

def setBotInfoVersion (u : UserData) (version : Int32) : UserData :=
  { u with
    botInfo :=
      if version < 0 then u.botInfo.map fun info => { info with version := -1 }
      else
        match u.botInfo with
        | none => some { version := version }
        | some info =>
        some (if info.version < version then { info with version := version } else info) }

end UserData

namespace ChatDataFlag

def left : UInt32 := (1 : UInt32) <<< 0
def creator : UInt32 := (1 : UInt32) <<< 2
def deactivated : UInt32 := (1 : UInt32) <<< 3
def forbidden : UInt32 := (1 : UInt32) <<< 4
def callActive : UInt32 := (1 : UInt32) <<< 5
def callNotEmpty : UInt32 := (1 : UInt32) <<< 6

end ChatDataFlag

structure ChatData extends PeerData where
  name : QString := {}
  count : Int32 := 0
  date : Int32 := 0
  version : Int32 := 0
  creator : UserId := 0
  flags : UInt32 := 0
  inviteLink : QString := {}
  isChat : peerIsChat id
deriving DecidableEq, Repr

def ChatData.setName (c : ChatData) (newName : QString) : ChatData :=
  { c with name := if newName.isEmpty then c.name else newName }

namespace ChannelDataFlag

def left : UInt64 := (1 : UInt64) <<< 0
def creator : UInt64 := (1 : UInt64) <<< 1
def forbidden : UInt64 := (1 : UInt64) <<< 2
def callActive : UInt64 := (1 : UInt64) <<< 3
def callNotEmpty : UInt64 := (1 : UInt64) <<< 4
def signatures : UInt64 := (1 : UInt64) <<< 5
def verified : UInt64 := (1 : UInt64) <<< 6
def scam : UInt64 := (1 : UInt64) <<< 7
def fake : UInt64 := (1 : UInt64) <<< 8
def megagroup : UInt64 := (1 : UInt64) <<< 9
def broadcast : UInt64 := (1 : UInt64) <<< 10
def gigagroup : UInt64 := (1 : UInt64) <<< 11
def username : UInt64 := (1 : UInt64) <<< 12
def hasLink : UInt64 := (1 : UInt64) <<< 18
def slowmodeEnabled : UInt64 := (1 : UInt64) <<< 19
def forum : UInt64 := (1 : UInt64) <<< 23
def monoforum : UInt64 := (1 : UInt64) <<< 39
def monoforumAdmin : UInt64 := (1 : UInt64) <<< 40

end ChannelDataFlag

structure ChannelData extends PeerData where
  name : QString := {}
  usernames : UsernamesInfo := {}
  accessHash : UInt64 := 0
  date : Int32 := 0
  flags : UInt64 := 0
  inviteLink : QString := {}
  isChannel : peerIsChannel id
deriving DecidableEq, Repr

namespace ChannelData

/-- What `setFlags` makes of the flags it is given. -/
def consistentFlags (which : UInt64) : UInt64 :=
  let which :=
    if which &&& ChannelDataFlag.monoforumAdmin ≠ 0 then which ||| ChannelDataFlag.monoforum
    else which
  let which :=
    if which &&& (ChannelDataFlag.forum ||| ChannelDataFlag.monoforum) ≠ 0 then
      which ||| ChannelDataFlag.megagroup
    else which
  if which &&& ChannelDataFlag.monoforum ≠ 0 then which &&& ~~~ChannelDataFlag.forum else which

def setFlags (c : ChannelData) (which : UInt64) : ChannelData :=
  { c with flags := consistentFlags which }

def setName (c : ChannelData) (newName newUsername : QString) : ChannelData :=
  let c := { c with name := if newName.isEmpty then c.name else newName }
  if c.usernames.editableUsername ≠ newUsername then
    let c := { c with usernames := c.usernames.setUsername newUsername }
    if c.usernames.username.isEmpty then c.setFlags (c.flags &&& ~~~ChannelDataFlag.username)
    else c.setFlags (c.flags ||| ChannelDataFlag.username)
  else
    c

end ChannelData

inductive Peer where
  | user (u : UserData)
  | chat (c : ChatData)
  | channel (c : ChannelData)
deriving DecidableEq, Repr

namespace Peer

def data : Peer → PeerData
  | .user u => u.toPeerData
  | .chat c => c.toPeerData
  | .channel c => c.toPeerData

def id (p : Peer) : PeerId := p.data.id

def isLoaded (p : Peer) : Bool := p.data.isLoaded

end Peer

/-! ## The session -/

/-- The peers that exist, each at its id. -/
structure Session where
  userPeerId : PeerId
  peers : PeerId → Option Peer
  peers_id : ∀ {id p}, peers id = some p → p.id = id

namespace Session

/-- The peer of an id, created if there is none; `none` stands for `Unexpected`. -/
def peer (s : Session) (id : PeerId) : Option Peer :=
  match s.peers id with
  | some p => some p
  | none =>
      if h : peerIsUser id then
        let flags := if id = s.userPeerId then UserDataFlag.self else 0
        some (.user { id := id, flags := flags, isUser := h })
      else if h : peerIsChat id then
        some (.chat { id := id, isChat := h })
      else if h : peerIsChannel id then
        some (.channel { id := id, isChannel := h })
      else
        none

def peerLoaded (s : Session) (id : PeerId) : Option Peer := (s.peers id).filter Peer.isLoaded

/-- The session after a peer has changed. -/
def put (s : Session) (p : Peer) : Session where
  userPeerId := s.userPeerId
  peers := Function.update s.peers p.id (some p)
  peers_id := by
    intro id q h
    by_cases hid : id = p.id
    · subst hid
      rw [Function.update_self] at h
      cases h
      rfl
    · rw [Function.update_of_ne hid] at h
      exact s.peers_id h

end Session

end MessengerClient
