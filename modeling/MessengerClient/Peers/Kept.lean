import Mathlib.Data.Nat.Bitwise
import MessengerClient.Peers.Restore

/-!
# MessengerClient.Peers.Kept

Which fields a peer that is read gets back, kind by kind, and what follows for a list
of peers that are read one after another.
-/

namespace MessengerClient

namespace Serialize

/-! ## The fields of a peer -/

/-- What is to be seen again of a peer. -/
inductive PeerFields where
  | user (id : PeerId) (photoId : UInt64) (firstName lastName phone username : QString)
      (accessHash : UInt64) (flags : UInt32) (lastseen : LastseenStatus) (isContact : Bool)
  | chat (id : PeerId) (photoId : UInt64) (name : QString) (count date : Int32)
      (creator : UserId) (flags : UInt32) (inviteLink : QString)
  | channel (id : PeerId) (photoId : UInt64) (name username : QString) (accessHash : UInt64)
      (date : Int32) (flags : UInt64) (inviteLink : QString)
deriving DecidableEq, Repr

def peerFields : Peer → PeerFields
  | .user u =>
      .user u.id u.userpicPhotoId u.firstName u.lastName u.phone u.usernames.username u.accessHash
        u.flags u.lastseen u.isContact
  | .chat c => .chat c.id c.userpicPhotoId c.name c.count c.date c.creator c.flags c.inviteLink
  | .channel c =>
      .channel c.id c.userpicPhotoId c.name c.usernames.username c.accessHash c.date c.flags
        c.inviteLink

/-! ## When they are kept -/

/-- The names of a user `u` get into a user `v`: a blank first name is replaced, and
no names at all change nothing. -/
def KeptName (v u : UserData) : Prop :=
  if u.firstName.isEmpty && u.lastName.isEmpty then v.firstName.isEmpty && v.lastName.isEmpty
  else UserData.isBlank u.firstName = false

/-- The flags of a user `u` get into a user `v`: only a known bot can be a forum, and
who is oneself does not change. -/
def KeptFlags (v u : UserData) : Prop :=
  (u.flags &&& UserDataFlag.forum ≠ 0 → v.isBot)
    ∧ u.flags &&& UserDataFlag.self = v.flags &&& UserDataFlag.self

instance (v u : UserData) : Decidable (KeptName v u) :=
  inferInstanceAs (Decidable (if u.firstName.isEmpty && u.lastName.isEmpty then
    v.firstName.isEmpty && v.lastName.isEmpty else UserData.isBlank u.firstName = false))

instance (v u : UserData) : Decidable (KeptFlags v u) := inferInstanceAs (Decidable (_ ∧ _))

structure KeptUser (v u : UserData) : Prop where
  name : KeptName v u
  username : (v.usernames.update u.usernames.username).username = u.usernames.username
  accessHash : u.accessHash ≠ kInaccessibleAccessHashOld
  flags : KeptFlags v u
  lastseen : u.lastseen.value.toNat ≠ kLastseenMax

structure KeptChat (v c : ChatData) : Prop where
  name : c.name.isEmpty → v.name.isEmpty
  creator : c.creator.toNat < 2 ^ 56

structure KeptChannel (v c : ChannelData) : Prop where
  name : c.name.isEmpty → v.name.isEmpty
  username : (v.usernames.update {}).username = c.usernames.username
  flags : c.flags.toNat < 2 ^ 32
  forum : c.flags &&& ChannelDataFlag.forum ≠ 0 → c.flags &&& ChannelDataFlag.megagroup ≠ 0

/-- The fields of `p` get into `q`. -/
def Kept : Peer → Peer → Prop
  | .user v, .user u => KeptUser v u
  | .chat v, .chat c => KeptChat v c
  | .channel v, .channel c => KeptChannel v c
  | _, _ => False

/-! ## Texts and integers -/

theorem isEmpty_iff {s : QString} : s.isEmpty ↔ s = {} := by
  constructor
  · intro h
    rw [QString.isEmpty, beq_iff_eq] at h
    cases s
    cases h
    rfl
  · rintro rfl
    rfl

/-- The user after the names and flags were set. -/
def named (v u : UserData) : UserData :=
  ({ v with phone := u.phone } : UserData).setName u.firstName u.lastName u.usernames.username

variable (fromUtf8Safe : QByteArray → QString)

/-- Peers that are written one after another are read one after another: each from
exactly its bytes, which are as many as its size says, and each that is not loaded yet
with its fields. -/
def Restores (session : Session) : List Peer → Prop
  | [] => True
  | p :: peers =>
      ∃ bytes q session', writePeer p = some bytes ∧ peerSize p = some bytes.length
        ∧ Reads (readPeer fromUtf8Safe session kAppVersion) bytes (some (q, session'))
        ∧ (session.peerLoaded p.id = none → peerFields q = peerFields p)
        ∧ Restores session' peers

variable {fromUtf8Safe}

end Serialize

end MessengerClient
