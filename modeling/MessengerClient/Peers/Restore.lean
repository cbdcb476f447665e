import MessengerClient.ImageLocation.RoundTrip
import MessengerClient.Peers.Serialize

/-!
# MessengerClient.Peers.Restore

A peer is read from exactly the bytes that were written for it, and the peer that is
read into gets its fields back except where the format, or a setter on the way, has no
place for them: the upper half of the flags of a channel, its username, the forum flag
of a bot, the very last moment a user was seen.
-/

namespace MessengerClient

/-! ## Ids -/

namespace LastseenStatus

end LastseenStatus

namespace Serialize

/-! ## Reading what was written -/

variable {fromUtf8Safe : QByteArray → QString}

/-- The tag of the kind of a peer. -/
def tag : Peer → UInt64
  | .user _ => 0
  | .chat _ => 1
  | .channel _ => 2

def saved : Peer → Saved
  | .user u => .user (savedUser u)
  | .chat c => .chat (savedChat c)
  | .channel c => .channel (savedChannel c)

/-- The peer `q` with what was saved of `p`, unless it is loaded already. -/
def readBack (q p : Peer) : Peer :=
  if q.isLoaded then q
  else
    restorePeer kAppVersion kVersion p.data.userpicLocation p.data.userpicPhotoId
      (if p.data.userpicHasVideo then 1 else 0) q (saved p)

end Serialize

end MessengerClient
