import Mathlib.Algebra.Order.Ring.Int

/-!
# MessengerClient.PeerId

The ids of `data/data_peer_id.h`: users, basic groups and channels in one number, told
apart by the byte above the lowest 48 bits.
-/

namespace MessengerClient

@[ext]
structure PeerId where
  value : UInt64 := 0
deriving DecidableEq, Repr

/-- The bare ids of users, basic groups and channels. -/
abbrev UserId : Type := UInt64
abbrev ChatId : Type := UInt64
abbrev ChannelId : Type := UInt64

/-- `ChatIdType<Shift>` as a peer. -/
def PeerId.tagged (shift bare : UInt64) : PeerId := { value := bare ||| (shift <<< 48) }

def peerFromUser (userId : UserId) : PeerId := .tagged 0 userId
def peerFromChat (chatId : ChatId) : PeerId := .tagged 1 chatId
def peerFromChannel (channelId : ChannelId) : PeerId := .tagged 2 channelId

/-- `PeerId::is`. -/
def PeerId.hasTag (shift : UInt64) (id : PeerId) : Bool := (id.value >>> 48) &&& 0xFF == shift

def peerIsUser (id : PeerId) : Bool := id.hasTag 0
def peerIsChat (id : PeerId) : Bool := id.hasTag 1
def peerIsChannel (id : PeerId) : Bool := id.hasTag 2

/-- The bit of the modern serialization, `kReservedBit << 48`. -/
def PeerId.kReserved : UInt64 := (0x80 : UInt64) <<< 48

/-- Both the modern and the legacy serialization. -/
def deserializePeerId (serialized : UInt64) : PeerId :=
  if serialized &&& PeerId.kReserved ≠ 0 then
    { value := serialized &&& ~~~PeerId.kReserved }
  else
    let bare := serialized &&& 0xFFFFFFFF
    let type := serialized &&& 0xF00000000
    if type = 0 then peerFromUser bare
    else if type = 0x100000000 then peerFromChat bare
    else if type = 0x200000000 then peerFromChannel bare
    else if type = 0xF00000000 then .tagged 0x7F bare
    else {}

/-- `none` stands for the failed `Expects`. -/
def serializePeerId (id : PeerId) : Option UInt64 :=
  if id.value &&& PeerId.kReserved = 0 then some (id.value ||| PeerId.kReserved) else none

theorem or_and_not_of_and_eq_zero {v m : UInt64} (h : v &&& m = 0) : (v ||| m) &&& ~~~m = v := by
  have hbits := congrArg UInt64.toBitVec h
  apply UInt64.toBitVec_inj.mp
  apply BitVec.eq_of_getLsbD_eq
  intro i _
  have hbit : (v.toBitVec.getLsbD i && m.toBitVec.getLsbD i) = false := by
    simpa using congrArg (·.getLsbD i) hbits
  simp
  grind

theorem deserializePeerId_serializePeerId {id : PeerId} (h : id.value &&& PeerId.kReserved = 0) :
    ∃ serialized, serializePeerId id = some serialized ∧ deserializePeerId serialized = id := by
  have hmodern : (id.value ||| PeerId.kReserved) &&& PeerId.kReserved ≠ 0 := by
    have habsorb : (id.value ||| PeerId.kReserved) &&& PeerId.kReserved = PeerId.kReserved := by
      apply UInt64.toBitVec_inj.mp
      apply BitVec.eq_of_getLsbD_eq
      intro i _
      simp
      grind
    rw [habsorb]
    decide
  refine ⟨id.value ||| PeerId.kReserved, if_pos h, ?_⟩
  rw [deserializePeerId, if_pos hmodern, or_and_not_of_and_eq_zero h]

end MessengerClient
