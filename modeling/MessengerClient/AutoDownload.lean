import Mathlib
import MessengerClient.Lib.DataStream
import MessengerClient.Lib.FlatMap
import MessengerClient.PeerId

/-!
# MessengerClient.AutoDownload

The automatic download limits of `data/data_auto_download.cpp`: a limit for every source
and type of media, exceptions for single peers, and the byte format they are kept in.

A limit is in range by its type, so the raised limits of the first version need no check.
The reader looks at the status of the stream after the version and in the part of the
exceptions, but not after the limits: those of a truncated input are zero.
-/

namespace MessengerClient

namespace Data

namespace AutoDownload

/-! ## Limits -/

def kMaxBytesLimit : Nat := 8000 * (512 * 1024)

/-- A number of bytes that may be set as a limit. -/
abbrev Limit : Type := { n : Nat // n ≤ kMaxBytesLimit }

def kDefaultMaxSize : Limit := ⟨8 * (1024 * 1024), by decide⟩
def kDefaultAutoPlaySize : Limit := ⟨50 * (1024 * 1024), by decide⟩

inductive Source where
  | User | Group | Channel
deriving DecidableEq, Repr

/-- The types of media, in the order of their numbers. -/
inductive Type_ where
  | Photo | AutoPlayVideo | VoiceMessage | AutoPlayVideoMessage | Music | AutoPlayGIF | File
deriving DecidableEq, Repr

def sources : List Source := [.User, .Group, .Channel]

def types : List Type_ :=
  [.Photo, .AutoPlayVideo, .VoiceMessage, .AutoPlayVideoMessage, .Music, .AutoPlayGIF, .File]

def kAutoPlayTypes : List Type_ := [.AutoPlayVideo, .AutoPlayVideoMessage, .AutoPlayGIF]

/-- The numbers that `Single` takes: no value, or a limit. -/
def ValidLimit (serialized : Int32) : Prop :=
  serialized = -1 ∨ serialized.toUInt32.toNat ≤ kMaxBytesLimit

instance (serialized : Int32) : Decidable (ValidLimit serialized) :=
  inferInstanceAs (Decidable (_ ∨ _))

/-- A limit, or no value, which is -1. -/
@[ext]
structure Single where
  limit : Int32
  valid : ValidLimit limit
deriving DecidableEq

namespace Single

def hasValue (single : Single) : Bool := single.limit != -1

theorem toNat_ofNat_limit (bytesLimit : Limit) :
    (UInt32.ofNat bytesLimit.1).toNat = bytesLimit.1 :=
  UInt32.toNat_ofNat_of_lt' (Nat.lt_of_le_of_lt bytesLimit.2 (by decide))

def ofLimit (bytesLimit : Limit) : Single where
  limit := (UInt32.ofNat bytesLimit.1).toInt32
  valid := Or.inr ((toNat_ofNat_limit bytesLimit).le.trans bytesLimit.2)

/-- The limit of a single that has a value, as its `Expects` asks for. -/
def bytesLimit (single : Single) (h : single.hasValue = true) : Limit :=
  ⟨single.limit.toUInt32.toNat, single.valid.resolve_left (bne_iff_ne.mp h)⟩

def serialize (single : Single) : Int32 := single.limit

def setFromSerialized (serialized : Int32) : Option Single :=
  if h : ValidLimit serialized then some { limit := serialized, valid := h } else none

end Single

abbrev Set : Type := Type_ → Single

/-! ## All settings -/

inductive Override where
  | Default | ForceAllow | ForceDeny
deriving DecidableEq, Repr

def Override.code : Override → UInt8
  | .Default => 0
  | .ForceAllow => 1
  | .ForceDeny => 2

def Override.ofCode (code : UInt8) : Override :=
  if code = Override.ForceAllow.code then .ForceAllow
  else if code = Override.ForceDeny.code then .ForceDeny
  else .Default

/-- Peers are ordered by their values. -/
@[reducible] def peerOrder : LinearOrder PeerId :=
  LinearOrder.lift' (fun id => id.value.toNat) fun _ _ h => PeerId.ext (UInt64.toNat_inj.mp h)

attribute [local instance] peerOrder

/-- No default is stored for a peer. -/
@[ext]
structure Full where
  data : Source → Set
  peerOverrides : FlatMap PeerId Override
  stored : ∀ e ∈ peerOverrides.entries, e.2 ≠ .Default

namespace Full

/-- `Full()`: no limit has a value. -/
def new : Full where
  data _ _ := { limit := -1, valid := Or.inl rfl }
  peerOverrides := ∅
  stored _ h := absurd h List.not_mem_nil

def setSingle (full : Full) (source : Source) (type : Type_) (single : Single) : Full :=
  { full with
    data := Function.update full.data source (Function.update (full.data source) type single) }

def setBytesLimit (full : Full) (source : Source) (type : Type_) (bytesLimit : Limit) : Full :=
  full.setSingle source type (.ofLimit bytesLimit)

def fullDisabled : Full :=
  sources.foldl (fun full source =>
    types.foldl (fun full type => full.setBytesLimit source type ⟨0, Nat.zero_le _⟩) full) .new

def setDefaultsForSource (data : Full) (source : Source) : Full :=
  let channelsFileLimit : Limit :=
    if source = .Channel then ⟨0, Nat.zero_le _⟩ else kDefaultMaxSize
  let data := data.setBytesLimit source .Photo kDefaultMaxSize
  let data := data.setBytesLimit source .VoiceMessage kDefaultMaxSize
  let data := data.setBytesLimit source .AutoPlayVideoMessage kDefaultAutoPlaySize
  let data := data.setBytesLimit source .AutoPlayGIF kDefaultAutoPlaySize
  let data := data.setBytesLimit source .File channelsFileLimit
  let data := data.setBytesLimit source .AutoPlayVideo kDefaultAutoPlaySize
  data.setBytesLimit source .Music channelsFileLimit

def defaults : Full := sources.foldl setDefaultsForSource fullDisabled

theorem hasValue_defaults (source : Source) (type : Type_) :
    (defaults.data source type).hasValue = true := by
  cases source <;> cases type <;> decide

/-- The set of a source, or the default one, with a value for the type. -/
def setOrDefault (full : Full) (source : Source) (type : Type_) :
    { set : Set // (set type).hasValue = true } :=
  if h : (full.data source type).hasValue = true then ⟨full.data source, h⟩
  else ⟨defaults.data source, hasValue_defaults source type⟩

def bytesLimit (full : Full) (source : Source) (type : Type_) : Limit :=
  let set := full.setOrDefault source type
  (set.1 type).bytesLimit set.2

def setPeerOverride (full : Full) (peerId : PeerId) (value : Override) : Full :=
  if h : value = .Default then
    { full with
      peerOverrides := full.peerOverrides.erase peerId
      stored := fun e he => full.stored e (List.mem_filter.mp he).1 }
  else
    { full with
      peerOverrides := full.peerOverrides.insert peerId value
      stored := by
        rintro ⟨k, v⟩ he
        rw [FlatMap.mem_entries_iff, FlatMap.find?_insert] at he
        split at he
        · exact Option.some.inj he ▸ h
        · exact full.stored _ (FlatMap.mem_entries_iff.mpr he) }

end Full

/-! ## Writing -/

def kVersion1 : UInt8 := 1
def kVersion2 : UInt8 := 2
def kVersion : UInt8 := 3

/-- The limits in the order of the format. -/
def slots : List (Source × Type_) := sources.flatMap fun source => types.map (source, ·)

def putOverride (entry : PeerId × Override) : Option Bytes :=
  (serializePeerId entry.1).map fun id => putUInt64 id ++ putUInt8 entry.2.code

namespace Full

/-- `none` stands for the failed `Expects` of a peer id. -/
def serialize (full : Full) : Option Bytes :=
  (full.peerOverrides.entries.mapM putOverride).map fun overrides =>
    putUInt8 kVersion ++
      (slots.flatMap fun slot => putInt32 (full.data slot.1 slot.2).serialize) ++
      putInt32 (Int32.ofNat full.peerOverrides.size) ++ overrides.flatten

/-! ## Reading -/

/-- The limits one after another, up to the first that is refused. -/
def readLimits : List (Source × Type_) → Full → Get (Option Full)
  | [], temp => pure (some temp)
  | (source, type) :: slots, temp => do
      let value ← Get.int32
      match Single.setFromSerialized value with
      | none => return none
      | some single => readLimits slots (temp.setSingle source type single)

/-- The limits of the first version, which had no larger ones for what is played. -/
def raised (full : Full) : Full :=
  sources.foldl (fun full source =>
    kAutoPlayTypes.foldl (fun full type =>
      full.setBytesLimit source type (max (full.bytesLimit source type) kDefaultAutoPlaySize))
      full) full

/-- One slot of `raised`. -/
def raiseSlot (full : Full) (slot : Source × Type_) : Full :=
  full.setBytesLimit slot.1 slot.2 (max (full.bytesLimit slot.1 slot.2) kDefaultAutoPlaySize)

def readOverride : Get (Option (PeerId × UInt8)) :=
  Get.checked do
    let serializedPeerId ← Get.uint64
    let rawOverride ← Get.uint8
    return some (deserializePeerId serializedPeerId, rawOverride)

def applyOverride (temp : Full) (read : PeerId × UInt8) : Full :=
  let value := Override.ofCode read.2
  if value ≠ .Default then temp.setPeerOverride read.1 value else temp

/-- The part of the exceptions, which may be missing. -/
def readOverrides (temp : Full) : Get (Option Full) := do
  let count ← Get.int32
  let ok ← Get.status
  if !ok || count < 0 then
    return none
  else
    let (temp, done) ← Get.repeated readOverride applyOverride count.toInt.toNat temp
    return if done then some temp else none

def load : Get (Option Full) := do
  let version ← Get.uint8
  let ok ← Get.status
  if !ok then
    return none
  else if version ≠ kVersion ∧ version ≠ kVersion2 ∧ version ≠ kVersion1 then
    return none
  else
    match ← readLimits slots .new with
    | none => return none
    | some temp =>
        let temp := if version = kVersion1 then temp.raised else temp
        let atEnd ← Get.atEnd
        if version ≥ kVersion && !atEnd then
          readOverrides temp
        else
          return some temp

/-- The settings after the call, and whether they were taken. -/
def setFromSerialized (target : Full) (serialized : Bytes) : Full × Bool :=
  if serialized.isEmpty then
    (target, false)
  else
    match load.run serialized with
    | none => (target, false)
    | some temp => (temp, true)

end Full

end AutoDownload

end Data

end MessengerClient
