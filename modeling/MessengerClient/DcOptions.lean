import MessengerClient.Lib.DataStream
import MessengerClient.Lib.FlatMap

/-!
# MessengerClient.DcOptions

The endpoints of the datacenters and the keys of the CDN ones, as
`mtproto_dc_options.cpp` keeps them, and how they are saved and loaded.

RSA keys are a parameter (`RSAPublicKey`).  The built-in keys and the set of CDN dcs are
left out: neither is saved, and the set is computed from the endpoints.
-/

namespace MessengerClient

namespace MTP

/-! ## Datacenters -/

/-- An `int32`, in its order. -/
abbrev DcId : Type := { i : Int // -2 ^ 31 ≤ i ∧ i < 2 ^ 31 }

namespace DcId

def ofInt32 (x : Int32) : DcId := ⟨x.toInt, x.le_toInt, x.toInt_lt⟩

def toInt32 (dcId : DcId) : Int32 := Int32.ofInt dcId.1

@[simp] theorem ofInt32_toInt32 (dcId : DcId) : ofInt32 dcId.toInt32 = dcId :=
  Subtype.ext (Int32.toInt_ofInt_of_le dcId.2.1 dcId.2.2)

end DcId

def kDcShift : Int := 10000
def kTemporaryMainDc : Int := 1000

def bareDcId (shiftedDcId : DcId) : Int := shiftedDcId.1.tmod kDcShift

def isTemporaryDcId (shiftedDcId : DcId) : Bool := kTemporaryMainDc ≤ bareDcId shiftedDcId

/-- The bits of `MTPDdcOption::Flag` that are used here. -/
def Flag.ipv6 : Int32 := 1
def Flag.static : Int32 := 16

structure Endpoint where
  id : DcId
  flags : Int32
  ip : QByteArray
  port : Int32
  secret : QByteArray
deriving DecidableEq, Repr

/-- Endpoints at one address. -/
def Endpoint.sameAddress (a b : Endpoint) : Bool := a.ip == b.ip && a.port == b.port

/-- `DcOptions::ValidateSecret`. -/
def validateSecret (secret : Bytes) : Bool :=
  (21 ≤ secret.length && secret.head? == some 0xEE)
    || (secret.length == 17 && secret.head? == some 0xDD)
    || secret.length == 16
    || secret.isEmpty

/-- The endpoints of each dc, in the order they were added: its own ones, no two at one
address. -/
@[ext]
structure Options where
  map : FlatMap DcId (List Endpoint) := ∅
  ne_nil : ∀ dcId list, map.find? dcId = some list → list ≠ [] := by simp
  own : ∀ dcId list, map.find? dcId = some list → ∀ e ∈ list, e.id = dcId := by simp
  distinct : ∀ dcId list, map.find? dcId = some list →
    list.Pairwise fun a b => ¬ a.sameAddress b := by simp

namespace Options

/-- The list of a dc with one more endpoint. -/
def put (data : Options) (e : Endpoint) (list : List Endpoint)
    (hlist : data.map.find? e.id = some list ∨ list = [])
    (hnew : ∀ a ∈ list, ¬ a.sameAddress e) : Options where
  map := data.map.insert e.id (list ++ [e])
  ne_nil := by
    intro dcId l h
    rw [FlatMap.find?_insert] at h
    split at h
    · cases h
      simp
    · exact data.ne_nil dcId l h
  own := by
    intro dcId l h
    rw [FlatMap.find?_insert] at h
    split at h
    · next hid =>
        cases h
        intro a ha
        rw [List.mem_append, List.mem_singleton] at ha
        cases ha with
        | inr heq => rw [heq, hid]
        | inl hold =>
            cases hlist with
            | inl hfind => rw [hid]; exact data.own _ _ hfind a hold
            | inr hnil => rw [hnil] at hold; cases hold
    · exact data.own dcId l h
  distinct := by
    intro dcId l h
    rw [FlatMap.find?_insert] at h
    split at h
    · cases h
      refine List.pairwise_append.mpr ⟨?_, List.pairwise_singleton _ _, ?_⟩
      · cases hlist with
        | inl hfind => exact data.distinct _ _ hfind
        | inr hnil => rw [hnil]; exact List.Pairwise.nil
      · intro a ha b hb
        rw [List.mem_singleton.mp hb]
        exact hnew a ha
    · exact data.distinct dcId l h

/-- `ApplyOneOption`, and whether the endpoint was new. -/
def applyOneOption (data : Options) (e : Endpoint) : Options × Bool :=
  match h : data.map.find? e.id with
  | some list =>
      if hany : list.any (·.sameAddress e) then
        (data, false)
      else
        (data.put e list (Or.inl h) (by simpa using hany), true)
  | none => (data.put e [] (Or.inr rfl) (by simp), true)

/-- The endpoints of a dc. -/
def endpoints (data : Options) (dcId : DcId) : List Endpoint := (data.map.find? dcId).getD []

end Options

/-! ## Keys of the CDN dcs -/

abbrev Fingerprint : Type := Fin (2 ^ 64)

/-- What is used of `RSAPublicKey`: the valid keys, and what gives none. -/
structure RSA (Key : Type) where
  fingerprint : Key → Fingerprint
  getN : Key → QByteArray
  getE : Key → QByteArray
  ofParts : QByteArray → QByteArray → Option Key
  ofText : QByteArray → Option Key

/-- A key is made again of the parts it gives. -/
def RSA.Lawful {Key : Type} (rsa : RSA Key) : Prop :=
  ∀ key, rsa.ofParts (rsa.getN key) (rsa.getE key) = some key

variable {Key : Type} {rsa : RSA Key}

/-- The keys of each CDN dc, under their fingerprints. -/
structure CdnKeys (rsa : RSA Key) where
  map : FlatMap DcId (FlatMap Fingerprint Key) := ∅
  ne_empty : ∀ dcId keys, map.find? dcId = some keys → keys ≠ ∅ := by simp
  own : ∀ dcId keys, map.find? dcId = some keys →
    ∀ f key, keys.find? f = some key → rsa.fingerprint key = f := by simp

namespace CdnKeys

/-- The keys of a dc. -/
def keys (c : CdnKeys rsa) (dcId : DcId) : FlatMap Fingerprint Key := (c.map.find? dcId).getD ∅

theorem own_keys (c : CdnKeys rsa) {dcId : DcId} {f : Fingerprint} {key : Key}
    (h : (c.keys dcId).find? f = some key) : rsa.fingerprint key = f := by
  unfold keys at h
  cases hfind : c.map.find? dcId with
  | none => rw [hfind] at h; simp at h
  | some keys => rw [hfind] at h; exact c.own _ _ hfind _ _ h

/-- `_cdnPublicKeys[dcId].emplace(key.fingerprint(), key)`. -/
def emplace (c : CdnKeys rsa) (dcId : DcId) (key : Key) : CdnKeys rsa where
  map := c.map.insert dcId ((c.keys dcId).emplace (rsa.fingerprint key) key)
  ne_empty := by
    intro k keys h
    rw [FlatMap.find?_insert] at h
    split at h
    · cases h
      exact FlatMap.emplace_ne_empty _ _ _
    · exact c.ne_empty _ _ h
  own := by
    intro k keys h f key' hkey
    rw [FlatMap.find?_insert] at h
    split at h
    · cases h
      rw [FlatMap.find?_emplace] at hkey
      split at hkey
      · next hf =>
          cases hold : (c.keys dcId).find? (rsa.fingerprint key) with
          | none =>
              rw [hold] at hkey
              cases hkey
              exact hf.symm
          | some old =>
              rw [hold] at hkey
              cases hkey
              rw [hf]
              exact c.own_keys hold
      · exact c.own_keys hkey
    · exact c.own _ _ h _ _ hkey

def emplaceAll (c : CdnKeys rsa) (list : List (DcId × Key)) : CdnKeys rsa :=
  list.foldl (fun c item => c.emplace item.1 item.2) c

/-- All the keys, with their dcs. -/
def list (c : CdnKeys rsa) : List (DcId × Key) :=
  c.map.entries.flatMap fun item => item.2.entries.map fun entry => (item.1, entry.2)

end CdnKeys

/-! ## The options -/

inductive Environment
  | Production
  | Test
deriving DecidableEq, Repr

structure DcOptions (rsa : RSA Key) where
  environment : Environment
  data : Options := {}
  cdnPublicKeys : CdnKeys rsa := {}
  /-- The options were loaded from a file that overrides them. -/
  immutable : Bool := false

structure BuiltInDc where
  id : Int32
  ip : String
  port : Int32

def kBuiltInDcs : List BuiltInDc :=
  [ ⟨1, "149.154.175.50", 443⟩,
    ⟨2, "149.154.167.51", 443⟩,
    ⟨2, "95.161.76.100", 443⟩,
    ⟨3, "149.154.175.100", 443⟩,
    ⟨4, "149.154.167.91", 443⟩,
    ⟨5, "149.154.171.5", 443⟩ ]

def kBuiltInDcsIPv6 : List BuiltInDc :=
  [ ⟨1, "2001:0b28:f23d:f001:0000:0000:0000:000a", 443⟩,
    ⟨2, "2001:067c:04e8:f002:0000:0000:0000:000a", 443⟩,
    ⟨3, "2001:0b28:f23d:f003:0000:0000:0000:000a", 443⟩,
    ⟨4, "2001:067c:04e8:f004:0000:0000:0000:000a", 443⟩,
    ⟨5, "2001:0b28:f23f:f005:0000:0000:0000:000a", 443⟩ ]

def kBuiltInDcsTest : List BuiltInDc :=
  [ ⟨1, "149.154.175.10", 443⟩,
    ⟨2, "149.154.167.40", 443⟩,
    ⟨3, "149.154.175.117", 443⟩ ]

def kBuiltInDcsIPv6Test : List BuiltInDc :=
  [ ⟨1, "2001:0b28:f23d:f001:0000:0000:0000:000e", 443⟩,
    ⟨2, "2001:067c:04e8:f002:0000:0000:0000:000e", 443⟩,
    ⟨3, "2001:0b28:f23d:f003:0000:0000:0000:000e", 443⟩ ]

def BuiltInDc.endpoint (flags : Int32) (entry : BuiltInDc) : Endpoint where
  id := DcId.ofInt32 entry.id
  flags := flags
  ip := QByteArray.ofBytes (entry.ip.toList.map fun c => UInt8.ofNat c.toNat)
  port := entry.port
  secret := {}

/-- An option of a `config`, when it is of the known type. -/
inductive MTPDcOption
  | dcOption (flags : Int32) (id : Int32) (ipAddress : QByteArray) (port : Int32)
      (secret : Option QByteArray)
  | wrongType

/-- A key of a `cdnConfig`. -/
structure MTPCdnPublicKey where
  dcId : Int32
  publicKey : QByteArray

namespace Options

def applyAll (data : Options) (list : List Endpoint) : Options :=
  list.foldl (fun data e => (data.applyOneOption e).1) data

def applyOption (data : Options) : MTPDcOption → Options
  | .dcOption flags id ipAddress port secret =>
      (data.applyOneOption ⟨DcId.ofInt32 id, flags, ipAddress, port, secret.getD {}⟩).1
  | .wrongType => data

/-- The same addresses, as far as the code looks. -/
def equal (m n : List Endpoint) : Bool :=
  m.length == n.length && m.all fun e => n.any (·.sameAddress e)

/-- `CountOptionsDifference`.  A list that ended stands at the largest id; where the other
one is at that id too, the code reads past the end of the first (`none`). -/
def countDifference :
    List (DcId × List Endpoint) → List (DcId × List Endpoint) → Option (List DcId)
  | [], [] => some []
  | a :: as, [] =>
      if a.1.1 < 2 ^ 31 - 1 then (countDifference as []).map (a.1 :: ·) else none
  | [], b :: bs =>
      if b.1.1 < 2 ^ 31 - 1 then (countDifference [] bs).map (b.1 :: ·) else none
  | a :: as, b :: bs =>
      if a.1.1 < b.1.1 then (countDifference as (b :: bs)).map (a.1 :: ·)
      else if b.1.1 < a.1.1 then (countDifference (a :: as) bs).map (b.1 :: ·)
      else if equal a.2 b.2 then countDifference as bs
      else (countDifference as bs).map (a.1 :: ·)
termination_by as bs => as.length + bs.length

end Options

namespace DcOptions

def isTestMode (s : DcOptions rsa) : Bool := s.environment != Environment.Production

def constructFromBuiltIn (s : DcOptions rsa) : DcOptions rsa :=
  let list := if s.isTestMode then kBuiltInDcsTest else kBuiltInDcs
  let listv6 := if s.isTestMode then kBuiltInDcsIPv6Test else kBuiltInDcsIPv6
  { s with
    data := (Options.applyAll {} (list.map (BuiltInDc.endpoint Flag.static))).applyAll
      (listv6.map (BuiltInDc.endpoint (Flag.static ||| Flag.ipv6))) }

/-- The constructor. -/
def construct (rsa : RSA Key) (environment : Environment) : DcOptions rsa :=
  constructFromBuiltIn { environment := environment }

/-- The new options and the dcs that are said to have changed. -/
def processFromList (s : DcOptions rsa) (options : List MTPDcOption) (overwrite : Bool) :
    Option (DcOptions rsa × List DcId) :=
  if options.isEmpty || s.immutable then
    some (s, [])
  else
    let data := options.foldl Options.applyOption (if overwrite then {} else s.data)
    (Options.countDifference s.data.map.entries data.map.entries).map fun result =>
      (if result.isEmpty then s else { s with data := data }, result)

def setFromList (s : DcOptions rsa) (options : List MTPDcOption) :
    Option (DcOptions rsa × List DcId) := s.processFromList options true

def addFromList (s : DcOptions rsa) (options : List MTPDcOption) :
    Option (DcOptions rsa × List DcId) := s.processFromList options false

/-- The endpoints of one dc, and whether one of them was new. -/
def applyList (data : Options) (list : List Endpoint) : Options × Bool :=
  list.foldl (fun r e => ((r.1.applyOneOption e).1, r.2 || (r.1.applyOneOption e).2)) (data, false)

/-- Takes the options of another object, which is dropped afterwards. -/
def addFromOther (s options : DcOptions rsa) : DcOptions rsa × List DcId :=
  if s.immutable then
    (s, [])
  else if options.data.map.entries.isEmpty then
    (s, [])
  else
    let r := options.data.map.entries.foldl (fun r item =>
      ((applyList r.1 item.2).1,
        if (applyList r.1 item.2).2 then r.2 ++ [item.1] else r.2)) (s.data, [])
    ({ s with
        data := r.1
        cdnPublicKeys := s.cdnPublicKeys.emplaceAll options.cdnPublicKeys.list }, r.2)

def setCDNConfig (s : DcOptions rsa) (config : List MTPCdnPublicKey) : DcOptions rsa :=
  { s with
    cdnPublicKeys := config.foldl (fun c data =>
      match rsa.ofText data.publicKey with
      | some key => c.emplace (DcId.ofInt32 data.dcId) key
      | none => c) {} }

/-! ## Saving -/

def kVersion : Int32 := 2

def putEndpoint (e : Endpoint) : Bytes :=
  putInt32 e.id.toInt32 ++ (putInt32 e.flags ++ (putInt32 e.port ++
    ((putInt32 (Int32.ofNat e.ip.bytes.length) ++ e.ip.bytes) ++
      (putInt32 (Int32.ofNat e.secret.bytes.length) ++ e.secret.bytes))))

/-- `Serialize::bytes`: an empty array is written as a null one. -/
def putBytes (b : QByteArray) : Bytes :=
  if b.bytes.isEmpty then putUInt32 0xFFFFFFFF else putByteArray b

def putKey (rsa : RSA Key) (key : DcId × Key) : Bytes :=
  putInt32 key.1.toInt32 ++ (putBytes (rsa.getN key.2) ++ putBytes (rsa.getE key.2))

/-- The endpoints that are saved. -/
def saved (s : DcOptions rsa) : List Endpoint :=
  s.data.map.entries.flatMap fun item => if isTemporaryDcId item.1 then [] else item.2

def write (s : DcOptions rsa) : Bytes :=
  putInt32 (-kVersion) ++ (putInt32 (Int32.ofNat s.saved.length) ++
    (s.saved.flatMap putEndpoint ++ (putInt32 (Int32.ofNat s.cdnPublicKeys.list.length) ++
      s.cdnPublicKeys.list.flatMap (putKey rsa))))

/-- Overriding options are not written to the settings. -/
def serialize (s : DcOptions rsa) : Bytes :=
  if s.immutable then (construct rsa s.environment).write else s.write

/-! ## Loading -/

def kMaxIpSize : Int := 45
def kMaxSecretSize : Int := 32

/-- A counted array of `least` to `most` bytes. -/
def readData (least most : Int) : Get (Option QByteArray) := do
  let size ← Get.int32
  if least ≤ size.toInt ∧ size.toInt ≤ most then
    some <$> Get.rawData size.toInt.toNat
  else
    return none

def readOption (version : Int) : Get (Option Endpoint) := do
  let id ← Get.int32
  let flags ← Get.int32
  let port ← Get.int32
  match ← readData 1 kMaxIpSize with
  | none => return none
  | some ip =>
      match ← Get.gated (0 < version) (readData 0 kMaxSecretSize) (some {}) with
      | none => return none
      | some secret =>
          (Pure.pure (some ⟨DcId.ofInt32 id, flags, ip, port, secret⟩) : Get _).checked

def readKey (rsa : RSA Key) : Get (Option (DcId × Key)) := do
  let dcId ← Get.int32
  let n ← Get.byteArray
  let e ← Get.byteArray
  (Pure.pure ((rsa.ofParts n e).map fun key => (DcId.ofInt32 dcId, key)) : Get _).checked

def readCdnConfig (s : DcOptions rsa) : Get (DcOptions rsa × Bool) := do
  let count ← Get.int32
  if ← Get.status then
    let r ← Get.repeated (readKey rsa) (fun c item => c.emplace item.1 item.2)
      count.toUInt32.toNat s.cdnPublicKeys
    return ({ s with cdnPublicKeys := r.1 }, r.2)
  else
    return (s, false)

/-- The counter runs up to `count`, a negative one being as far as it can get. -/
def load (s : DcOptions rsa) : Get (DcOptions rsa × Bool) := do
  let minusVersion ← Get.int32
  let version := if minusVersion.toInt < 0 then -minusVersion.toInt else 0
  let count ← Get.gated (0 < version) Get.int32 minusVersion
  if ← Get.status then
    let r ← Get.repeated (readOption version) (fun data e => (data.applyOneOption e).1)
      count.toUInt32.toNat {}
    if r.2 then
      if !(← Get.atEnd) && 1 < version then
        readCdnConfig { s with data := r.1 }
      else
        return ({ s with data := r.1 }, true)
    else
      return ({ s with data := r.1 }, false)
  else
    return (s, false)

def constructFromSerialized (s : DcOptions rsa) (serialized : Bytes) : DcOptions rsa × Bool :=
  s.load.run serialized

end DcOptions

end MTP

end MessengerClient
