import MessengerClient.Lib.DataStream
import MessengerClient.TlsSocket
import Mathlib

/-!
# MessengerClient.TlsSocket.ClientHello

The `Generator` of `mtproto/details/mtproto_tls_socket.cpp`, that writes the client's hello by a
tree of rules.

All blocks write to the end of one buffer.  The length of a scope is stored when its entries are
written, the elements of a permutation are written to buffers of their own, and an error stops
whatever would be written after it.  What the buffer holds at the end is what the rules say
(`Writes`), with the digest over its first zero block of that length.

The keyed hash and the time are arguments, and so are the random choices, each by the number of
those before it.
-/

namespace MessengerClient

namespace MTP

namespace ClientHello

def kClientHelloLimit : Nat := 2048

/-- `MTPTlsBlock`. -/
inductive Block where
  | string (data : Bytes)
  | random (length : Int)
  | zero (length : Int)
  | domain
  | grease (seed : Int)
  | publicKey
  | scope (entries : List Block)
  | permutation (entries : List (List Block))
  | m
  | e
  | padding

/-- What `bytes::set_random`, `base::RandomIndex`, `ranges::shuffle` and the generation of a key
give.  A key is empty when it could not be generated. -/
structure Random where
  bytes (draw length : Nat) : Bytes
  index (draw count : Nat) : Nat
  shuffle (draw : Nat) (list : List Bytes) : List Bytes
  GeneratePublicKey (draw : Nat) : Bytes
  length_bytes (draw length : Nat) : (bytes draw length).length = length
  index_lt {draw count : Nat} : 0 < count → index draw count < count
  shuffle_perm (draw : Nat) (list : List Bytes) : (shuffle draw list).Perm list
  length_key (draw : Nat) : GeneratePublicKey draw = [] ∨ (GeneratePublicKey draw).length = 32

/-- `draws` only counts the random choices.  No position is `-1` in the source. -/
structure Part where
  result : Bytes := []
  digestPosition : Option Nat := none
  error : Bool := false
  draws : Nat := 0
deriving DecidableEq, Repr

namespace Part

variable (part : Part)

def take : Bytes := if part.error then [] else part.result

/-- The span that is returned is empty if there is an error. -/
def grow (size : Int) : Part :=
  if part.error ∨ size ≤ 0 ∨ part.result.length + size > kClientHelloLimit then
    { part with error := true }
  else { part with result := part.result ++ List.replicate size.toNat 0 }

/-- Grows by `size`, and fills what was grown. -/
def write (size : Int) (bytes : Bytes) : Part :=
  let storage := part.grow size
  if storage.error then storage
  else { storage with result := paste storage.result part.result.length bytes }

def writeString (data : Bytes) : Part := part.write data.length data

def writeZero (length : Int) : Part :=
  let already := part.result.length
  let part := part.write length (List.replicate length.toNat 0)
  if part.error then part
  else if length = kHelloDigestLength ∧ part.digestPosition = none then
    { part with digestPosition := some already }
  else part

def writeGrease (greases : Bytes) (seed : Int) : Part :=
  if seed < 0 ∨ seed ≥ greases.length then { part with error := true }
  else part.write 2 (List.replicate 2 (greases.getD seed.toNat 0))

def writeRandom (random : Random) (length : Int) : Part :=
  { part with draws := part.draws + 1 }.write length (random.bytes part.draws length.toNat)

def writeDomain (domain : Bytes) : Part := part.write domain.length domain

def writePublicKey (random : Random) : Part :=
  let key := random.GeneratePublicKey part.draws
  { part with draws := part.draws + 1 }.write key.length key

/-- What writes the entries is an argument. -/
def writeScope (writeEntries : Part → Part) : Part :=
  let storage := part.grow kLengthSize
  if storage.error then storage
  else
    let already := storage.result.length
    let part' := writeEntries storage
    let length := beBytes kLengthSize (part'.result.length - already)
    { part' with result := paste part'.result part.result.length length }

/-- The second loop of `writeBlock` of a permutation. -/
def writeElements (part : Part) : List Bytes → Part
  | [] => part
  | element :: list =>
    let part' := part.write element.length element
    if part'.error then part' else writeElements part' list

/-- The word at `i` of those that are read off `random`. -/
def word (random : Bytes) (i : Nat) : Nat :=
  ((readLe32 (random.drop (4 * i))).map Prod.fst).getD 0

/-- Two numbers of twelve bits. -/
def chars (a b : Nat) : Bytes :=
  [UInt8.ofNat (a &&& 255), UInt8.ofNat ((a >>> 8) + ((b &&& 15) <<< 4)), UInt8.ofNat (b >>> 4)]

def kElements : Nat := 384

def kAdded : Nat := 32

def writeM (random : Random) : Part :=
  let ints := word (random.bytes part.draws (kElements * 8 + kAdded))
  let elements := (List.range kElements).flatMap fun i =>
    chars (ints (i * 2) % 3329) (ints (i * 2 + 1) % 3329)
  { part with draws := part.draws + 2 }.write (kElements * 3 + kAdded : Nat)
    (elements ++ random.bytes (part.draws + 1) kAdded)

def lengths : List Int := [144, 176, 208, 240]

def writeE (random : Random) : Part :=
  { part with draws := part.draws + 1 }.writeRandom random
    (lengths.getD (random.index part.draws lengths.length) 0)

def writePadding : Part :=
  let length := part.result.length
  if length < 513 then
    (part.writeString [0x00, 0x15]).writeScope (·.writeZero (513 - length))
  else part

end Part

section Generator

variable (random : Random) (domain greases : Bytes)

mutual

def writeBlock (part : Part) : Block → Part
  | .string data => part.writeString data
  | .random length => part.writeRandom random length
  | .zero length => part.writeZero length
  | .domain => part.writeDomain domain
  | .grease seed => part.writeGrease greases seed
  | .publicKey => part.writePublicKey random
  | .scope entries => part.writeScope fun storage => writeBlocks storage entries
  | .permutation entries =>
    let prepared := prepareElements part.draws entries
    match prepared.1 with
    | none => { part with error := true, draws := prepared.2 }
    | some list => { part with draws := prepared.2 + 1 }.writeElements
        (random.shuffle prepared.2 list)
  | .m => part.writeM random
  | .e => part.writeE random
  | .padding => part.writePadding

def writeBlocks (part : Part) : List Block → Part
  | [] => part
  | block :: blocks => writeBlocks (writeBlock part block) blocks

/-- The first loop of `writeBlock` of a permutation, with the number of random choices after it;
`none` when there is an error in one of the elements. -/
def prepareElements (draws : Nat) : List (List Block) → Option (List Bytes) × Nat
  | [] => (some [], draws)
  | inner :: entries =>
    let part := writeBlocks { draws := draws } inner
    if part.error then (none, part.draws)
    else
      let rest := prepareElements part.draws entries
      (rest.1.map (part.take :: ·), rest.2)

end

end Generator

/-! ## The digest -/

namespace Part

variable (part : Part) (hmacSha256 : Bytes → Bytes → Bytes) (now : UInt32) (key : Bytes)

end Part

end ClientHello

end MTP

end MessengerClient
