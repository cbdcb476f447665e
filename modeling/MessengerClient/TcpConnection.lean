import MessengerClient.Lib.Bytes
import MessengerClient.Lib.Memory

/-!
# MessengerClient.TcpConnection

How `TcpConnection` reads packets from its socket.  Bytes are read into a small
buffer, several packets at once; a packet that is not there as a whole is waited for,
in a large buffer if it does not fit into the small one.

The cipher of the stream and what the packets make of the connection are arguments
(`Env`).  A failed `Expects`, `Assert` or bounds check of a span is `none`.
-/

namespace MessengerClient

namespace MTP

/-! ## Protocols -/

def kPacketSizeMax : Nat := 0x01000000 * 4

def kSmallBufferSize : Nat := 256 * 1024

def kMinPacketBuffer : Nat := 256

def kErrorCodeOther : Int := -499

inductive Protocol where
  | Version0
  | Version1
  | VersionD
deriving DecidableEq, Repr

namespace Protocol

def kUnknownSize : Int := -1

def kInvalidSize : Int := -2

namespace Version0

def readPacketLength : Bytes → Int
  | [] => kUnknownSize
  | first :: rest =>
    if first = 0x7F then
      match rest with
      | b1 :: b2 :: b3 :: _ =>
        let ints := b1.toNat + 2 ^ 8 * b2.toNat + 2 ^ 16 * b3.toNat
        if ints ≥ 0x7F then ((ints * 4 + 4 : Nat) : Int) else kInvalidSize
      | _ => kUnknownSize
    else if first > 0 ∧ first < 0x7F then
      ((first.toNat * 4 + 1 : Nat) : Int)
    else
      kInvalidSize

/-- The length of the length. -/
def sizeLength (bytes : Bytes) : Nat := if bytes.head? = some 0x7F then 4 else 1

end Version0

namespace VersionD

/-- The length is a `uint32` that may wrap around. -/
def readPacketLength (bytes : Bytes) : Int :=
  match readLe32 bytes with
  | none => kUnknownSize
  | some (raw, _) =>
    let value := (raw + 4) % 2 ^ 32
    if value ≥ 8 ∧ value < kPacketSizeMax then (value : Int) else kInvalidSize

def sizeLength : Nat := 4

end VersionD

/-- `Version1` only has another key. -/
def readPacketLength : Protocol → Bytes → Int
  | Version0, bytes | Version1, bytes => Version0.readPacketLength bytes
  | VersionD, bytes => VersionD.readPacketLength bytes

def sizeLength : Protocol → Bytes → Nat
  | Version0, bytes | Version1, bytes => Version0.sizeLength bytes
  | VersionD, _ => VersionD.sizeLength

def readPacket (p : Protocol) (bytes : Bytes) : Option Bytes :=
  let size := p.readPacketLength bytes
  if size ≠ kUnknownSize ∧ size ≠ kInvalidSize ∧ size ≤ bytes.length then
    some ((bytes.drop (p.sizeLength bytes)).take (size.toNat - p.sizeLength bytes))
  else
    none

end Protocol

/-! ## Connection -/

/-- The cipher of the byte at a position of the stream, and whether the socket is
still connected after the packets passed on so far. -/
structure Env where
  cipher : Nat → UInt8 → UInt8
  keeps : List Bytes → Bool

/-- A part of one of the two buffers. -/
structure Span where
  large : Bool
  start : Nat
  size : Nat
deriving DecidableEq, Repr

/-- `receiveState` is the position of the cipher.  The owner of a connection drops it
when it reports an error, so it is not `connected` then.  `packets` records what was
passed to `socketPacket`, `errors` what was reported. -/
structure TcpConnection where
  protocol : Protocol
  connected : Bool := true
  offsetBytes : Nat := 0
  readBytes : Nat := 0
  leftBytes : Nat := 0
  smallBuffer : Bytes := []
  largeBuffer : Bytes := []
  usingLargeBuffer : Bool := false
  receiveState : Nat := 0
  packets : List Bytes := []
  errors : List Int := []
deriving DecidableEq, Repr

namespace Span

def subspan (s : Span) (offset size : Nat) : Option Span :=
  if offset + size ≤ s.size then some { s with start := s.start + offset, size := size } else none

def dropFront (s : Span) (offset : Nat) : Option Span :=
  if offset ≤ s.size then
    some { s with start := s.start + offset, size := s.size - offset }
  else
    none

end Span

/-- The little-endian words of a packet; a rest that is not a word is left out. -/
def toInts : Bytes → List Nat
  | a :: b :: c :: d :: rest =>
    (a.toNat + 2 ^ 8 * b.toNat + 2 ^ 16 * c.toNat + 2 ^ 24 * d.toNat) :: toInts rest
  | _ => []

/-- `bytes::copy` and `bytes::move` to the start of a buffer. -/
def copyBytes (dest src : Bytes) : Option Bytes :=
  if src.length ≤ dest.length then some (paste dest 0 src) else none

namespace TcpConnection

def buffer (s : TcpConnection) (large : Bool) : Bytes :=
  if large then s.largeBuffer else s.smallBuffer

def load (s : TcpConnection) (span : Span) : Bytes :=
  slice (s.buffer span.large) span.start span.size

def store (s : TcpConnection) (span : Span) (bytes : Bytes) : TcpConnection :=
  if span.large then
    { s with largeBuffer := paste s.largeBuffer span.start bytes }
  else
    { s with smallBuffer := paste s.smallBuffer span.start bytes }

/-- The buffer in use. -/
def whole (s : TcpConnection) : Span :=
  ⟨s.usingLargeBuffer, 0, (s.buffer s.usingLargeBuffer).length⟩

def error (s : TcpConnection) (code : Int) : TcpConnection :=
  { s with errors := s.errors ++ [code], connected := false }

/-- `aesCtrEncrypt`, from the position the cipher has come to. -/
def aesCtrEncrypt (cipher : Nat → UInt8 → UInt8) (data : Bytes) (state : Nat) : Bytes :=
  data.mapIdx fun i b => cipher (state + i) b

def ensureAvailableInBuffer (s : TcpConnection) (amount : Nat) : Option TcpConnection := do
  let full ← s.whole.dropFront s.offsetBytes
  if full.size ≥ amount then
    return s
  let read ← full.subspan 0 s.readBytes
  if amount ≤ s.smallBuffer.length then
    let small ← copyBytes s.smallBuffer (s.load read)
    if s.usingLargeBuffer then
      return { s with
        smallBuffer := small, usingLargeBuffer := false, largeBuffer := [], offsetBytes := 0 }
    else
      return { s with smallBuffer := small, offsetBytes := 0 }
  else if amount ≤ s.largeBuffer.length then
    if !s.usingLargeBuffer then
      failure
    let large ← copyBytes s.largeBuffer (s.load read)
    return { s with largeBuffer := large, offsetBytes := 0 }
  else
    let enough ← copyBytes (List.replicate amount 0) (s.load read)
    return { s with largeBuffer := enough, usingLargeBuffer := true, offsetBytes := 0 }

/-- A packet of one or two words is an error code or nothing. -/
def parsePacket (p : Protocol) (bytes : Bytes) : Option (List Nat) := do
  let packet ← p.readPacket bytes
  match toInts packet with
  | [] => none
  | [a] | [a, _] => some [a]
  | ints => some ints

def socketPacket (env : Env) (s : TcpConnection) (bytes : Bytes) : Option TcpConnection :=
  if s.connected then
    (parsePacket s.protocol bytes).map fun _ =>
      { s with packets := s.packets ++ [bytes], connected := env.keeps (s.packets ++ [bytes]) }
  else
    none

/-- The loop over the packets read; `fuel` bounds how many there can be. -/
def readPackets (env : Env) : Nat → TcpConnection → Span → Option TcpConnection
  | 0, s, _ => if s.readBytes > 0 then none else some s
  | fuel + 1, s, available =>
    if s.readBytes > 0 then
      let packetSize := s.protocol.readPacketLength (s.load available)
      if packetSize = Protocol.kUnknownSize then
        some s
      else if packetSize ≤ 0 then
        some (s.error kErrorCodeOther)
      else if (available.size : Int) ≥ packetSize then do
        let packet ← available.subspan 0 packetSize.toNat
        let s ← s.socketPacket env (s.load packet)
        if !s.connected then
          return s
        let available ← available.dropFront packetSize.toNat
        let s ← { s with
          offsetBytes := s.offsetBytes + packetSize.toNat
          readBytes := s.readBytes - packetSize.toNat }.ensureAvailableInBuffer kMinPacketBuffer
        readPackets env fuel s available
      else
        { s with leftBytes := packetSize.toNat - available.size }.ensureAvailableInBuffer
          packetSize.toNat
    else
      some s

def readLimit (s : TcpConnection) : Int :=
  if s.leftBytes > 0 then s.leftBytes else kSmallBufferSize - s.offsetBytes - s.readBytes

/-- The bytes read are decrypted at their place. -/
def received (env : Env) (s : TcpConnection) (read : Span) (bytes : Bytes) : TcpConnection :=
  { s.store read (aesCtrEncrypt env.cipher bytes s.receiveState) with
    receiveState := s.receiveState + bytes.length
    readBytes := s.readBytes + bytes.length }

/-- What a turn of the loop makes of `readCount` bytes read. -/
def afterRead (env : Env) (s : TcpConnection) (full : Span) (readCount : Nat) :
    Option TcpConnection :=
  if s.leftBytes > 0 then
    if readCount > s.leftBytes then
      none
    else if s.leftBytes - readCount = 0 then do
      let packet ← full.subspan 0 s.readBytes
      let s ← { s with leftBytes := 0 }.socketPacket env (s.load packet)
      if !s.connected then
        return s
      return { s with usingLargeBuffer := false, largeBuffer := [], offsetBytes := 0, readBytes := 0 }
    else
      some { s with leftBytes := s.leftBytes - readCount }
  else do
    let available ← full.subspan 0 s.readBytes
    s.readPackets env s.readBytes available

/-- One turn of the loop of `socketRead`, in which the socket gives `bytes`. -/
def readOnce (env : Env) (s : TcpConnection) (bytes : Bytes) : Option TcpConnection :=
  if s.readLimit ≤ 0 then
    none
  else do
    let full ← s.whole.dropFront s.offsetBytes
    let free ← full.dropFront s.readBytes
    let _ ← free.subspan 0 s.readLimit.toNat
    if bytes.isEmpty then
      return s
    else
      let read ← free.subspan 0 bytes.length
      (s.received env read bytes).afterRead env full bytes.length

/-- The loop of `socketRead`, over what the socket gives until it has no more. -/
def readAll (env : Env) (s : TcpConnection) : List Bytes → Option TcpConnection
  | [] => some s
  | bytes :: rest =>
    match s.readOnce env bytes with
    | none => none
    | some s => if s.connected && !bytes.isEmpty then s.readAll env rest else some s

/-- The small buffer is there from the first `socketRead` on. -/
def resizeSmall (s : TcpConnection) : TcpConnection :=
  { s with smallBuffer :=
      if s.smallBuffer.isEmpty then List.replicate kSmallBufferSize 0 else s.smallBuffer }

def socketRead (env : Env) (s : TcpConnection) (reads : List Bytes) : Option TcpConnection :=
  if s.leftBytes > 0 ∨ !s.usingLargeBuffer then
    if !s.connected then
      some (s.error kErrorCodeOther)
    else
      s.resizeSmall.readAll env reads
  else
    none

/-- What the socket gives at each `readyRead`; there is none after the connection was
dropped. -/
def run (env : Env) (s : TcpConnection) : List (List Bytes) → Option TcpConnection
  | [] => some s
  | reads :: rest =>
    if s.connected then
      match s.socketRead env reads with
      | none => none
      | some s => s.run env rest
    else
      some s

end TcpConnection

end MTP

end MessengerClient
