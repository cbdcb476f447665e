import MessengerClient.Lib.Bytes
import MessengerClient.Lib.Memory

/-!
# MessengerClient.TlsSocket

The receiving side of `TlsSocket`: the server's hello is checked in stages as its
bytes come, then the payloads of the records that follow are handed out by `read`.

The message authentication code is an argument.  A failed `Expects` or bounds check of
a span is `none`.
-/

namespace MessengerClient

namespace MTP

def kHelloDigestLength : Nat := 32

def kLengthSize : Nat := 2

def kMaxServerHelloLength : Nat := 65536

def kServerHelloPart1 : Bytes := [0x16, 0x03, 0x03]

def kServerHelloPart3 : Bytes := [0x14, 0x03, 0x03, 0x00, 0x01, 0x01, 0x17, 0x03, 0x03]

def kServerHelloDigestPosition : Nat := 11

def kServerHeader : Bytes := [0x17, 0x03, 0x03]

/-! ## Spans -/

def subspan (data : Bytes) (offset size : Nat) : Option Bytes :=
  if offset + size ≤ data.length then some (slice data offset size) else none

def subspanFrom (data : Bytes) (offset : Nat) : Option Bytes :=
  if offset ≤ data.length then some (data.drop offset) else none

def CheckPart (data check : Bytes) : Bool :=
  if data.length < check.length then false else data.take check.length == check

/-- The big-endian word at `offset`. -/
def partLength (data : Bytes) (offset : Nat) : Nat :=
  2 ^ 8 * (data.getD offset 0).toNat + (data.getD (offset + 1) 0).toNat

def ReadPartLength (data : Bytes) (offset : Nat) : Option Nat :=
  (subspan data offset kLengthSize).map fun storage => partLength storage 0

/-! ## Socket -/

namespace TlsSocket

inductive State where
  | NotConnected
  | Connecting
  | WaitingHello
  | Connected
  | Error
deriving DecidableEq, Repr

end TlsSocket

/-- `socket` are the bytes that came and were not read yet, `queuedChecks` and
`queuedErrors` the calls queued by the hello and by `read`.  The last four fields
only record: how often `connected` and `readyRead` were fired, how many arrivals
`readData` handled, and what `read` returned. -/
structure TlsSocket where
  secret : Bytes
  socket : Bytes := []
  state : TlsSocket.State := .NotConnected
  incoming : Bytes := []
  incomingGoodDataOffset : Nat := 0
  incomingGoodDataLimit : Nat := 0
  serverHelloLength : Nat := 0
  queuedChecks : Nat := 0
  queuedErrors : Nat := 0
  connectedFires : Nat := 0
  readyReadFires : Nat := 0
  dataReads : Nat := 0
  returned : Bytes := []
deriving DecidableEq, Repr

namespace TlsSocket

def keyFromSecret (s : TlsSocket) : Bytes := slice s.secret 1 16

def isConnected (s : TlsSocket) : Bool := s.state = .Connected

def handleError (s : TlsSocket) : TlsSocket := { s with state := .Error }

def shiftIncomingBy (s : TlsSocket) (amount : Nat) : Option TlsSocket :=
  if s.incomingGoodDataOffset = 0 ∧ s.incomingGoodDataLimit = 0 then
    some { s with
      incoming := if s.incoming.length > amount then s.incoming.drop amount else [] }
  else
    none

/-! ## Records -/

/-- The loop of `checkNextPacket` from `offset`; `fuel` bounds the records skipped. -/
def checkPackets : Nat → TlsSocket → Nat → Option (Bool × TlsSocket)
  | 0, _, _ => none
  | fuel + 1, s, offset =>
    if s.incomingGoodDataLimit ≠ 0 then
      some (true, s)
    else
      let fullHeader := kServerHeader.length + kLengthSize
      if s.incoming.length ≤ offset + fullHeader then
        some (true, s)
      else do
        let data ← subspanFrom s.incoming offset
        if !CheckPart data kServerHeader then
          return (false, s)
        else
          let length ← ReadPartLength s.incoming (offset + kServerHeader.length)
          if length > 0 then
            (if offset > 0 then s.shiftIncomingBy offset else some s).map fun s => (true, { s with
              incomingGoodDataOffset := fullHeader, incomingGoodDataLimit := length })
          else
            checkPackets fuel s (offset + (kServerHeader.length + kLengthSize + length))

def checkNextPacket (s : TlsSocket) : Option (Bool × TlsSocket) :=
  s.checkPackets (s.incoming.length + 1) 0

def hasBytesAvailable (s : TlsSocket) : Bool :=
  s.incomingGoodDataLimit > 0 && s.incomingGoodDataOffset < s.incoming.length

def readData (s : TlsSocket) : Option TlsSocket :=
  if !s.isConnected then
    some s
  else
    match { s with
      incoming := s.incoming ++ s.socket
      socket := []
      dataReads := s.dataReads + 1 }.checkNextPacket with
    | none => none
    | some (false, s) => some s.handleError
    | some (true, s) =>
      some (if s.hasBytesAvailable then { s with readyReadFires := s.readyReadFires + 1 } else s)

/-- The loop of `read` into a buffer of `size`; `fuel` bounds its turns. -/
def readPayload : Nat → TlsSocket → Nat → Bytes → Option (Bytes × TlsSocket)
  | 0, _, _, _ => none
  | fuel + 1, s, size, written =>
    if s.incomingGoodDataLimit = 0 then
      some (written, s)
    else
      let available : Int :=
        min s.incomingGoodDataLimit (s.incoming.length - s.incomingGoodDataOffset)
      if available ≤ 0 then
        some (written, s)
      else
        let write := min available.toNat size
        if write = 0 then
          some (written, s)
        else do
          let bytes ← subspan s.incoming s.incomingGoodDataOffset write
          if s.incomingGoodDataLimit - write ≠ 0 then
            return (written ++ bytes, { s with
              incomingGoodDataLimit := s.incomingGoodDataLimit - write
              incomingGoodDataOffset := s.incomingGoodDataOffset + write })
          else
            let s ← { s with
              incomingGoodDataLimit := 0
              incomingGoodDataOffset := 0 }.shiftIncomingBy (s.incomingGoodDataOffset + write)
            match ← s.checkNextPacket with
            | (false, s) =>
              return (written ++ bytes, { s with
                state := .Error, queuedErrors := s.queuedErrors + 1 })
            | (true, s) => readPayload fuel s (size - write) (written ++ bytes)

def read (s : TlsSocket) (size : Nat) : Option (Bytes × TlsSocket) :=
  s.readPayload (size + 1) size []

/-! ## Hello -/

def requiredHelloPartReady (s : TlsSocket) : Bool :=
  s.incoming.length ≥ kHelloDigestLength + s.serverHelloLength

/-- The digest is set to zeros in `incoming` to compute the code. -/
def checkHelloDigest (hmac : Bytes → Bytes → Bytes) (s : TlsSocket) : Option TlsSocket :=
  if s.serverHelloLength < kServerHelloDigestPosition + kHelloDigestLength then
    some s.handleError
  else do
    let fulldata ← subspan s.incoming 0 (kHelloDigestLength + s.serverHelloLength)
    let digest ← subspan fulldata (kHelloDigestLength + kServerHelloDigestPosition)
      kHelloDigestLength
    let zeros := List.replicate kHelloDigestLength 0
    let fulldata := paste fulldata (kHelloDigestLength + kServerHelloDigestPosition) zeros
    let s := { s with
      incoming := paste s.incoming (kHelloDigestLength + kServerHelloDigestPosition) zeros }
    if digest ≠ hmac s.keyFromSecret fulldata then
      return s.handleError
    else
      let s ← s.shiftIncomingBy fulldata.length
      return { s with
        queuedChecks := if s.incoming.isEmpty then s.queuedChecks else s.queuedChecks + 1
        incomingGoodDataOffset := 0
        incomingGoodDataLimit := 0
        state := .Connected
        connectedFires := s.connectedFires + 1 }

/-- `readHello` is what it starts again with when more bytes are needed. -/
def checkHelloParts34 (hmac : Bytes → Bytes → Bytes) (readHello : TlsSocket → Option TlsSocket)
    (s : TlsSocket) (parts123Size : Nat) : Option TlsSocket := do
  let data ← subspan s.incoming kHelloDigestLength parts123Size
  let part4Size ← ReadPartLength data (parts123Size - kLengthSize)
  let full := parts123Size + part4Size
  if full > kMaxServerHelloLength then
    return s.handleError
  else if s.serverHelloLength = parts123Size then
    let part3Offset := parts123Size - kLengthSize - kServerHelloPart3.length
    let part3 ← subspanFrom data part3Offset
    if !CheckPart part3 kServerHelloPart3 then
      return s.handleError
    else
      let s := { s with serverHelloLength := full }
      if s.requiredHelloPartReady then s.checkHelloDigest hmac else readHello s
  else
    s.checkHelloDigest hmac

def checkHelloParts12 (hmac : Bytes → Bytes → Bytes) (readHello : TlsSocket → Option TlsSocket)
    (s : TlsSocket) (parts1Size : Nat) : Option TlsSocket := do
  let data ← subspan s.incoming kHelloDigestLength parts1Size
  let part2Size ← ReadPartLength data (parts1Size - kLengthSize)
  let parts123Size := parts1Size + part2Size + kServerHelloPart3.length + kLengthSize
  if parts123Size > kMaxServerHelloLength then
    return s.handleError
  else if s.serverHelloLength = parts1Size then
    let part1Offset := parts1Size - kLengthSize - kServerHelloPart1.length
    let part1 ← subspanFrom data part1Offset
    if !CheckPart part1 kServerHelloPart1 then
      return s.handleError
    else
      let s := { s with serverHelloLength := parts123Size }
      if s.requiredHelloPartReady then s.checkHelloParts34 hmac readHello parts123Size
      else readHello s
  else
    s.checkHelloParts34 hmac readHello parts123Size

/-- All the bytes that came are read at once, so the loop of `readHello` has one turn.
`fuel` bounds how often it is started again. -/
def readHello (hmac : Bytes → Bytes → Bytes) : Nat → TlsSocket → Option TlsSocket
  | 0, _ => none
  | fuel + 1, s =>
    let parts1Size := kServerHelloPart1.length + kLengthSize
    let s := if s.serverHelloLength = 0 then { s with serverHelloLength := parts1Size } else s
    if s.requiredHelloPartReady then
      s.checkHelloParts12 hmac (readHello hmac fuel) parts1Size
    else if s.socket.isEmpty then
      some s
    else
      let s := { s with incoming := s.incoming ++ s.socket, socket := [] }
      if s.requiredHelloPartReady then
        s.checkHelloParts12 hmac (readHello hmac fuel) parts1Size
      else
        some s

/-! ## Events -/

def plainReadyRead (hmac : Bytes → Bytes → Bytes) (s : TlsSocket) : Option TlsSocket :=
  match s.state with
  | .WaitingHello => s.readHello hmac 3
  | .Connected => s.readData
  | _ => some s

/-- The client's hello was sent; `digest` is what it is to be answered for. -/
def plainConnected (secret digest : Bytes) : TlsSocket :=
  { secret, state := .WaitingHello, incoming := digest }

inductive Event where
  | readyRead (chunk : Bytes)
  | read (size : Nat)
  | queuedCheck
  | queuedError
deriving DecidableEq, Repr

def act (hmac : Bytes → Bytes → Bytes) (s : TlsSocket) : Event → Option TlsSocket
  | .readyRead chunk => { s with socket := s.socket ++ chunk }.plainReadyRead hmac
  | .read size => (s.read size).map fun (written, s) => { s with returned := s.returned ++ written }
  | .queuedCheck =>
    if s.queuedChecks = 0 then
      some s
    else
      match { s with queuedChecks := s.queuedChecks - 1 }.checkNextPacket with
      | none => none
      | some (true, s) => some s
      | some (false, s) => some s.handleError
  | .queuedError =>
    some (if s.queuedErrors = 0 then s
      else { s with queuedErrors := s.queuedErrors - 1 }.handleError)

def run (hmac : Bytes → Bytes → Bytes) (s : TlsSocket) (events : List Event) : Option TlsSocket :=
  events.foldlM (act hmac) s

/-- The bytes of an arrival. -/
def Event.chunk : Event → Bytes
  | .readyRead chunk => chunk
  | _ => []

end TlsSocket

end MTP

end MessengerClient
