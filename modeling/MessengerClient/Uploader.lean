import MessengerClient.Lib.Blob
import MessengerClient.Lib.FlatMap
import MessengerClient.Lib.Runs
import MessengerClient.MsgId
import MessengerClient.PeerId
import Mathlib.Data.Prod.Lex

/-!
# MessengerClient.Uploader

The uploads of `storage/file_upload.cpp`: a queue of files whose parts are sent over up
to eight sessions, with the answers of the server and the covers of videos that are
uploaded as photos of their own.

The functions call each other in a circle (a part that can not be read fails its entry,
which may finish the next one, which may upload a cover, which sends parts).  Here a
function does its own work and hands back the calls it ends with; `Config` keeps the
calls that are still to be made, and between two events there are none.

The hashes of the files, the progress that is shown, and everything the items and the
documents keep about their uploads are left out.
-/

namespace MessengerClient

/-- `FullMsgId`, ordered by peer and then by message. -/
structure FullMsgId where
  peer : PeerId := {}
  msg : MsgId := 0
deriving DecidableEq, Repr

/-- The ids of messages that only this client knows. -/
def startClientMsgId : MsgId := 1 - 2 ^ 58
def endClientMsgId : MsgId := startClientMsgId + 2 ^ 31

instance : LinearOrder FullMsgId :=
  LinearOrder.lift' (fun id => toLex (id.peer.value.toNat, id.msg)) fun a b h => by
    obtain ⟨⟨p⟩, m⟩ := a
    obtain ⟨⟨q⟩, n⟩ := b
    have h := Prod.mk.inj (toLex.injective h)
    obtain rfl : p = q := UInt64.toNat_inj.mp h.1
    rw [show m = n from h.2]

/-- `crl::time`, in milliseconds. -/
abbrev Time : Type := Int

/-! ## The files -/

inductive SendMediaType where
  | photo
  | audio
  | round
  | file
  | themeFile
  | secure
deriving DecidableEq, Repr

/-- A file that is ready to be uploaded; `filepath` holds what opening the file at that
path finds to read. -/
structure FilePrepareResult where
  id : UInt64
  toPeer : PeerId := {}
  replaceMediaOf : MsgId := 0
  type : SendMediaType
  filepath : Option Blob := none
  content : Blob := .empty
  filesize : Int := 0
  fileparts : List Blob := []
  thumbId : UInt64 := 0
  thumbparts : List Blob := []
  videoCover : Option FilePrepareResult := none

/-- What holds of a file and of the covers it brings. -/
inductive FilePrepareResult.All (p : FilePrepareResult → Prop) : FilePrepareResult → Prop where
  | intro {file : FilePrepareResult} : p file →
      (∀ cover ∈ file.videoCover, FilePrepareResult.All p cover) → FilePrepareResult.All p file

/-- The types whose file is a document, read by parts while it is uploaded. -/
def SendMediaType.isDocument : SendMediaType → Bool
  | .file | .themeFile | .audio | .round => true
  | .photo | .secure => false

namespace Uploader

/-- 1 MiB in flight in each session. -/
def kMaxUploadPerSession : Int := 1024 * 1024
def kDocumentMaxPartsCountDefault : Nat := 4000
def kDocumentUploadPartSize0 : Nat := 32 * 1024
def kDocumentUploadPartSize1 : Nat := 64 * 1024
def kDocumentUploadPartSize2 : Nat := 128 * 1024
def kDocumentUploadPartSize3 : Nat := 256 * 1024
def kDocumentUploadPartSize4 : Nat := 512 * 1024
def kUseBigFilesFrom : Int := 30 * 1024 * 1024
def kWaitForNormalizeTimeout : Time := 8 * 1000
def kMaxSessionsCount : Nat := 8
def kFastRequestThreshold : Time := 1000
def kSlowRequestThreshold : Time := 8 * 1000
def kAcceptAsFastIfTotalAtLeast : Int := 512 * 1024

/-- A number kept in sixteen bits. -/
def ushort (n : Int) : UInt16 := UInt16.ofNat (n % 2 ^ 16).toNat

/-- A number kept in an `int`. -/
def int32 (n : Int) : Int := n.bmod (2 ^ 32)

/-! ## Entries and requests -/

/-- How a document is cut: `docSize`, `docPartSize` and `docPartsCount` of an entry. -/
structure DocParts where
  size : Int := 0
  partSize : Nat := 0
  count : UInt16 := 0
deriving DecidableEq, Repr

def setPartSize (size : Int) (partSize : Nat) : DocParts :=
  { size, partSize, count := ushort ((size + partSize - 1).tdiv partSize) }

/-- What `setPartSize` returns. -/
def DocParts.fits (d : DocParts) : Bool := d.count.toNat ≤ kDocumentMaxPartsCountDefault

def setDocSize (size : Int) : DocParts :=
  let limit0 : Int := 1024 * 1024
  let limit1 : Int := 32 * limit0
  if size < limit0 && (setPartSize size kDocumentUploadPartSize0).fits then
    setPartSize size kDocumentUploadPartSize0
  else if size ≤ limit1 && (setPartSize size kDocumentUploadPartSize1).fits then
    setPartSize size kDocumentUploadPartSize1
  else if (setPartSize size kDocumentUploadPartSize2).fits then
    setPartSize size kDocumentUploadPartSize2
  else if (setPartSize size kDocumentUploadPartSize3).fits then
    setPartSize size kDocumentUploadPartSize3
  else
    setPartSize size kDocumentUploadPartSize4

/-- An entry of the queue; `docFile` is the position in the opened file. -/
structure Entry where
  itemId : FullMsgId
  file : FilePrepareResult
  partsSent : UInt16 := 0
  partsWaiting : UInt16 := 0
  docFile : Option Nat := none
  docPartsSent : UInt16 := 0
  docPartsWaiting : UInt16 := 0

namespace Entry

/-! What the constructor takes from the file and nothing changes later. -/

def parts (e : Entry) : List Blob :=
  if e.file.type = .photo ∨ e.file.type = .secure then e.file.fileparts else e.file.thumbparts

def partsOfId (e : Entry) : UInt64 :=
  if e.file.type = .photo ∨ e.file.type = .secure then e.file.id else e.file.thumbId

def doc (e : Entry) : DocParts :=
  if e.file.type.isDocument then setDocSize e.file.filesize else {}

def docSize (e : Entry) : Int := e.doc.size
def docPartSize (e : Entry) : Nat := e.doc.partSize
def docPartsCount (e : Entry) : UInt16 := e.doc.count

/-- The check of `readDocPart`: a part is full unless it is the last one. -/
def checked (e : Entry) (result : Blob) : Blob :=
  if result.isEmpty || decide (e.docPartSize < result.size)
      || (decide (result.size < e.docPartSize)
        && e.docPartsSent.toNat + 1 != e.docPartsCount.toNat) then
    .empty
  else
    result

/-- A file on the disk is read on from where the last part ended. -/
def readDocPart (e : Entry) : Entry × Blob :=
  if !e.file.content.isEmpty then
    let offset := int32 (e.docPartsSent.toNat * e.docPartSize)
    (e, e.checked (e.file.content.mid offset e.docPartSize))
  else
    match e.file.filepath with
    | none => (e, e.checked .empty)
    | some disk =>
        let pos := e.docFile.getD 0
        let result := disk.slice pos e.docPartSize
        ({ e with docFile := some (pos + result.size) }, e.checked result)

/-- Some part was not sent yet. -/
def unsent (e : Entry) : Bool :=
  decide (e.partsSent.toNat < e.parts.length) || decide (e.docPartsSent < e.docPartsCount)

/-- The condition of `maybeFinishFront`. -/
def finished (e : Entry) : Bool :=
  decide (e.parts.length ≤ e.partsSent.toNat) && decide (e.docPartsCount ≤ e.docPartsSent)
    && e.partsWaiting == 0 && e.docPartsWaiting == 0

end Entry

/-- What the uploader keeps of a part that it sent. -/
structure Request where
  itemId : FullMsgId
  sent : Time := 0
  bytes : Blob
  queued : Int := 0
  part : UInt16 := 0
  dcIndex : Nat
  docPart : Bool := false
  bigPart : Bool := false

/-- What the server receives: `upload.saveFilePart`, or `upload.saveBigFilePart` when the
number of all parts goes with it. -/
structure SaveFilePart where
  fileId : UInt64
  part : Nat
  totalParts : Option Nat := none
  bytes : Blob

abbrev RequestId : Type := Nat

/-- `inputFile`, or `inputFileBig` for a file sent by big parts. -/
structure InputFile where
  id : UInt64
  parts : Nat
  big : Bool := false
deriving DecidableEq, Repr

structure UploadedMedia where
  id : UInt64
  fullId : FullMsgId
  file : InputFile
  thumb : Option InputFile := none
  videoCover : Option UInt64 := none
  edit : Bool := false
deriving DecidableEq, Repr

/-- What the users of the uploader are told. -/
inductive Report where
  | photoReady (media : UploadedMedia)
  | documentReady (media : UploadedMedia)
  | secureReady (itemId : FullMsgId) (fileId : UInt64) (partsCount : Nat)
  | photoFailed (itemId : FullMsgId)
  | documentFailed (itemId : FullMsgId)
  | secureFailed (itemId : FullMsgId)
deriving DecidableEq, Repr

def Report.itemId : Report → FullMsgId
  | .photoReady media | .documentReady media => media.fullId
  | .secureReady itemId _ _ => itemId
  | .photoFailed itemId | .documentFailed itemId | .secureFailed itemId => itemId

/-- An `UploadMedia` request for the cover of a video. -/
structure CoverRequest where
  videoId : FullMsgId
  coverId : FullMsgId
deriving DecidableEq, Repr

end Uploader

open Uploader in
/-- The uploader, and under it what it shares with the rest of the client: the requests
that the server has not answered, the counters of request ids and of local messages.
The last four fields only record what happened. -/
structure Uploader where
  queue : List Entry := []
  requests : List (RequestId × Request) := []
  sentPerDcIndex : List Int := []
  dcIndicesWithFastRequests : List Nat := []
  latestDcIndexAdded : Time := 0
  latestDcIndexRemoved : Time := 0
  pendingFromRemovedDcIndices : List Request := []
  videoIdToCoverId : FlatMap FullMsgId FullMsgId := ∅
  videoWaitingCover : FlatMap FullMsgId UploadedMedia := ∅
  pausedId : FullMsgId := {}
  nextTimer : Bool := false
  stopSessionsTimer : Bool := false
  /-- The calls of `maybeSend` that `failed` left for the main loop. -/
  posted : Nat := 0
  nextRequestId : RequestId := 1
  network : List (RequestId × SaveFilePart) := []
  covering : List (RequestId × CoverRequest) := []
  localMessageIdCounter : MsgId := startClientMsgId
  acknowledged : List SaveFilePart := []
  reports : List Report := []
  given : List FullMsgId := []
  coverIds : List FullMsgId := []

namespace Uploader

/-- What ends the program: a failed assertion, or no local message id is left. -/
inductive Stop where
  | assertion
  | noLocalMessageId
deriving DecidableEq, Repr

/-- The calls that a function ends with. -/
inductive Call where
  | failed (itemId : FullMsgId)
  /-- What `failed` does after it handled the containers. -/
  | failedRest (itemId : FullMsgId)
  | maybeFinishFront
  | maybeSend
  /-- The outer loop of `maybeSend`. -/
  | sendNext (usedDcIndices : List Nat)
  /-- The inner one, for the session that was chosen. -/
  | sendTo (usedDcIndices : List Nat) (dcIndex : Nat)
deriving DecidableEq, Repr

inductive SendResult where
  | success
  | failed
  | dcIndexFull
deriving DecidableEq, Repr

def findEntry (s : Uploader) (itemId : FullMsgId) : Option Entry :=
  s.queue.find? (·.itemId = itemId)

/-- The entry as it was changed through a pointer into the queue. -/
def setEntry (entry : Entry) (s : Uploader) : Uploader :=
  { s with queue := s.queue.map fun e => if e.itemId = entry.itemId then entry else e }

def sentIn (s : Uploader) (dcIndex : Nat) : Int := s.sentPerDcIndex.getD dcIndex 0

/-! ## Sessions and requests -/

def stopSessions (s : Uploader) : Uploader :=
  if s.sentPerDcIndex.any (· ≠ 0) then
    { s with stopSessionsTimer := true }
  else
    { s with sentPerDcIndex := [], dcIndicesWithFastRequests := [] }

def canAddDcIndex (s : Uploader) : Bool :=
  decide (s.sentPerDcIndex.length < kMaxSessionsCount)
    && s.sentPerDcIndex.length == s.dcIndicesWithFastRequests.length

/-- The session with the least in flight of those not used yet, the first of equals. -/
def leastSent (s : Uploader) (used : List Nat) : Option Nat :=
  (List.range s.sentPerDcIndex.length).foldl (fun result i =>
    if i ∉ used ∧ ∀ r ∈ result, s.sentIn i < s.sentIn r then some i else result) none

def chooseDcIndexForNextRequest (now : Time) (used : List Nat) (s : Uploader) :
    Uploader × Option Nat :=
  let count := s.sentPerDcIndex.length
  match (List.range count).find? fun i => s.sentIn i = 0 ∧ i ∉ used with
  | some i => (s, some i)
  | none =>
      if s.canAddDcIndex then
        ({ s with
            sentPerDcIndex := s.sentPerDcIndex ++ [0]
            dcIndicesWithFastRequests := []
            latestDcIndexAdded := now }, some count)
      else
        (s, s.leastSent used)

/-- What is taken off the sessions when requests leave them. -/
def takeSent (requests : List Request) (sent : List Int) : List Int :=
  requests.foldl (fun sent r => sent.modify r.dcIndex (· - r.bytes.size)) sent

/-- The requests of the entries that meet `p` are cancelled. -/
def dropRequests (p : Request → Bool) (s : Uploader) : Uploader :=
  let dropped := s.requests.filter fun r => p r.2
  { s with
    requests := s.requests.filter fun r => !p r.2
    sentPerDcIndex := takeSent (dropped.map Prod.snd) s.sentPerDcIndex
    network := s.network.filter fun m => m.1 ∉ dropped.map Prod.fst }

def cancelRequests (itemId : FullMsgId) (s : Uploader) : Uploader :=
  let s := s.dropRequests (·.itemId = itemId)
  { s with
    pendingFromRemovedDcIndices := s.pendingFromRemovedDcIndices.filter (·.itemId ≠ itemId) }

def cancelAllRequests (s : Uploader) : Uploader :=
  { s with
    requests := []
    network := s.network.filter fun m => m.1 ∉ s.requests.map Prod.fst
    sentPerDcIndex := s.sentPerDcIndex.map fun _ => 0 }

def clear (s : Uploader) : Uploader :=
  { ({ s with queue := [] } : Uploader).cancelAllRequests.stopSessions with
    stopSessionsTimer := false }

def finishRequest (requestId : RequestId) (s : Uploader) : Except Stop (Request × Uploader) :=
  match s.requests.lookup requestId with
  | none => .error .assertion
  | some taken =>
      .ok (taken, { s with
        requests := s.requests.filter (·.1 ≠ requestId)
        sentPerDcIndex := takeSent [taken] s.sentPerDcIndex })

/-- The requests of the last session wait to be sent over another one. -/
def removeDcIndex (s : Uploader) : Except Stop Uploader :=
  if s.sentPerDcIndex.length ≤ 1 then
    .error .assertion
  else
    let dcIndex := s.sentPerDcIndex.length - 1
    let moved := s.requests.filter (·.2.dcIndex = dcIndex)
    let s := s.dropRequests (·.dcIndex = dcIndex)
    if s.sentIn dcIndex ≠ 0 then
      .error .assertion
    else
      .ok { s with
        pendingFromRemovedDcIndices := s.pendingFromRemovedDcIndices ++ moved.map Prod.snd
        sentPerDcIndex := s.sentPerDcIndex.dropLast
        dcIndicesWithFastRequests := s.dcIndicesWithFastRequests.erase dcIndex }

/-! ## Sending -/

def chooseEntryForNextRequest (s : Uploader) : Except Stop (Option Entry) :=
  match s.pendingFromRemovedDcIndices with
  | request :: _ =>
      match s.findEntry request.itemId with
      | none => .error .assertion
      | some entry => .ok (some entry)
  | [] => .ok (s.queue.find? Entry.unsent)

def sendPreparedRequest (now : Time) (prepared : SaveFilePart) (request : Request)
    (s : Uploader) : Uploader :=
  { s with
    nextRequestId := s.nextRequestId + 1
    network := s.network ++ [(s.nextRequestId, prepared)]
    requests := s.requests ++
      [(s.nextRequestId, { request with sent := now, queued := s.sentIn request.dcIndex })]
    sentPerDcIndex := s.sentPerDcIndex.modify request.dcIndex (· + request.bytes.size) }

/-- The first of the pending requests, `rest` being the others. -/
def sendPendingPart (now : Time) (request : Request) (rest : List Request) (entry : Entry)
    (dcIndex : Nat) (s : Uploader) : Uploader :=
  let s := { s with pendingFromRemovedDcIndices := rest }
  if request.bigPart then
    s.sendPreparedRequest now
      { fileId := entry.file.id, part := request.part.toNat,
        totalParts := some entry.docPartsCount.toNat, bytes := request.bytes }
      { request with dcIndex }
  else
    s.sendPreparedRequest now
      { fileId := if request.docPart then entry.file.id else entry.partsOfId,
        part := request.part.toNat, bytes := request.bytes }
      { request with dcIndex }

def sendDocPart (now : Time) (entry : Entry) (dcIndex : Nat) (s : Uploader) :
    Except Stop (Uploader × SendResult) :=
  if s.sentIn dcIndex + entry.docPartSize > kMaxUploadPerSession then
    .ok (s, .dcIndexFull)
  else if entry.docPartsSent < entry.docPartsCount then
    let (read, partBytes) := entry.readDocPart
    if partBytes.isEmpty then
      .ok (s.setEntry read, .failed)
    else
      let part := entry.docPartsSent
      let s := s.setEntry { read with
        docPartsSent := entry.docPartsSent + 1
        docPartsWaiting := entry.docPartsWaiting + 1 }
      let big := decide (entry.docSize > kUseBigFilesFrom)
      .ok (s.sendPreparedRequest now
        { fileId := entry.file.id, part := part.toNat,
          totalParts := if big then some entry.docPartsCount.toNat else none,
          bytes := partBytes }
        { itemId := entry.itemId, bytes := partBytes, part, dcIndex, docPart := true,
          bigPart := big }, .success)
  else
    .error .assertion

/-- The request does not keep the number of the part. -/
def sendSlicedPart (now : Time) (entry : Entry) (dcIndex : Nat) (s : Uploader) :
    Except Stop (Uploader × SendResult) :=
  match entry.parts[entry.partsSent.toNat]? with
  | none => .error .assertion
  | some partBytes =>
      if s.sentIn dcIndex + partBytes.size ≥ kMaxUploadPerSession then
        .ok (s, .dcIndexFull)
      else
        let index := entry.partsSent
        let s := s.setEntry { entry with
          partsSent := entry.partsSent + 1
          partsWaiting := entry.partsWaiting + 1 }
        .ok (s.sendPreparedRequest now
          { fileId := entry.partsOfId, part := index.toNat, bytes := partBytes }
          { itemId := entry.itemId, bytes := partBytes, dcIndex }, .success)

def sendPart (now : Time) (entry : Entry) (dcIndex : Nat) (s : Uploader) :
    Except Stop (Uploader × SendResult) :=
  match s.pendingFromRemovedDcIndices with
  | request :: rest => .ok (s.sendPendingPart now request rest entry dcIndex, .success)
  | [] =>
      if entry.partsSent.toNat < entry.parts.length then
        s.sendSlicedPart now entry dcIndex
      else
        s.sendDocPart now entry dcIndex

def maybeSend (s : Uploader) : Uploader × List Call :=
  if s.queue.isEmpty then
    ({ s with stopSessionsTimer := true, pausedId := {} }, [])
  else if s.pausedId.msg ≠ 0 then
    (s, [])
  else
    ({ s with stopSessionsTimer := false }, [.sendNext []])

def sendNext (now : Time) (usedDcIndices : List Nat) (s : Uploader) : Uploader × List Call :=
  match s.chooseDcIndexForNextRequest now usedDcIndices with
  | (s, some dcIndex) => (s, [.sendTo usedDcIndices dcIndex])
  | (s, none) => ({ s with nextTimer := !usedDcIndices.isEmpty }, [])

def sendTo (now : Time) (usedDcIndices : List Nat) (dcIndex : Nat) (s : Uploader) :
    Except Stop (Uploader × List Call) := do
  match ← s.chooseEntryForNextRequest with
  | none => return (s, [])
  | some entry =>
      match ← s.sendPart now entry dcIndex with
      | (s, .dcIndexFull) => return (s, [])
      | (s, .success) =>
          let used := s.sentIn dcIndex ≥ kAcceptAsFastIfTotalAtLeast
          return (s, [.sendNext (if used then usedDcIndices.insert dcIndex else usedDcIndices)])
      | (s, .failed) => return (s, [.failed entry.itemId, .sendTo usedDcIndices dcIndex])

def upload (itemId : FullMsgId) (file : FilePrepareResult) (s : Uploader) :
    Uploader × List Call :=
  ({ s with queue := s.queue ++ [{ itemId, file }] },
    if s.nextTimer then [] else [.maybeSend])

/-! ## Failing and finishing -/

def report (r : Report) (s : Uploader) : Uploader := { s with reports := s.reports ++ [r] }

def notifyFailed (entry : Entry) (s : Uploader) : Uploader :=
  if entry.file.type = .photo then
    s.report (.photoFailed entry.itemId)
  else if entry.file.type.isDocument then
    s.report (.documentFailed entry.itemId)
  else
    s.report (.secureFailed entry.itemId)

/-- `maybeSend` is posted after the fronts are finished; nothing between reads it. -/
def failedRest (itemId : FullMsgId) (s : Uploader) : Uploader × List Call :=
  let s := s.cancelRequests itemId
  ({ s with posted := s.posted + 1 }, [.maybeFinishFront])

def failed (itemId : FullMsgId) (s : Uploader) : Uploader × List Call :=
  match s.findEntry itemId with
  | some entry =>
      let s := { s with queue := s.queue.eraseP (·.itemId = itemId) }
      (s.notifyFailed entry).failedRest itemId
  | none =>
      match s.videoIdToCoverId.find? itemId with
      | some coverId =>
          let s := { s with videoIdToCoverId := s.videoIdToCoverId.erase itemId }
          let s := match s.videoWaitingCover.find? coverId with
            | some video =>
                report (.documentFailed video.fullId)
                  { s with videoWaitingCover := s.videoWaitingCover.erase coverId }
            | none => s
          (s, [.failed coverId, .failedRest itemId])
      | none =>
          match s.videoWaitingCover.find? itemId with
          | some video =>
              let s := { s with
                videoWaitingCover := s.videoWaitingCover.erase itemId
                videoIdToCoverId := s.videoIdToCoverId.erase video.fullId }
              (s.report (.documentFailed video.fullId)).failedRest itemId
          | none => s.failedRest itemId

/-- `Session::nextLocalMessageId`. -/
def nextLocalMessageId (s : Uploader) : Except Stop (MsgId × Uploader) :=
  if s.localMessageIdCounter < endClientMsgId then
    .ok (s.localMessageIdCounter,
      { s with localMessageIdCounter := s.localMessageIdCounter + 1 })
  else
    .error .noLocalMessageId

def uploadVideoCover (video : UploadedMedia) (videoCover : FilePrepareResult) (s : Uploader) :
    Except Stop (Uploader × List Call) := do
  let (msg, s) ← s.nextLocalMessageId
  let coverId : FullMsgId := { peer := videoCover.toPeer, msg }
  let s := { s with
    coverIds := s.coverIds ++ [coverId]
    videoIdToCoverId := s.videoIdToCoverId.emplace video.fullId coverId
    videoWaitingCover := s.videoWaitingCover.emplace coverId video }
  return s.upload coverId videoCover

def uploadCoverAsPhoto (videoId : FullMsgId) (cover : UploadedMedia) (s : Uploader) :
    Uploader :=
  { s with
    nextRequestId := s.nextRequestId + 1
    covering := s.covering ++ [(s.nextRequestId, { videoId, coverId := cover.fullId })] }

/-- What `finishFront` tells about an entry: the file of a photo is the sliced one, which
for a document is its thumbnail. -/
def Entry.ready (entry : Entry) : UploadedMedia :=
  let sliced : InputFile := { id := entry.partsOfId, parts := entry.parts.length }
  let edit := decide (entry.file.replaceMediaOf ≠ 0)
  if entry.file.type = .photo then
    { id := entry.file.id, fullId := entry.itemId, file := sliced, edit }
  else
    let big := decide (entry.docSize > kUseBigFilesFrom)
    let file := { id := entry.file.id, parts := entry.docPartsCount.toNat, big }
    let thumb := if entry.parts.isEmpty then none else some sliced
    { id := entry.file.id, fullId := entry.itemId, file, thumb, edit }

def finishFront (s : Uploader) : Except Stop (Uploader × List Call) :=
  match s.queue with
  | [] => .error .assertion
  | entry :: queue =>
      let s := { s with queue }
      if entry.file.type = .photo then
        match s.videoWaitingCover.find? entry.itemId with
        | some video => .ok (s.uploadCoverAsPhoto video.fullId entry.ready, [])
        | none => .ok (s.report (.photoReady entry.ready), [])
      else if entry.file.type.isDocument then
        match entry.file.videoCover with
        | some videoCover => s.uploadVideoCover entry.ready videoCover
        | none => .ok (s.report (.documentReady entry.ready), [])
      else
        .ok (s.report (.secureReady entry.itemId entry.file.id entry.parts.length), [])

def maybeFinishFront (s : Uploader) : Except Stop (Uploader × List Call) :=
  match s.queue with
  | [] => .ok (s, [])
  | entry :: _ =>
      if entry.finished then do
        let (s, calls) ← s.finishFront
        return (s, calls ++ [.maybeFinishFront])
      else
        .ok (s, [])

/-! ## Answers -/

/-- How the sessions are judged by the time that an answer took. -/
def slow (now : Time) (request : Request) (s : Uploader) : Bool :=
  decide (now - request.sent ≥ kSlowRequestThreshold)
    && decide (now - s.latestDcIndexRemoved ≥ kWaitForNormalizeTimeout)
    && decide (s.sentPerDcIndex.length > 1)

def noteDuration (now : Time) (request : Request) (s : Uploader) : Except Stop Uploader :=
  if now - request.sent ≥ kFastRequestThreshold then
    let s := { s with dcIndicesWithFastRequests := [] }
    if s.slow now request then do
      let s ← s.removeDcIndex
      return { s with latestDcIndexRemoved := now }
    else
      .ok s
  else if request.sent > s.latestDcIndexAdded
      ∧ request.queued + request.bytes.size ≥ kAcceptAsFastIfTotalAtLeast then
    .ok { s with
      dcIndicesWithFastRequests := s.dcIndicesWithFastRequests.insert request.dcIndex }
  else
    .ok s

def Entry.partDone (entry : Entry) (docPart : Bool) : Entry :=
  if docPart then
    { entry with docPartsWaiting := entry.docPartsWaiting - 1 }
  else
    { entry with partsWaiting := entry.partsWaiting - 1 }

def partLoaded (now : Time) (result : Bool) (requestId : RequestId) (s : Uploader) :
    Except Stop (Uploader × List Call) := do
  let (request, s) ← s.finishRequest requestId
  if !result then
    return (s, [.failed request.itemId])
  match s.findEntry request.itemId with
  | none => .error .assertion
  | some entry =>
      let s ← s.noteDuration now request
      let s := s.setEntry (entry.partDone request.docPart)
      let front := s.queue.head?.map Entry.itemId = some request.itemId
      return (s, if front then [.maybeFinishFront, .maybeSend] else [.maybeSend])

def partFailed (requestId : RequestId) (s : Uploader) : Except Stop (Uploader × List Call) := do
  let (request, s) ← s.finishRequest requestId
  return (s, [.failed request.itemId])

/-- `UploadMedia` gave a photo. -/
def coverLoaded (videoId : FullMsgId) (photo : UInt64) (s : Uploader) : Uploader :=
  match s.videoIdToCoverId.find? videoId with
  | none => s
  | some coverId =>
      let s := { s with videoIdToCoverId := s.videoIdToCoverId.erase videoId }
      match s.videoWaitingCover.find? coverId with
      | none => s
      | some video =>
          report (.documentReady { video with videoCover := some photo })
            { s with videoWaitingCover := s.videoWaitingCover.erase coverId }

/-! ## Runs -/

/-- What reaches the uploader: its users, the answers to its requests, its timers, the
call it left for the main loop, and a local message id taken by someone else. -/
inductive Event where
  | upload (itemId : FullMsgId) (file : FilePrepareResult)
  | cancel (itemId : FullMsgId)
  | cancelAll
  | pause (itemId : FullMsgId)
  | unpause
  | stopSessions
  | partLoaded (result : Bool) (requestId : RequestId)
  | partFailed (requestId : RequestId)
  /-- `none` when the answer holds no photo. -/
  | coverLoaded (requestId : RequestId) (photo : Option UInt64)
  | coverFailed (requestId : RequestId)
  | nextTimer
  | stopSessionsTimer
  | onMain
  | localMessageId

/-- An id that was handed out: a local one below the counter, or one of the server. -/
def Issued (counter : MsgId) (itemId : FullMsgId) : Prop :=
  itemId.msg < counter ∨ endClientMsgId ≤ itemId.msg

instance (counter : MsgId) (itemId : FullMsgId) : Decidable (Issued counter itemId) :=
  inferInstanceAs (Decidable (_ ∨ _))

theorem Issued.mono {counter counter' : MsgId} {id : FullMsgId} (h : Issued counter id)
    (hle : counter ≤ counter') : Issued counter' id :=
  h.imp_left fun hlt => hlt.trans_le hle

/-- An item that may be given to `upload`: its id was handed out to the users of the
uploader, and it is neither in the queue nor a video that waits for its cover. -/
def Free (s : Uploader) (itemId : FullMsgId) : Prop :=
  Issued s.localMessageIdCounter itemId ∧
  itemId ∉ s.coverIds ∧
  itemId ∉ s.queue.map Entry.itemId ∧
  itemId ∉ s.videoWaitingCover.entries.map (·.2.fullId)

instance (s : Uploader) (itemId : FullMsgId) : Decidable (s.Free itemId) :=
  inferInstanceAs (Decidable (_ ∧ _ ∧ _ ∧ _))

/-- Answers come to requests that were neither answered nor cancelled, and a timer fires
when it is active. -/
def Event.Possible (s : Uploader) : Event → Prop
  | .upload itemId _ => s.Free itemId
  | .partLoaded _ requestId | .partFailed requestId => requestId ∈ s.network.map Prod.fst
  | .coverLoaded requestId _ | .coverFailed requestId => requestId ∈ s.covering.map Prod.fst
  | .nextTimer => s.nextTimer = true
  | .stopSessionsTimer => s.stopSessionsTimer = true
  | .onMain => 0 < s.posted
  | .cancel _ | .cancelAll | .pause _ | .unpause | .stopSessions | .localMessageId => True

instance (s : Uploader) (e : Event) : Decidable (e.Possible s) := by
  cases e <;> unfold Event.Possible <;> infer_instance

/-- The request leaves the network with its answer. -/
def answered (requestId : RequestId) (s : Uploader) : Uploader :=
  { s with network := s.network.filter (·.1 ≠ requestId) }

/-- A part that the server stored. -/
def acknowledge (requestId : RequestId) (s : Uploader) : Uploader :=
  match s.network.lookup requestId with
  | none => s
  | some part => { s with acknowledged := s.acknowledged ++ [part] }

/-- The request for a cover leaves the network with its answer. -/
def coverAnswered (requestId : RequestId) (s : Uploader) : Uploader :=
  { s with covering := s.covering.filter (·.1 ≠ requestId) }

def handle (now : Time) (e : Event) (s : Uploader) : Except Stop (Uploader × List Call) :=
  match e with
  | .upload itemId file => .ok ({ s with given := s.given ++ [itemId] }.upload itemId file)
  | .cancel itemId => .ok (s, [.failed itemId])
  | .cancelAll => .ok (s, [])
  | .pause itemId => .ok ({ s with pausedId := itemId }, [])
  | .unpause => .ok ({ s with pausedId := {} }, [.maybeSend])
  | .stopSessions => .ok (s.stopSessions, [])
  | .partLoaded result requestId =>
      let s := if result then s.acknowledge requestId else s
      (s.answered requestId).partLoaded now result requestId
  | .partFailed requestId => (s.answered requestId).partFailed requestId
  | .coverLoaded requestId photo =>
      match s.covering.lookup requestId, photo with
      | none, _ => .ok (s, [])
      | some r, some photo => .ok ((s.coverAnswered requestId).coverLoaded r.videoId photo, [])
      | some r, none => .ok (s.coverAnswered requestId, [.failed r.coverId])
  | .coverFailed requestId =>
      match s.covering.lookup requestId with
      | none => .ok (s, [])
      | some r => .ok (s.coverAnswered requestId, [.failed r.coverId])
  | .nextTimer => .ok ({ s with nextTimer := false }, [.maybeSend])
  | .stopSessionsTimer => .ok ({ s with stopSessionsTimer := false }.stopSessions, [])
  | .onMain => .ok ({ s with posted := s.posted - 1 }, [.maybeSend])
  | .localMessageId => do
      let (_, s) ← s.nextLocalMessageId
      return (s, [])

/-- One call. -/
def exec (now : Time) (call : Call) (s : Uploader) : Except Stop (Uploader × List Call) :=
  match call with
  | .failed itemId => .ok (s.failed itemId)
  | .failedRest itemId => .ok (s.failedRest itemId)
  | .maybeFinishFront => s.maybeFinishFront
  | .maybeSend => .ok s.maybeSend
  | .sendNext usedDcIndices => .ok (s.sendNext now usedDcIndices)
  | .sendTo usedDcIndices dcIndex => s.sendTo now usedDcIndices dcIndex

/-- The loop of `cancelAll`, and whether it goes on. -/
def cancelAllNext (s : Uploader) : Uploader × List Call × Bool :=
  match s.queue with
  | entry :: _ => (s, [.failed entry.itemId], true)
  | [] => ({ s.clear with pausedId := {} }, [.maybeSend], false)

/-- The uploader with the calls that are still to be made; under `cancelling` the loop of
`cancelAll` goes on when there are none. -/
structure Config where
  uploader : Uploader := {}
  calls : List Call := []
  cancelling : Bool := false

/-- The item that the first of the calls is about to fail. -/
def failingOf : List Call → Option FullMsgId
  | .failed itemId :: _ => some itemId
  | _ => none

/-- Nothing runs. -/
def Config.Idle (c : Config) : Prop := c.calls = [] ∧ c.cancelling = false

instance (c : Config) : Decidable c.Idle := inferInstanceAs (Decidable (_ ∧ _))

/-- What moves the uploader: the code that runs goes on, or an event when nothing does.
The time is the one that `crl::now` gives. -/
inductive Action where
  | run (now : Time)
  | event (now : Time) (e : Event)

def Action.Possible (c : Config) : Action → Prop
  | .run _ => True
  | .event _ e => c.Idle ∧ e.Possible c.uploader

instance (c : Config) (a : Action) : Decidable (a.Possible c) := by
  cases a <;> unfold Action.Possible <;> infer_instance

def next (c : Config) : Action → Except Stop Config
  | .run now =>
      match c.calls with
      | call :: calls => do
          let (uploader, more) ← c.uploader.exec now call
          return { c with uploader, calls := more ++ calls }
      | [] =>
          if c.cancelling then
            let (uploader, calls, cancelling) := c.uploader.cancelAllNext
            .ok { uploader, calls, cancelling }
          else
            .ok c
  | .event now e => do
      let (uploader, calls) ← c.uploader.handle now e
      return { uploader, calls, cancelling := e matches .cancelAll }

def system : System Config Action where
  init c := c = {}
  step c a c' := a.Possible c ∧ next c a = .ok c'

/-- The configuration after these actions, when they are possible and allowed and nothing
stops. -/
def Config.after (allowed : Config → Action → Bool) (c : Config) : List Action → Option Config
  | [] => some c
  | a :: actions =>
      if a.Possible c ∧ allowed c a then
        (next c a).toOption.bind (·.after allowed actions)
      else
        none

def allowAll (_ : Config) (_ : Action) : Bool := true

theorem reached_after {ok : Config → Action → Prop} {allowed : Config → Action → Bool}
    {c c' : Config} {actions : List Action} (h : system.Reached ok c)
    (hok : ∀ a ∈ actions, ∀ c, allowed c a = true → ok c a)
    (hafter : c.after allowed actions = some c') : system.Reached ok c' := by
  induction actions generalizing c with
  | nil => exact Option.some.inj hafter ▸ h
  | cons a actions ih =>
      rw [Config.after] at hafter
      split at hafter
      · next hp =>
        cases hnext : next c a with
        | error e =>
            rw [hnext] at hafter
            cases hafter
        | ok c₁ =>
            rw [hnext] at hafter
            refine ih (.step h (hok a (.head _) c hp.2) ⟨hp.1, hnext⟩) ?_ hafter
            exact fun b hb => hok b (.tail _ hb)
      · cases hafter

end Uploader

end MessengerClient
