import MessengerClient.Lib.Bytes

/-!
# MessengerClient.FileLoader

`FileLoader` with its heir `mtpFileLoader`: a file is asked for in parts, the parts
arrive in any order and are written at their own offsets, into the memory buffer
or into an open file.

What the system does with a file is the argument `Io`.  A failed `Expects` is
`none`.
-/

namespace MessengerClient

namespace Storage

def kDownloadPartSize : Nat := 128 * 1024

inductive LocalStatus where
  | NotTried
  | NotFound
  | Loading
  | Loaded
deriving DecidableEq, Repr

inductive LoadToCacheSetting where
  | LoadToFileOnly
  | LoadToCacheAsWell
deriving DecidableEq, Repr

inductive LoadFromCloudSetting where
  | LoadFromCloudOrLocal
  | LoadFromLocalOnly
deriving DecidableEq, Repr

/-- The outcomes of opening and writing a file, and what the bytes of a grown
buffer are before they are written. -/
structure Io where
  opens : Bool := true
  writes : Bool := true
  junk : UInt8 := 0
deriving DecidableEq, Repr

/-- `hasFilename` and `hasCacheKey` are `!_filename.isEmpty()` and
`key.low || key.high`; `sentRequests` are the offsets not answered yet.  The last
four fields only record: what was written, what was asked for, whether
`finalizeResult` was reached, and what went to the cache. -/
structure FileLoader where
  hasFilename : Bool := false
  hasCacheKey : Bool := false
  toCache : LoadToCacheSetting := .LoadToCacheAsWell
  fromCloud : LoadFromCloudSetting := .LoadFromCloudOrLocal
  fileIsOpen : Bool := false
  file : Bytes := []
  data : Bytes := []
  skippedBytes : Int := 0
  localStatus : LocalStatus := .NotTried
  autoLoading : Bool := false
  finished : Bool := false
  cancelled : Bool := false
  loadSize : Int := 0
  fullSize : Int := 0
  lastComplete : Bool := false
  nextRequestOffset : Nat := 0
  inQueue : Bool := false
  sentRequests : List Nat := []
  written : List (Nat × Bytes) := []
  requested : List Nat := []
  finalized : Bool := false
  cached : Option Bytes := none
deriving DecidableEq, Repr

namespace FileLoader

def haveSentRequests (s : FileLoader) : Bool := !s.sentRequests.isEmpty

/-- `FileLoader::cancel` with `mtpFileLoader::cancelHook`: a file that is open is
closed and removed. -/
def cancel (s : FileLoader) : FileLoader :=
  { s with
    sentRequests := []
    cancelled := true
    finished := true
    fileIsOpen := false
    file := if s.fileIsOpen then [] else s.file
    data := []
    hasFilename := false }

/-! ## Writing -/

/-- `QFile::seek` and `QFile::write`: a gap before the offset is filled with zeros. -/
def fileWrite (file : Bytes) (offset : Nat) (buffer : Bytes) : Bytes :=
  let file := file ++ List.replicate (offset - file.length) 0
  file.take offset ++ buffer ++ file.drop (offset + buffer.length)

/-- `QByteArray::resize` to a size that is not smaller. -/
def grow (data : Bytes) (size : Nat) (junk : UInt8) : Bytes :=
  data ++ List.replicate (size - data.length) junk

/-- The buffer branch of `writeResultPart`. -/
def dataWrite (data : Bytes) (offset : Nat) (buffer : Bytes) (junk : UInt8) : Bytes :=
  let data := if offset > data.length then grow data offset junk else data
  if offset = data.length then
    data ++ buffer
  else
    let data := if offset + buffer.length > data.length then
      grow data (offset + buffer.length) junk else data
    data.take offset ++ buffer ++ data.drop (offset + buffer.length)

/-- What `_skippedBytes` changes by when `size` bytes are held. -/
def skippedDelta (size offset : Nat) (buffer : Bytes) : Int :=
  if offset < size then -buffer.length else (offset : Int) - size

def writeResultPart (s : FileLoader) (io : Io) (offset : Nat) (buffer : Bytes) :
    Option (Bool × FileLoader) :=
  if s.finished then
    none
  else if buffer.isEmpty then
    some (true, s)
  else if s.fileIsOpen then
    let s := { s with skippedBytes := s.skippedBytes + skippedDelta s.file.length offset buffer }
    if io.writes then
      some (true, { s with
        file := fileWrite s.file offset buffer
        written := s.written ++ [(offset, buffer)] })
    else
      some (false, s.cancel)
  else
    some (true, { s with
      skippedBytes := s.skippedBytes + skippedDelta s.data.length offset buffer
      data := dataWrite s.data offset buffer io.junk
      written := s.written ++ [(offset, buffer)] })

/-! ## Finishing -/

/-- `"partial:"`. -/
def partialPrefix : Bytes := [112, 97, 114, 116, 105, 97, 108, 58]

/-- Opens the file if it is not open, which cuts it, and writes `data` from its start. -/
def writeWhole (s : FileLoader) (io : Io) (data : Bytes) : Bool × FileLoader :=
  if !s.fileIsOpen && !io.opens then
    (false, s)
  else
    let s := { s with fileIsOpen := true, file := if s.fileIsOpen then s.file else [] }
    if io.writes then (true, { s with file := fileWrite s.file 0 data }) else (false, s)

/-- The file of a loader that caches as well is written at the end. -/
def writeAtEnd (s : FileLoader) (io : Io) : Bool × FileLoader :=
  if s.hasFilename && s.toCache = .LoadToCacheAsWell then s.writeWhole io s.data else (true, s)

def finalizeResult (s : FileLoader) (io : Io) : Option (Bool × FileLoader) :=
  if s.finished then
    none
  else
    match { s with finalized := true }.writeAtEnd io with
    | (false, s) => some (false, s.cancel)
    | (true, s) =>
      some (true, { s with
        finished := true
        fileIsOpen := false
        cached :=
          if s.localStatus = .NotFound ∧ s.toCache = .LoadToCacheAsWell ∧
              s.data.length ≤ 10 * 1024 * 1024 ∧ s.hasCacheKey then
            some (if s.fullSize = 0 ∨ s.data.length = s.fullSize then s.data
              else partialPrefix ++ s.data)
          else
            s.cached })

def finishWithBytes (s : FileLoader) (io : Io) (data : Bytes) : FileLoader :=
  match { s with data := data, localStatus := .Loaded }.writeAtEnd io with
  | (false, s) => s.cancel
  | (true, s) => { s with finished := true, fileIsOpen := false }

/-! ## Parts -/

def readyToRequest (s : FileLoader) : Bool :=
  !s.finished && !s.lastComplete && (s.fullSize ≠ 0 || !s.haveSentRequests) &&
    (s.fullSize = 0 || s.nextRequestOffset < s.loadSize)

def takeNextRequestOffset (s : FileLoader) : Option (Nat × FileLoader) :=
  if s.readyToRequest then
    some (s.nextRequestOffset,
      { s with nextRequestOffset := s.nextRequestOffset + kDownloadPartSize })
  else
    none

def feedPart (s : FileLoader) (io : Io) (offset : Nat) (buffer : Bytes) :
    Option (Bool × FileLoader) :=
  match s.writeResultPart io offset buffer with
  | none => none
  | some (false, s) => some (false, s)
  | some (true, s) =>
    let s := if buffer.isEmpty || buffer.length % 1024 ≠ 0 then { s with lastComplete := true } else s
    let finished := !s.haveSentRequests &&
      (s.lastComplete || (s.fullSize ≠ 0 && s.nextRequestOffset ≥ s.loadSize))
    if finished then { s with inQueue := false }.finalizeResult io else some (true, s)

def setWebFileSizeHook (s : FileLoader) (size : Int) : Bool × FileLoader :=
  if s.fullSize = 0 ∨ s.fullSize = size then
    (true, { s with fullSize := size, loadSize := size })
  else
    (false, s.cancel)

/-- A request is sent for the next offset. -/
def loadPart (s : FileLoader) : Option FileLoader :=
  s.takeNextRequestOffset.map fun (offset, s) =>
    { s with sentRequests := s.sentRequests ++ [offset], requested := s.requested ++ [offset] }

/-- `normalPartLoaded`, or `webPartLoaded` when the answer tells the size of the file. -/
def partLoaded (s : FileLoader) (io : Io) (offset : Nat) (bytes : Bytes) (size : Option Int) :
    Option FileLoader :=
  let s := { s with sentRequests := s.sentRequests.erase offset }
  match size with
  | none => (s.feedPart io offset bytes).map Prod.snd
  | some size =>
    match s.setWebFileSizeHook size with
    | (false, s) => some s
    | (true, s) => (s.feedPart io offset bytes).map Prod.snd

/-! ## Starting -/

def checkForOpen (s : FileLoader) (io : Io) : Bool × FileLoader :=
  if !s.hasFilename || s.toCache ≠ .LoadToFileOnly || s.fileIsOpen then
    (true, s)
  else if io.opens then
    (true, { s with fileIsOpen := true, file := [] })
  else
    (false, s.cancel)

def startLoading (s : FileLoader) : FileLoader := { s with inQueue := true }

def startLoadingWithPartial (s : FileLoader) (io : Io) (data : Bytes) : Option FileLoader :=
  if !partialPrefix.isPrefixOf data then
    none
  else
    let parts := (data.length - 8) / kDownloadPartSize
    let use := parts * kDownloadPartSize
    if use > 0 then
      let s := { s with nextRequestOffset := use }
      (s.feedPart io 0 ((data.drop 8).take use)).map fun fed => fed.2.startLoading
    else
      some s.startLoading

def tryLoadLocal (s : FileLoader) : Bool × FileLoader :=
  match s.localStatus with
  | .NotFound | .Loaded => (false, s)
  | .Loading => (true, s)
  | .NotTried =>
    if s.toCache = .LoadToCacheAsWell ∧ s.hasCacheKey then
      (true, { s with localStatus := .Loading })
    else
      (false, { s with localStatus := .NotFound })

def start (s : FileLoader) (io : Io) : FileLoader :=
  if s.finished then
    s
  else
    match s.tryLoadLocal with
    | (true, s) => s
    | (false, s) =>
      if s.fromCloud = .LoadFromLocalOnly then
        s.cancel
      else
        match s.checkForOpen io with
        | (true, s) => s.startLoading
        | (false, s) => s

def localLoaded (s : FileLoader) (io : Io) (result : Bytes) : Option FileLoader :=
  if result.isEmpty then
    some ({ s with localStatus := .NotFound }.start io)
  else
    let isPartial := partialPrefix.isPrefixOf result
    if isPartial && (result.length : Int) < s.loadSize + 8 then
      match { s with localStatus := .NotFound }.checkForOpen io with
      | (true, s) => s.startLoadingWithPartial io result
      | (false, s) => some s
    else
      some (s.finishWithBytes io (if isPartial then result.drop 8 else result))

def increaseLoadSize (s : FileLoader) (size : Int) (autoLoading : Bool) : Option FileLoader :=
  if size ≤ s.loadSize then none
  else if s.fullSize < size then none
  else some { s with loadSize := size, autoLoading := autoLoading }

/-! ## Runs -/

inductive Event where
  | start (io : Io)
  | localLoaded (io : Io) (result : Bytes)
  | loadPart
  | partLoaded (io : Io) (offset : Nat) (bytes : Bytes) (size : Option Int)
  | increaseLoadSize (size : Int) (autoLoading : Bool)
  | cancel
deriving DecidableEq, Repr

def act (s : FileLoader) : Event → Option FileLoader
  | .start io => some (s.start io)
  | .localLoaded io result => s.localLoaded io result
  | .loadPart => s.loadPart
  | .partLoaded io offset bytes size => s.partLoaded io offset bytes size
  | .increaseLoadSize size autoLoading => s.increaseLoadSize size autoLoading
  | .cancel => some s.cancel

def run (s : FileLoader) (events : List Event) : Option FileLoader := events.foldlM act s

end FileLoader

end Storage

end MessengerClient
