import MessengerClient.Streaming.CacheFormat

/-!
# MessengerClient.Streaming.Slices

`Reader::Slice` and `Reader::Slices` of `media/streaming/media_streaming_reader.cpp`:
the loaded parts of a file, cut into slices of 64 parts.  Parts come from the
remote loader and from cache entries; at most two slices stay in memory, the
others are written to the cache or dropped.  The parts read while the header of
the file was parsed are kept in `header` as well.

Every operation is in `Option`: `none` is a failed `Expects` or `Assert`, or an
index past the end of `_data`.
-/

namespace MessengerClient

namespace Streaming

inductive HeaderMode where
  | Unknown
  | Small
  | Good
  | Full
  | NoCache
deriving DecidableEq, Repr

inductive FillState where
  | Success
  | WaitingCache
  | WaitingRemote
  | Failed
deriving DecidableEq, Repr

structure SerializedSlice where
  number : Int := -1
  data : Bytes := []
deriving DecidableEq

def kReadFromCacheMax : Nat := 2

structure FillResult where
  sliceNumbersFromCache : List Nat := []
  offsetsFromLoader : List Nat := []
  toCache : SerializedSlice := {}
  state : FillState := .WaitingRemote
deriving DecidableEq

/-- `StackIntVector<max>::add`, when its answer is not used. -/
def stackAdd (max : Nat) (values : List Nat) (value : Nat) : List Nat :=
  if values.length < max then values ++ [value] else values

/-! ## One slice -/

structure Slice where
  parts : PartsMap := ∅
  loadingFromCache : Bool := false
  loadedFromCache : Bool := false
  changedSinceCache : Bool := false
  fullInCache : Bool := false
deriving DecidableEq

structure PrepareFillResult where
  offsetsFromLoader : List Nat := []
  /-- The entries from `start` to `finish`. -/
  range : List (Nat × Bytes) := []
  ready : Bool := true

namespace Slice

def processCacheData (slice : Slice) (data : PartsMap) : Option Slice :=
  if slice.loadingFromCache && !slice.loadedFromCache then
    let parts := if slice.parts.entries.isEmpty then data
      else slice.parts.emplaceAll data.entries
    some { slice with parts := parts, loadedFromCache := true, loadingFromCache := false }
  else
    none

def addPart (slice : Slice) (offset : Nat) (bytes : Bytes) : Option Slice :=
  if slice.parts.contains offset then
    none
  else
    some { slice with
      parts := slice.parts.emplace offset bytes
      changedSinceCache := slice.changedSinceCache || slice.loadedFromCache }

/-- The loop of `offsetsFromLoader`.  An offset of a part is skipped and any other
is added while there is room, so it ends after as many rounds as there are parts
and places. -/
def collectOffsets (till : Nat) : Nat → List (Nat × Bytes) → Nat → List Nat → List Nat
  | 0, _, _, result => result
  | rounds + 1, check, offset, result =>
      if offset = till then
        result
      else
        let check := check.dropWhile (·.1 < offset)
        if check.head?.any (·.1 = offset) then
          collectOffsets till rounds check (u32 (offset + kPartSize : Nat)) result
        else if result.length < kLoadFromRemoteMax then
          collectOffsets till rounds check (u32 (offset + kPartSize : Nat)) (result ++ [offset])
        else
          result

/-- Get up to `kLoadFromRemoteMax` not loaded parts in from-till range. -/
def offsetsFromLoader (slice : Slice) (fromOffset till : Nat) : List Nat :=
  collectOffsets till (slice.parts.size + kLoadFromRemoteMax + 1) slice.parts.entries fromOffset []

def prepareFill (slice : Slice) (fromOffset till : Nat) : PrepareFillResult :=
  let fromPartOffset := fromOffset / kPartSize * kPartSize
  let tillPart := (till + kPartSize - 1) / kPartSize
  let preloadTillOffset := (tillPart + kPreloadPartsAhead) * kPartSize
  match (slice.parts.entries.takeWhile (·.1 ≤ fromOffset)).getLast? with
  | none =>
      { ready := false
        offsetsFromLoader := slice.offsetsFromLoader fromPartOffset preloadTillOffset }
  | some start =>
      let after := slice.parts.entries.dropWhile (·.1 ≤ fromOffset)
      let range := start :: after.takeWhile (·.1 < till)
      let haveTill := findNotLoadedStart range fromPartOffset
      if haveTill < till then
        { ready := false
          offsetsFromLoader := slice.offsetsFromLoader haveTill preloadTillOffset }
      else
        { ready := true
          range := range
          offsetsFromLoader :=
            slice.offsetsFromLoader (tillPart * kPartSize) preloadTillOffset }

/-- `Slices::unloadSlice`. -/
def unload (slice : Slice) : Slice := { fullInCache := slice.fullInCache }

end Slice

/-! ## The slices of a file -/

structure Slices where
  size : Nat
  data : List Slice := []
  header : Slice := {}
  usedSlices : List Nat := []
  headerMode : HeaderMode := .Unknown
  fullInCache : Bool := false
deriving DecidableEq

namespace Slices

/-- The constructor. -/
def new (size : Nat) (useCache : Bool) : Option Slices :=
  if size = 0 then
    none
  else do
    let count ← if isFullInHeader size then some 0 else slicesCount size
    return {
      size := size
      data := List.replicate count {}
      header := { loadingFromCache := useCache }
      headerMode := if useCache then .Unknown else .NoCache }

def isGoodHeader (s : Slices) : Bool := s.headerMode == .Good

def waitingForHeaderCache (s : Slices) : Bool := s.header.loadingFromCache

def headerWontBeFilled (s : Slices) : Bool :=
  s.headerMode == .Unknown && s.header.parts.size ≥ kMaxPartsInHeader

/-- The mode that `headerDone` settles on. -/
def computeHeaderMode (s : Slices) : HeaderMode :=
  if isFullInHeader s.size then .Full
  else if computeIsGoodHeader s.size s.header.parts then .Good
  else .Small

def headerDone (s : Slices) (fromCache : Bool) : Option Slices :=
  if s.headerMode ≠ .Unknown then
    some s
  else
    let s := { s with headerMode := s.computeHeaderMode }
    if fromCache then
      some s
    else if s.data.any (fun slice => slice.loadingFromCache || slice.loadedFromCache) then
      none
    else
      some { s with data := s.data.map fun slice => { slice with loadedFromCache := true } }

/-- The header for number zero, else the slice before that number. -/
def sliceAt (s : Slices) (sliceNumber : Nat) : Option Slice :=
  if sliceNumber = 0 then some s.header else s.data[sliceNumber - 1]?

/-! ### Whether everything is loaded -/

def checkFullInCache (s : Slices) : Bool :=
  if isFullInHeader s.size then s.header.fullInCache
  else s.data.all (·.fullInCache)

/-- The parts that slice `sliceNumber` has when it is complete. -/
def fullPartsCount (s : Slices) (sliceNumber : Nat) : Nat :=
  if sliceNumber = 0 then
    (s.size + kPartSize - 1) / kPartSize
  else if sliceNumber < s.data.length then
    kPartsInSlice
  else
    (u32 (s.size - ((sliceNumber : Int) - 1) * kInSlice) + kPartSize - 1) / kPartSize

/-- The flags of a slice after its parts were counted. -/
def markFull (s : Slices) (sliceNumber : Nat) (slice : Slice) : Slice :=
  { slice with fullInCache := slice.parts.size == s.fullPartsCount sliceNumber }

def checkSliceFullLoaded (s : Slices) (sliceNumber : Nat) : Option Slices :=
  if sliceNumber = 0 && !isFullInHeader s.size then
    some s
  else do
    let slice ← s.sliceAt sliceNumber
    let marked := s.markFull sliceNumber slice
    let s' := if sliceNumber = 0 then { s with header := marked }
      else { s with data := s.data.set (sliceNumber - 1) marked }
    return { s' with
      fullInCache := if slice.fullInCache && !marked.fullInCache then false
        else if !slice.fullInCache && marked.fullInCache then s'.checkFullInCache
        else s.fullInCache }

/-! ### Results of the cache and of the loader -/

/-- `_data[index].addPart(offset, bytes)`. -/
def addPartAt (s : Slices) (index offset : Nat) (bytes : Bytes) : Option Slices := do
  let slice ← s.data[index]?
  return { s with data := s.data.set index (← slice.addPart offset bytes) }

/-- `applyWhile`: copy header parts into their slices, up to the slice `bound`. -/
def applyWhile (bound : Nat) (s : Slices) : List (Nat × Bytes) → Option Slices
  | [] => some s
  | (offset, part) :: parts =>
      let index := offset / kInSlice
      if index < bound then do
        applyWhile bound (← s.addPartAt index (offset - index * kInSlice) part) parts
      else
        some s

def applyHeaderCacheData (s : Slices) : Option Slices :=
  if s.header.parts.entries.isEmpty then
    some s
  else if s.headerMode = .Good then
    -- Always apply data to first block if it is cached in the header.
    s.applyWhile 1 s.header.parts.entries
  else if s.headerMode ≠ .Unknown then
    some s
  else if isFullInHeader s.size then
    s.headerDone true
  else do
    (← s.applyWhile s.data.length s.header.parts.entries).headerDone true

/-- `_data[0].flags |= Flag::LoadingFromCache`. -/
def markFirstLoading (s : Slices) : Option Slices := do
  let first ← s.data[0]?
  return { s with data := s.data.set 0 { first with loadingFromCache := true } }

/-- The case of `processCacheResult` for the header. -/
def processHeaderResult (s : Slices) (result : PartsMap) : Option Slices :=
  if !s.header.loadingFromCache then
    -- We could've already unloaded this slice using LRU _usedSlices.
    some s
  else do
    let s := { s with header := ← s.header.processCacheData result }
    let s ← s.checkSliceFullLoaded 0
    let s ← s.applyHeaderCacheData
    -- When we first read header we don't request the first slice.
    -- But we get it, so let's apply it anyway.
    if s.isGoodHeader then s.markFirstLoading else some s

/-- The case of `processCacheResult` for a slice. -/
def processSliceResult (s : Slices) (sliceNumber : Nat) (result : PartsMap) : Option Slices := do
  let slice ← s.data[sliceNumber - 1]?
  if !slice.loadingFromCache then
    some s
  else
    let slice ← slice.processCacheData result
    { s with data := s.data.set (sliceNumber - 1) slice }.checkSliceFullLoaded sliceNumber

def processCacheResult (s : Slices) (sliceNumber : Nat) (result : PartsMap) : Option Slices :=
  if sliceNumber > s.data.length then
    none
  else if sliceNumber ≠ 0 then
    s.processSliceResult sliceNumber result
  else if s.isGoodHeader then do
    -- We've loaded header slice because really we wanted first slice.
    let first ← s.data[0]?
    if !first.loadingFromCache then
      some s
    else
      -- So just process whole result even if we didn't want header really.
      let header := { s.header with loadingFromCache := true, loadedFromCache := false }
      { s with header := header }.processHeaderResult result
  else
    s.processHeaderResult result

def processPart (s : Slices) (offset : Nat) (bytes : Bytes) : Option Slices :=
  if !isFullInHeader s.size && offset / kInSlice ≥ s.data.length then
    none
  else if isFullInHeader s.size then do
    let s := { s with header := ← s.header.addPart offset bytes }
    s.checkSliceFullLoaded 0
  else do
    let index := offset / kInSlice
    (← s.addPartAt index (offset - index * kInSlice) bytes).checkSliceFullLoaded (index + 1)

/-! ### Unloading -/

def isNoNeedToSaveToCache (s : Slices) (purgeSlice : Nat) (slice : Slice) : Bool :=
  if s.headerMode = .NoCache then
    -- Cache is not used.
    true
  else
    -- If no data was changed we should still save first slice,
    -- if header data was changed since loading from cache.
    -- Otherwise in destructor we won't be able to unload header.
    !slice.changedSinceCache
      && (!s.isGoodHeader || purgeSlice > 0 || !s.header.changedSinceCache)

/-- `serializeAndUnloadFirstSliceNoHeader`. -/
def serializeAndUnloadFirstSliceNoHeader (s : Slices) : Option (Bytes × Slices) := do
  let first ← s.data[0]?
  if !first.loadedFromCache then
    none
  else
    let parts := s.header.parts.keys.foldl FlatMap.erase first.parts
    return (serializeComplexPartsMap parts,
      { s with data := s.data.set 0 { first with parts := parts }.unload })

/-- The header alone, or with the parts of the first slice behind it. -/
def serializeComplex (s : Slices) (writeHeaderAndSlice : Bool) (slice : Slice) :
    Option (Bytes × Slices) :=
  if writeHeaderAndSlice then do
    let (data, s) ← s.serializeAndUnloadFirstSliceNoHeader
    return (serializeComplexPartsMap slice.parts ++ data, s)
  else
    some (serializeComplexPartsMap slice.parts, s)

/-- The data of a slice with at least one part, `back` being the last. -/
def serializeData (s : Slices) (sliceNumber : Nat) (slice : Slice) (back : Nat × Bytes) :
    Option (Bytes × Slices) :=
  let writeHeaderAndSlice := s.isGoodHeader && sliceNumber == 0
  -- We always use complex serialization for header + first slice.
  let continuousTill := if writeHeaderAndSlice then 0
    else findNotLoadedStart slice.parts.entries 0
  if continuousTill > back.1 then
    -- All data is continuous.
    some (slice.parts.entries.flatMap (·.2), s)
  else do
    let (data, s) ← s.serializeComplex writeHeaderAndSlice slice
    return (padNotContiguous (← maxSliceSize sliceNumber s.size) data, s)

/-- The state after the map under `sliceNumber` was serialized. -/
def unloadSerialized (s : Slices) (sliceNumber : Nat) (slice : Slice) : Slices :=
  -- We may serialize header in the middle of streaming, if we use
  -- HeaderMode::Good and we unload first slice. We still require
  -- header data to continue working, so don't really unload the header.
  if sliceNumber = 0 then { s with header := { slice with changedSinceCache := false } }
  else { s with data := s.data.set (sliceNumber - 1) slice.unload }

/-- `serializeAndUnloadSlice`, once a good header stands in for the first slice. -/
def serializeAndUnloadNumber (s : Slices) (sliceNumber : Nat) :
    Option (SerializedSlice × Slices) := do
  let slice ← s.sliceAt sliceNumber
  -- `Assert(count > 0)`
  let back ← slice.parts.entries.getLast?
  let (data, s) ← s.serializeData sliceNumber slice back
  return ({ number := sliceNumber, data := data }, s.unloadSerialized sliceNumber slice)

def serializeAndUnloadSlice (s : Slices) (sliceNumber : Nat) :
    Option (SerializedSlice × Slices) :=
  if s.headerMode = .Unknown || s.headerMode = .NoCache || sliceNumber > s.data.length then
    none
  else
    s.serializeAndUnloadNumber (if s.isGoodHeader && sliceNumber == 1 then 0 else sliceNumber)

def serializeAndUnloadUnused (s : Slices) : Option (SerializedSlice × Slices) :=
  match s.usedSlices with
  | [] => some ({}, s)
  | purgeSlice :: rest =>
      if s.headerMode = .Unknown || s.usedSlices.length ≤ kSlicesInMemory then
        some ({}, s)
      else do
        let s := { s with usedSlices := rest }
        let slice ← s.data[purgeSlice]?
        if !slice.loadedFromCache then
          -- If the only data in this slice was from _header, just leave it.
          return ({}, s)
        else if s.isNoNeedToSaveToCache purgeSlice slice then
          return ({}, { s with data := s.data.set purgeSlice slice.unload })
        else
          s.serializeAndUnloadSlice (purgeSlice + 1)

def unloadToCache (s : Slices) : Option (SerializedSlice × Slices) :=
  if s.headerMode = .Unknown || s.headerMode = .NoCache then
    some ({}, s)
  else if s.header.changedSinceCache then
    s.serializeAndUnloadSlice 0
  else
    match s.data.findIdx? (·.changedSinceCache) with
    | some i => s.serializeAndUnloadSlice (i + 1)
    | none => some ({}, s)

/-! ### Filling a buffer -/

def markSliceUsed (s : Slices) (sliceIndex : Nat) : Slices :=
  { s with usedSlices := s.usedSlices.erase sliceIndex ++ [sliceIndex] }

def cacheNotLoaded (s : Slices) (slice : Slice) : Bool :=
  s.headerMode ≠ .NoCache && s.headerMode ≠ .Unknown && !slice.loadedFromCache

def handlePrepareResult (s : Slices) (sliceIndex : Nat) (slice : Slice)
    (prepared : PrepareFillResult) (offsets : List Nat) : List Nat :=
  if s.cacheNotLoaded slice then
    offsets
  else
    prepared.offsetsFromLoader.foldl (fun offsets offset =>
      let full := u32 (offset + sliceIndex * kInSlice : Nat)
      if offset < kInSlice && full < s.size then stackAdd kLoadFromRemoteMax offsets full
      else offsets) offsets

def handleReadFromCache (s : Slices) (result : FillResult) (sliceIndex : Nat) (slice : Slice) :
    FillResult × Slices :=
  if !s.cacheNotLoaded slice then
    (result, s)
  else if slice.loadingFromCache then
    ({ result with state := .WaitingCache }, s)
  else
    ({ result with
        sliceNumbersFromCache :=
          stackAdd kReadFromCacheMax result.sliceNumbersFromCache (sliceIndex + 1)
        state := .WaitingCache },
      { s with data := s.data.set sliceIndex { slice with loadingFromCache := true } })

def addToHeader (slice : Nat) (s : Slices) : List (Nat × Bytes) → Option Slices
  | [] => some s
  | (offset, part) :: parts =>
      let totalOffset := u32 (slice * kInSlice + offset : Nat)
      if s.headerMode = .Unknown && !s.header.parts.contains totalOffset
          && s.header.parts.size < kMaxPartsInHeader then do
        addToHeader slice { s with header := ← s.header.addPart totalOffset part } parts
      else
        addToHeader slice s parts

def fillFromHeader (s : Slices) (offset : Nat) (buffer : Bytes) :
    Option (FillResult × Bytes × Slices) :=
  let till := u32 (offset + buffer.length : Nat)
  let prepared := s.header.prepareFill offset till
  let offsets := prepared.offsetsFromLoader.foldl (fun offsets full =>
    if full < s.size then stackAdd kLoadFromRemoteMax offsets full else offsets) []
  if prepared.ready then do
    return ({ offsetsFromLoader := offsets, state := .Success },
      ← copyLoaded buffer prepared.range offset till, s)
  else
    some ({ offsetsFromLoader := offsets }, buffer, s)

/-- A part of the reading that lies in one slice: from there till there. -/
structure SliceFill where
  index : Nat
  slice : Slice
  fromOffset : Nat
  till : Nat

/-- The reading of a slice, prepared. -/
def SliceFill.prepared (f : SliceFill) : PrepareFillResult :=
  f.slice.prepareFill f.fromOffset f.till

/-- Both slices are ready: copy, and remember the header parts. -/
def copySlice (s : Slices) (f : SliceFill) (buffer : Bytes) : Option (Bytes × Slices) := do
  let s := s.markSliceUsed f.index
  let buffer ← copyLoaded buffer f.prepared.range f.fromOffset f.till
  return (buffer, ← s.addToHeader f.index f.prepared.range)

/-- The reading of `[offset, offset + buffer.size())`, cut at the slice border. -/
def sliceFills (s : Slices) (offset length : Nat) : Option (SliceFill × Option SliceFill) := do
  let till := u32 (offset + length : Nat)
  let fromSlice := offset / kInSlice
  let tillSlice := u32 (till + kInSlice - 1 : Nat) / kInSlice
  if !((fromSlice + 1 = tillSlice || fromSlice + 2 = tillSlice) && tillSlice ≤ s.data.length) then
    none
  else
    let first := SliceFill.mk fromSlice (← s.data[fromSlice]?) (offset - fromSlice * kInSlice)
      (min kInSlice (till - fromSlice * kInSlice))
    if fromSlice + 1 < tillSlice then
      let secondTill := if till > u32 ((fromSlice + 1) * kInSlice : Nat)
        then till - u32 ((fromSlice + 1) * kInSlice : Nat) else 0
      return (first, some ⟨fromSlice + 1, ← s.data[fromSlice + 1]?, 0, secondTill⟩)
    else
      return (first, none)

/-- `fill` once the header is known to be loaded and not to hold the whole file. -/
def fillFromData (s : Slices) (offset : Nat) (buffer : Bytes) :
    Option (FillResult × Bytes × Slices) := do
  match ← s.sliceFills offset buffer.length with
  | (first, none) =>
      let offsets := s.handlePrepareResult first.index first.slice first.prepared []
      if first.prepared.ready then
        let (buffer, s) ← s.copySlice first buffer
        let (toCache, s) ← s.serializeAndUnloadUnused
        return ({ offsetsFromLoader := offsets, toCache := toCache, state := .Success },
          buffer, s)
      else
        let (result, s) :=
          s.handleReadFromCache { offsetsFromLoader := offsets } first.index first.slice
        return (result, buffer, s)
  | (first, some second) =>
      let offsets := s.handlePrepareResult first.index first.slice first.prepared []
      let offsets := s.handlePrepareResult second.index second.slice second.prepared offsets
      if first.prepared.ready && second.prepared.ready then
        let (buffer, s) ← s.copySlice first buffer
        let border := first.till - first.fromOffset
        let (rest, s) ← s.copySlice second (buffer.drop border)
        let (toCache, s) ← s.serializeAndUnloadUnused
        return ({ offsetsFromLoader := offsets, toCache := toCache, state := .Success },
          buffer.take border ++ rest, s)
      else
        let (result, s) :=
          s.handleReadFromCache { offsetsFromLoader := offsets } first.index first.slice
        let (result, s) := s.handleReadFromCache result second.index second.slice
        return (result, buffer, s)

def fill (s : Slices) (offset : Nat) (buffer : Bytes) : Option (FillResult × Bytes × Slices) :=
  if buffer.isEmpty || offset ≥ s.size || offset + buffer.length > s.size
      || buffer.length > kInSlice then
    none
  else if s.headerMode ≠ .NoCache && !s.header.loadedFromCache then
    -- Waiting for initial cache query.
    if s.waitingForHeaderCache then some ({}, buffer, s) else none
  else if isFullInHeader s.size then
    s.fillFromHeader offset buffer
  else
    s.fillFromData offset buffer

end Slices

end Streaming

end MessengerClient
