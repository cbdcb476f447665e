import MessengerClient.Lib.Bytes
import MessengerClient.Lib.FlatMap

/-!
# MessengerClient.Streaming.CacheFormat

How `media/streaming/media_streaming_reader.cpp` writes a map of file parts into
one cache entry and reads it back.  An entry is either the plain bytes of parts
that follow each other from offset zero, or a counted map; only the length of the
entry tells which.

A value of type `uint32` is a `Nat`, of type `int` an `Int`; `u32` and `i32` mark
the places where the source converts.  `none` is a failed `Ensures` or `Assert`.
-/

namespace MessengerClient

namespace Streaming

def kPartSize : Nat := 128 * 1024
def kPartsInSlice : Nat := 64
def kInSlice : Nat := kPartsInSlice * kPartSize
def kMaxPartsInHeader : Nat := 64
def kMaxOnlyInHeader : Nat := 80 * kPartSize
def kPartsOutsideFirstSliceGood : Nat := 8
def kSlicesInMemory : Nat := 2

/-- 1 MB of parts are requested from cloud ahead of reading demand. -/
def kPreloadPartsAhead : Nat := 8

def kLoadFromRemoteMax : Nat := 8

abbrev PartsMap : Type := FlatMap Nat Bytes

structure ParsedCacheEntry where
  parts : PartsMap := ∅
  included : Option PartsMap := none
deriving DecidableEq

def isContiguousSerialization (serializedSize maxSliceSize : Int) : Bool :=
  serializedSize % kPartSize == 0 || serializedSize == maxSliceSize

def isFullInHeader (size : Nat) : Bool := size ≤ kMaxOnlyInHeader

def computeIsGoodHeader (size : Nat) (header : PartsMap) : Bool :=
  if isFullInHeader size then
    false
  else
    (header.filter fun e => kInSlice ≤ e.1).size ≤ kPartsOutsideFirstSliceGood

/-- The sum wraps as a `uint32`; `none` is the failed `Ensures`. -/
def slicesCount (size : Nat) : Option Nat :=
  let result := (size + kInSlice - 1) % 2 ^ 32 / kInSlice
  if result < 0x1FF then some result else none

def maxSliceSize (sliceNumber size : Nat) : Option Int :=
  if sliceNumber = 0 then
    some (i32 size)
  else do
    let count ← slicesCount size
    if sliceNumber = count then
      some (i32 (u32 (size - ((sliceNumber : Int) - 1) * kInSlice)))
    else
      some kInSlice

/-! ## Reading an entry -/

/-- `takeInt`: nothing is taken off data that is too short. -/
def takeInt (data : Bytes) : Option Nat × Bytes :=
  match readLe32 data with
  | none => (none, data)
  | some (value, rest) => (some value, rest)

def takeBytes (count : Int) (data : Bytes) : Bytes × Bytes :=
  if count ≤ 0 || data.length < count then ([], data)
  else (data.take count.toNat, data.drop count.toNat)

/-- One round of the loop of `ParseComplexCachedMap`: the entry and the data behind
it, or `none` for `return {}`. -/
def parseComplexEntry (maxSize : Nat) (data : Bytes) : Option ((Nat × Bytes) × Bytes) :=
  let (offset, data) := takeInt data
  let (size, data) := takeInt data
  let (bytes, data) := takeBytes (i32 (size.getD 0)) data
  if offset.getD 0 ≥ maxSize || size.getD 0 == 0 || size.getD 0 > maxSize
      || u32 (offset.getD 0 + size.getD 0 : Nat) > maxSize || bytes.length ≠ size.getD 0 then
    none
  else
    some ((offset.getD 0, bytes), data)

/-- The loop for the next `n` entries. -/
def parseComplexEntries (maxSize : Nat) : Nat → PartsMap → Bytes → PartsMap × Bytes
  | 0, result, data => (result, data)
  | n + 1, result, data =>
      match parseComplexEntry maxSize data with
      | none => (result, [])
      | some (e, data) => parseComplexEntries maxSize n (result.emplace e.1 e.2) data

/-- The parsed map and the data behind it. -/
def parseComplexCachedMap (result : PartsMap) (data : Bytes) (maxSize : Int) :
    PartsMap × Bytes :=
  match takeInt data with
  | (none, _) => (result, [])
  | (some count, data) =>
      if count = 0 || count > kMaxOnlyInHeader / kPartSize then (result, data)
      else parseComplexEntries (u32 maxSize) count result data

/-- The loop over contiguous data: its parts with their offsets. -/
def contiguousParts (data : Bytes) (size : Nat) : List (Nat × Bytes) :=
  (List.range ((size + kPartSize - 1) / kPartSize)).map fun i =>
    (i * kPartSize, (data.drop (i * kPartSize)).take (min kPartSize (size - i * kPartSize)))

def parseCachedMap (result : PartsMap) (data : Bytes) (maxSize : Int) : PartsMap × Bytes :=
  let size := i32 data.length
  if isContiguousSerialization size maxSize then
    if size > maxSize then (result, [])
    else (result.emplaceAll (contiguousParts data size.toNat), [])
  else
    parseComplexCachedMap result data maxSize

def parseCacheEntry (data : Bytes) (sliceNumber size : Nat) : Option ParsedCacheEntry := do
  let (parts, remaining) := parseCachedMap ∅ data (← maxSliceSize sliceNumber size)
  if sliceNumber = 0 && computeIsGoodHeader size parts then
    let (included, _) := parseCachedMap ∅ remaining (← maxSliceSize 1 size)
    return { parts := parts, included := some included }
  else
    return { parts := parts }

/-! ## Writing an entry -/

/-- Where the parts that follow each other from `offset` on end. -/
def findNotLoadedStart : List (Nat × Bytes) → Nat → Nat
  | [], result => result
  | (partStart, bytes) :: parts, result =>
      let partEnd := partStart + bytes.length
      if partStart ≤ result && partEnd ≥ result then findNotLoadedStart parts (u32 partEnd)
      else result

/-- The bytes of one part in a counted map. -/
def entryBytes (e : Nat × Bytes) : Bytes := le32 e.1 ++ le32 (u32 e.2.length) ++ e.2

def serializeComplexPartsMap (parts : PartsMap) : Bytes :=
  le32 (u32 parts.size) ++ parts.entries.flatMap entryBytes

/-- Of three lengths in a row not all are ambiguous. -/
theorem isContiguousSerialization_add_two {n : Nat} {m : Int}
    (h : isContiguousSerialization n m = true)
    (h1 : isContiguousSerialization (n + 1 : Nat) m = true) :
    isContiguousSerialization (n + 1 + 1 : Nat) m = false := by
  simp only [isContiguousSerialization, Bool.or_eq_true, beq_iff_eq, kPartSize,
    Bool.or_eq_false_iff, beq_eq_false_iff_ne] at *
  omega

/-- Make sure this data won't be taken for full continuous data. -/
def padNotContiguous (maxSize : Int) (data : Bytes) : Bytes :=
  if isContiguousSerialization data.length maxSize then padNotContiguous maxSize (data ++ [0])
  else data
termination_by
  2 * (isContiguousSerialization data.length maxSize).toNat
    + (isContiguousSerialization (data.length + 1 : Nat) maxSize).toNat
decreasing_by
  next h =>
  have hadd := isContiguousSerialization_add_two h
  rw [List.length_append, List.length_singleton, h]
  cases h1 : isContiguousSerialization (data.length + 1 : Nat) maxSize with
  | true =>
      rw [hadd h1]
      decide
  | false =>
      have hle := Bool.toNat_le (isContiguousSerialization (data.length + 1 + 1 : Nat) maxSize)
      simp only [Bool.toNat_false, Bool.toNat_true]
      omega

/-! ## Copying to a reader -/

/-- The loop of `CopyLoaded` after `filled` was reached: the bytes it writes. -/
def copyParts (till : Nat) : List (Nat × Bytes) → Nat → Option Bytes
  | [], _ => some []
  | (partStart, bytes) :: parts, filled =>
      let partEnd := u32 (partStart + bytes.length : Nat)
      let copyTill := min partEnd till
      if partStart ≤ filled && filled < copyTill then do
        let copy := (bytes.drop (filled - partStart)).take (copyTill - filled)
        return copy ++ (← copyParts till parts copyTill)
      else
        none

/-- The buffer after `CopyLoaded`: what the parts do not reach is left as it was. -/
def copyLoaded (buffer : Bytes) (parts : List (Nat × Bytes)) (offset till : Nat) :
    Option Bytes := do
  let written ← copyParts till parts offset
  return written ++ buffer.drop written.length

end Streaming

end MessengerClient
