import MessengerClient.Streaming.Reads
import MessengerClient.Lib.Runs

/-!
# MessengerClient.Streaming.Reading

The reader around the slices.  It remembers which offsets the loader was asked for and
which numbers the cache was asked for, so that a part or an answer changes the slices
only where one is awaited.  In every run over an honest loader and an honest cache no
assertion fails, and a reading that succeeds has the bytes of the file.
-/

namespace MessengerClient

namespace Streaming

/-! ## The reader -/

structure LoadedPart where
  offset : Int
  bytes : Bytes
deriving DecidableEq

namespace LoadedPart

def kFailedOffset : Int := -1

def valid (part : LoadedPart) (size : Nat) : Bool :=
  part.offset != kFailedOffset
    && (part.bytes.length == kPartSize || part.offset + part.bytes.length == size)

end LoadedPart

namespace Slices

/-- What the entry of a slice has, all of it but for the last one's rest. -/
def sliceSize (s : Slices) (index : Nat) : Nat :=
  if index + 1 < s.data.length then kInSlice else u32 (s.size - (index : Int) * kInSlice)

/-- The sizes of the entries of all slices, as the cache has them. -/
def processCachedSizes (s : Slices) (sizes : List Int) : Option Slices :=
  if sizes.length ≠ s.data.length then
    none
  else
    let data := s.data.mapIdx fun i slice =>
      { slice with
        fullInCache := slice.fullInCache || u32 (sizes.getD i 0) == s.sliceSize i }
    some { s with data := data, fullInCache := data.all (·.fullInCache) }

/-- The number whose entry has the slice: a good header has the first one behind it. -/
def entryNumber (s : Slices) (number : Nat) : Nat :=
  if number = 1 && s.isGoodHeader then 0 else number

/-- The sizes are there only where they were asked for. -/
def processSizes (s : Slices) (sizes : List Int) : Option Slices :=
  if sizes.isEmpty then some s else s.processCachedSizes sizes

end Slices

/-- `loadingOffsets` is the queue without its priorities, and `requested` are the numbers
whose entries the cache was asked for and did not send yet. -/
structure Reading where
  slices : Slices
  loadingOffsets : List Nat := []
  requested : List Nat := []
  streamingError : Bool := false
  /-- A reading succeeded: the header is declared done by who read it. -/
  served : Bool := false
deriving DecidableEq

namespace Reading

/-- The constructor, which asks for the header. -/
def new (size : Nat) (useCache : Bool) : Option Reading := do
  return { slices := ← Slices.new size useCache, requested := if useCache then [0] else [] }

def processLoadedPart (r : Reading) (part : LoadedPart) : Option Reading :=
  if r.streamingError then
    some r
  else if !part.valid r.slices.size then
    some { r with streamingError := true }
  else if part.offset < 0 || !r.loadingOffsets.contains part.offset.toNat then
    some r
  else do
    return { r with
      loadingOffsets := r.loadingOffsets.erase part.offset.toNat
      slices := ← r.slices.processPart part.offset.toNat part.bytes }

/-- The entry of the header may bring one of the first slice. -/
def processIncluded (number : Nat) (entry : ParsedCacheEntry) (s : Slices) : Option Slices :=
  match if number = 0 then entry.included else none with
  | some included => s.processCacheResult 1 included
  | none => some s

/-- One answer of the cache. -/
def processCacheResults (r : Reading) (number : Nat) (entry : ParsedCacheEntry)
    (sizes : List Int) : Option Reading :=
  if r.streamingError then
    some r
  else do
    let s ← processIncluded number entry (← r.slices.processCacheResult number entry.parts)
    let s ← s.processSizes sizes
    if number = 0 && s.isGoodHeader && entry.included.isNone then
      none
    else
      return { r with slices := s, requested := r.requested.erase number }

def readFromCache (r : Reading) (number : Nat) : Option Reading :=
  if r.slices.headerMode = .NoCache || number ≠ 0 && r.slices.headerMode = .Unknown then
    none
  else
    some { r with requested := r.requested ++ [r.slices.entryNumber number] }

def cancelLoadInRange (r : Reading) (fromOffset till : Nat) : Option Reading :=
  if fromOffset < till then
    some { r with
      loadingOffsets := r.loadingOffsets.filter fun o => !(fromOffset ≤ o && o < till) }
  else
    none

/-- What is put to the cache is not loaded any more. -/
def putToCache (r : Reading) (toCache : SerializedSlice) : Option Reading :=
  if r.slices.headerMode ≠ .NoCache && toCache.number ≥ 0 then
    if toCache.number > 0 || r.slices.isGoodHeader then
      r.cancelLoadInRange (u32 (toCache.index * kInSlice : Nat))
        (u32 ((toCache.index + 1) * kInSlice : Nat))
    else
      none
  else
    some r

def loadAtOffset (r : Reading) (offset : Nat) : Reading :=
  if r.loadingOffsets.contains offset then r
  else { r with loadingOffsets := r.loadingOffsets ++ [offset] }

def fillFromSlices (r : Reading) (offset : Nat) (buffer : Bytes) :
    Option (FillState × Bytes × Reading) := do
  let (result, buffer, s) ← r.slices.fill offset buffer
  let r := { r with slices := s }
  if result.state ≠ .Success && s.headerWontBeFilled then
    return (.Failed, buffer, { r with streamingError := true })
  else
    let r ← result.sliceNumbersFromCache.foldlM readFromCache r
    let r ← r.putToCache result.toCache
    let r := result.offsetsFromLoader.foldl loadAtOffset r
    return (result.state, buffer, { r with served := r.served || result.state == .Success })

def fill (r : Reading) (offset : Nat) (buffer : Bytes) : Option (FillState × Bytes × Reading) :=
  if r.streamingError then some (.Failed, buffer, r) else r.fillFromSlices offset buffer

def headerDone (r : Reading) : Option Reading := do
  return { r with slices := ← r.slices.headerDone false }

def stopStreaming (r : Reading) : Reading := { r with loadingOffsets := [] }

end Reading

inductive ReadingAction where
  | processLoadedPart (part : LoadedPart)
  | processCacheResults (number : Nat) (entry : ParsedCacheEntry) (sizes : List Int)
  | headerDone
  | fill (offset : Nat) (buffer : Bytes)
  /-- Another round of the loop in `fill`, after something more was received. -/
  | fillFromSlices (offset : Nat) (buffer : Bytes)
  | stopStreaming

namespace Reading

/-- What an action makes of the reader: none where an assertion fails. -/
def act (r : Reading) : ReadingAction → Option Reading
  | .processLoadedPart part => r.processLoadedPart part
  | .processCacheResults number entry sizes => r.processCacheResults number entry sizes
  | .headerDone => r.headerDone
  | .fill offset buffer => (r.fill offset buffer).map (·.2.2)
  | .fillFromSlices offset buffer => (r.fillFromSlices offset buffer).map (·.2.2)
  | .stopStreaming => some r.stopStreaming

/-! ## Honest answers -/

/-- The parts of an entry are parts of the file. -/
structure HonestEntry (F : Bytes) (number : Nat) (entry : ParsedCacheEntry) : Prop where
  parts : HonestParts F ((number - 1) * kInSlice) (pieceLimit F.length number) entry.parts
  included : ∀ included, entry.included = some included →
    HonestParts F 0 (pieceLimit F.length 1) included

/-- An entry brings the part at `o` to a slice. -/
def Brings (number : Nat) (entry : ParsedCacheEntry) (o : Nat) : Prop :=
  if number = 0 then
    o < kInSlice ∧ (entry.parts.contains o = true ∨
      ∃ included, entry.included = some included ∧ included.contains o = true)
  else
    o / kInSlice + 1 = number ∧ entry.parts.contains (o - o / kInSlice * kInSlice) = true

/-- **An answer may come** for a number that was asked for.  It brings nothing that the loader
is still to bring; one for a good header is a good header again, and does not bring again what
the first slice has. -/
structure Answers (F : Bytes) (r : Reading) (number : Nat) (entry : ParsedCacheEntry) : Prop where
  requested : number ∈ r.requested
  honest : HonestEntry F number entry
  loading : ∀ o ∈ r.loadingOffsets, ¬Brings number entry o
  parsed : number = 0 →
    entry.included.isSome = computeIsGoodHeader r.slices.size entry.parts
  good : number = 0 → r.slices.isGoodHeader = true →
    computeIsGoodHeader r.slices.size entry.parts = true
  first : number = 0 → r.slices.isGoodHeader = true → ∀ first, r.slices.data[0]? = some first →
    HeaderApart entry.parts first.parts

/-- What may happen to a reader of the file `F`. -/
def Admits (F : Bytes) (r : Reading) : ReadingAction → Prop
  | .processLoadedPart part =>
    part.valid r.slices.size = true → part.bytes = filePart F part.offset.toNat
  | .processCacheResults number entry sizes =>
    r.Answers F number entry ∧ (sizes = [] ∨ sizes.length = r.slices.data.length)
  | .headerDone => r.served = true
  | .fill offset buffer | .fillFromSlices offset buffer => r.slices.Expected offset buffer
  | .stopStreaming => True

/-- The runs of a reader of `size` bytes. -/
def system (size : Nat) (useCache : Bool) : System Reading ReadingAction where
  init r := new size useCache = some r
  step r action r' := r.act action = some r'

/-! ## The invariant of the reader -/

/-- Whatever is awaited may come. -/
structure Good (F : Bytes) (r : Reading) : Prop where
  sound : r.slices.Sound F
  opened : ∀ o ∈ r.loadingOffsets, r.slices.Open o
  nodup : r.loadingOffsets.Nodup
  idle : r.slices.headerRead = false → r.loadingOffsets = []
  requested_le : ∀ k ∈ r.requested, k ≤ r.slices.data.length
  unread : r.slices.headerRead = false → ∀ k ∈ r.requested, k = 0
  awaited : 0 ∈ r.requested → r.slices.headerRead = true → r.slices.FirstAwaited
  once : r.requested.count 0 ≤ 1
  first : 1 ∈ r.requested → r.slices.headerRead = true ∧ r.slices.headerMode ≠ .Good ∧
    r.slices.headerMode ≠ .Unknown
  served : r.served = true → r.slices.headerRead = true ∧
    (r.slices.headerMode = .Unknown → isFullInHeader r.slices.size = false →
      r.slices.header.parts ≠ ∅)

variable {F : Bytes} {r r' : Reading}

/-! ### Parts -/

theorem Good.processLoadedPart (h : r.Good F) {part : LoadedPart}
    (hpart : part.valid r.slices.size = true → part.bytes = filePart F part.offset.toNat) :
    ∃ r', r.processLoadedPart part = some r' ∧ r'.Good F := by
  rw [Reading.processLoadedPart]
  split
  · exact ⟨r, rfl, h⟩
  · split
    · exact ⟨_, rfl, { h with }⟩
    · next hvalid =>
      simp only [Bool.not_eq_true', Bool.not_eq_false] at hvalid
      split
      · exact ⟨r, rfl, h⟩
      · next hcond =>
        simp only [Bool.or_eq_true, decide_eq_true_eq, Bool.not_eq_true', not_or, Bool.not_eq_false,
          List.contains_iff_mem] at hcond
        obtain ⟨-, hmem⟩ := hcond
        have hread : r.slices.headerRead = true := by
          by_contra hnot
          rw [h.idle (Bool.of_not_eq_true hnot)] at hmem
          cases hmem
        obtain ⟨s', hs', harrived⟩ := h.sound.processPart hread (h.opened _ hmem)
        rw [hpart hvalid, hs']
        refine ⟨_, rfl, harrived.sound, fun o ho => ?_, h.nodup.erase _, fun hnot => ?_,
          fun k hk => ?_, fun hnot => ?_, fun hzero _ => harrived.first (h.awaited hzero hread),
          h.once, fun hone => ?_, fun hserved => ⟨?_, fun hmode hf => ?_⟩⟩
        · obtain ⟨hne, hold⟩ := h.nodup.mem_erase_iff.mp ho
          exact harrived.others o hne (h.opened o hold)
        · exact absurd ((harrived.kept.read.trans hread).symm.trans hnot) (by decide)
        · exact harrived.kept.length ▸ h.requested_le k hk
        · exact absurd ((harrived.kept.read.trans hread).symm.trans hnot) (by decide)
        · exact ⟨harrived.kept.read.trans hread, harrived.kept.mode ▸ (h.first hone).2⟩
        · exact harrived.kept.read.trans hread
        · rw [harrived.kept.size] at hf
          rw [harrived.kept.mode] at hmode
          rw [harrived.header hf]
          exact (h.served hserved).2 hmode hf

/-! ### The end of the header, and of the stream -/

theorem Good.headerDone (h : r.Good F) (hserved : r.served = true) :
    ∃ r', r.headerDone = some r' ∧ r'.Good F := by
  obtain ⟨hread, hne⟩ := h.served hserved
  obtain ⟨s', hs', hsound, hread', hlength, hknown, hsame, hopened⟩ := h.sound.headerDone hread hne
  simp only [Reading.headerDone, hs', Option.bind_eq_bind, Option.bind_some]
  refine ⟨_, rfl, hsound, fun o ho => hopened o (h.opened o ho), h.nodup,
    fun hnot => absurd (hread'.symm.trans hnot) (by decide),
    fun k hk => hlength ▸ h.requested_le k hk,
    fun hnot => absurd (hread'.symm.trans hnot) (by decide), fun hzero _ => ?_, h.once,
    fun hone => ?_, fun _ => ⟨hread', fun hmode => absurd hmode hknown⟩⟩
  · have hfirst := h.awaited hzero hread
    have hunknown : r.slices.headerMode ≠ .Unknown := by
      rw [hfirst.1]
      decide
    exact hsame hunknown ▸ hfirst
  · exact hsame (h.first hone).2.2 ▸ h.first hone

theorem Good.stopStreaming (h : r.Good F) : r.stopStreaming.Good F :=
  { h with
    opened := fun _ ho => absurd ho List.not_mem_nil
    nodup := List.nodup_nil
    idle := fun _ => rfl }

/-! ### Answers -/

/-- The slices with other flags for what the cache has. -/
structure Sized (s s' : Slices) : Prop where
  kept : Slices.Kept s s'
  header : s'.header = s.header
  slice : ∀ (i : Nat) slice, s.data[i]? = some slice →
    ∃ flag, s'.data[i]? = some (slice.setFull flag)

theorem sized_refl (s : Slices) : Sized s s :=
  ⟨Slices.Kept.refl s, rfl, fun _ slice hi => ⟨slice.fullInCache, hi⟩⟩

theorem processCachedSizes_spec {s : Slices} (h : s.Sound F) {sizes : List Int}
    (hlength : sizes.length = s.data.length) :
    ∃ s', s.processCachedSizes sizes = some s' ∧ s'.Sound F ∧ Sized s s' := by
  rw [Slices.processCachedSizes, if_neg (not_not.mpr hlength)]
  refine ⟨_, rfl, h.setData (List.length_mapIdx ..) fun i slice' hi => ?_,
    ⟨rfl, rfl, rfl, List.length_mapIdx ..⟩, rfl, fun i slice hi =>
      ⟨slice.fullInCache || u32 (sizes.getD i 0) == s.sliceSize i, ?_⟩⟩
  · rw [List.getElem?_mapIdx, Option.map_eq_some_iff] at hi
    obtain ⟨slice, hslice, rfl⟩ := hi
    exact (h.data i slice hslice).setFull _
  · change (s.data.mapIdx _)[i]? = _
    rw [List.getElem?_mapIdx, hi]
    rfl

theorem Sized.opened {s s' : Slices} (h : Sized s s') {o : Nat} (ho : s.Open o) : s'.Open o :=
  ho.congr h.kept (congrArg Slice.parts h.header) fun slice hi => by
    obtain ⟨flag, hi'⟩ := h.slice _ slice hi
    exact ⟨_, hi', id⟩

theorem Sized.awaited {s s' : Slices} (h : Sized s s') (hfirst : s.FirstAwaited) :
    s'.FirstAwaited := by
  obtain ⟨hmode, first, hfirst, hloading, hapart⟩ := hfirst
  obtain ⟨flag, hfirst'⟩ := h.slice 0 first hfirst
  exact ⟨h.kept.mode.trans hmode, _, hfirst', hloading, h.header ▸ hapart⟩

/-- The answers of the cache for all sizes, or none. -/
theorem sizes_spec {s : Slices} (h : s.Sound F) {sizes : List Int}
    (hsizes : sizes = [] ∨ sizes.length = s.data.length) :
    ∃ s', s.processSizes sizes = some s' ∧ s'.Sound F ∧ Sized s s' := by
  by_cases hempty : sizes = []
  · subst hempty
    exact ⟨s, rfl, h, sized_refl s⟩
  · rw [Slices.processSizes, if_neg (by simpa using hempty)]
    exact processCachedSizes_spec h (hsizes.resolve_left hempty)

/-- The state after an answer: what stays open, and what the mode may have become. -/
structure Processed (F : Bytes) (r : Reading) (number : Nat) (entry : ParsedCacheEntry)
    (s : Slices) : Prop where
  sound : s.Sound F
  size : s.size = r.slices.size
  length : s.data.length = r.slices.data.length
  read : s.headerRead = true
  mode : r.slices.headerRead = true → s.headerMode = r.slices.headerMode
  opened : ∀ o ∈ r.loadingOffsets, s.Open o
  awaited : number ≠ 0 → r.slices.FirstAwaited → s.FirstAwaited
  header : number ≠ 0 → s.header.parts = r.slices.header.parts
  included : number = 0 → s.headerMode = .Good → entry.included.isSome = true

theorem not_brings_slice {index : Nat} {entry : ParsedCacheEntry} {o : Nat}
    (h : ¬Brings (index + 1) entry o) (hplace : o / kInSlice = index) :
    entry.parts.contains (o - index * kInSlice) = false := by
  by_contra hcontains
  refine h ?_
  rw [Brings, if_neg (Nat.succ_ne_zero index)]
  exact ⟨congrArg (· + 1) hplace, hplace ▸ by simpa using hcontains⟩

theorem not_brings_header {entry : ParsedCacheEntry} {o : Nat} (h : ¬Brings 0 entry o)
    (hlt : o < kInSlice) : entry.parts.contains o = false ∧
      ∀ included, entry.included = some included → included.contains o = false := by
  rw [Brings, if_pos rfl] at h
  refine ⟨?_, fun included hincluded => ?_⟩
  · by_contra hcontains
    exact h ⟨hlt, .inl (by simpa using hcontains)⟩
  · by_contra hcontains
    exact h ⟨hlt, .inr ⟨included, hincluded, by simpa using hcontains⟩⟩

theorem Good.process_slice (h : r.Good F) {index : Nat} {entry : ParsedCacheEntry}
    (ha : r.Answers F (index + 1) entry) :
    ∃ s, r.slices.processCacheResult (index + 1) entry.parts = some s ∧
      Processed F r (index + 1) entry s := by
  have hread : r.slices.headerRead = true := by
    by_contra hnot
    exact absurd (h.unread (Bool.of_not_eq_true hnot) _ ha.requested) (Nat.succ_ne_zero index)
  have hparts := ha.honest.parts
  rw [Nat.add_sub_cancel] at hparts
  obtain ⟨s, hs, hanswered⟩ := h.sound.processSliceResult
    (Nat.lt_of_succ_le (h.requested_le _ ha.requested)) hparts fun hmode hzero => by
      subst hzero
      exact absurd hmode (h.first ha.requested).2.1
  refine ⟨s, hs, hanswered.sound, hanswered.kept.size, hanswered.kept.length,
    hanswered.kept.read.trans hread, fun _ => hanswered.kept.mode, fun o ho => ?_,
    fun _ hfirst => ?_, fun _ => congrArg Slice.parts hanswered.header,
    fun hzero => absurd hzero (Nat.succ_ne_zero index)⟩
  · exact hanswered.others o (not_brings_slice (ha.loading o ho)) (h.opened o ho)
  · obtain ⟨hmode, first, hfirst, hloading, hapart⟩ := hfirst
    have hne : 0 ≠ index := by
      rintro rfl
      exact (h.first ha.requested).2.1 hmode
    exact ⟨hanswered.kept.mode.trans hmode, first, (hanswered.rest 0 hne).trans hfirst, hloading,
      hanswered.header ▸ hapart⟩

/-- An answer for the header, the first one or one for the first slice. -/
theorem Good.process_header (h : r.Good F) {entry : ParsedCacheEntry}
    (ha : r.Answers F 0 entry) :
    ∃ s, r.slices.processCacheResult 0 entry.parts = some s ∧
      Slices.HeaderAnswered F r.slices entry.parts s := by
  have hparts : HonestParts F 0 F.length entry.parts := by
    have hparts := ha.honest.parts
    rwa [Nat.zero_sub, Nat.zero_mul] at hparts
  cases hread : r.slices.headerRead with
  | false => exact h.sound.processHeader_unread hread hparts
  | true =>
      have hfirst := h.awaited ha.requested hread
      exact h.sound.processHeader_good hfirst hparts (ha.first rfl (beq_iff_eq.mpr hfirst.1))

theorem Good.process_included (h : r.Good F) {entry : ParsedCacheEntry}
    (ha : r.Answers F 0 entry) {s : Slices}
    (hs : Slices.HeaderAnswered F r.slices entry.parts s) :
    ∃ s', processIncluded 0 entry s = some s' ∧ Processed F r 0 entry s' := by
  have hgood : s.headerMode = .Good → entry.included.isSome = true := fun hmode => by
    rw [ha.parsed rfl]
    exact (hs.good hmode).elim (fun hold => ha.good rfl (beq_iff_eq.mpr hold)) id
  have hopened : ∀ o ∈ r.loadingOffsets, s.Open o := fun o ho => by
    cases hread : r.slices.headerRead with
    | false =>
        rw [h.idle hread] at ho
        cases ho
    | true =>
        exact hs.others hread o (fun hlt => (not_brings_header (ha.loading o ho) hlt).1)
          (h.opened o ho)
  have hnever : (0 : Nat) ≠ 0 → False := fun hne => hne rfl
  rw [processIncluded, if_pos rfl]
  cases hincluded : entry.included with
  | none =>
      exact ⟨s, rfl, hs.sound, hs.size, hs.length, hs.read, hs.mode, hopened,
        fun hne => (hnever hne).elim, fun hne => (hnever hne).elim, fun _ => hgood⟩
  | some included =>
      have hf : isFullInHeader s.size = false := by
        have hcompute := ha.parsed rfl
        rw [hincluded, Option.isSome_some] at hcompute
        rw [hs.size]
        by_contra hfull
        rw [computeIsGoodHeader, if_pos (by simpa using hfull)] at hcompute
        exact absurd hcompute (by decide)
      obtain ⟨s', hs', hanswered⟩ := hs.sound.processSliceResult (hs.sound.length_pos hf)
        (by rw [Nat.zero_mul]; exact ha.honest.included included hincluded)
        fun hmode _ first hfirst _ => hs.first hmode first hfirst
      refine ⟨s', hs', hanswered.sound, hanswered.kept.size.trans hs.size,
        hanswered.kept.length.trans hs.length, hanswered.kept.read.trans hs.read,
        fun hread => hanswered.kept.mode.trans (hs.mode hread), fun o ho => ?_,
        fun hne => (hnever hne).elim, fun hne => (hnever hne).elim, fun _ hmode => ?_⟩
      · refine hanswered.others o (fun hplace => ?_) (hopened o ho)
        rw [Nat.zero_mul, Nat.sub_zero]
        exact (not_brings_header (ha.loading o ho)
          (Nat.lt_of_div_eq_zero (by decide) hplace)).2 included hincluded
      · exact hgood (hanswered.kept.mode ▸ hmode)

theorem Good.process (h : r.Good F) {number : Nat} {entry : ParsedCacheEntry}
    (ha : r.Answers F number entry) :
    ∃ s, (r.slices.processCacheResult number entry.parts).bind (processIncluded number entry) =
      some s ∧ Processed F r number entry s := by
  cases number with
  | succ index =>
      obtain ⟨s, hs, hprocessed⟩ := h.process_slice ha
      exact ⟨s, by rw [hs]; rfl, hprocessed⟩
  | zero =>
      obtain ⟨s, hs, hheader⟩ := h.process_header ha
      obtain ⟨s', hs', hprocessed⟩ := h.process_included ha hheader
      exact ⟨s', by rw [hs]; exact hs', hprocessed⟩

theorem Good.processCacheResults (h : r.Good F) {number : Nat} {entry : ParsedCacheEntry}
    {sizes : List Int} (ha : r.Answers F number entry)
    (hsizes : sizes = [] ∨ sizes.length = r.slices.data.length) :
    ∃ r', r.processCacheResults number entry sizes = some r' ∧ r'.Good F := by
  rw [Reading.processCacheResults]
  split
  · exact ⟨r, rfl, h⟩
  · obtain ⟨s, hs, hp⟩ := h.process ha
    obtain ⟨s', hs', hsound, hsized⟩ := sizes_spec hp.sound (hp.length ▸ hsizes)
    have hcheck : (decide (number = 0) && s'.isGoodHeader && entry.included.isNone) = false := by
      by_contra hnot
      simp only [Bool.not_eq_false, Bool.and_eq_true, decide_eq_true_eq] at hnot
      obtain ⟨⟨hzero, hgood⟩, hnone⟩ := hnot
      have hsome := hp.included hzero (hsized.kept.mode ▸ beq_iff_eq.mp hgood)
      rw [Option.isNone_iff_eq_none.mp hnone] at hsome
      exact absurd hsome (by decide)
    have hread' : s'.headerRead = true := hsized.kept.read.trans hp.read
    have hmem : ∀ {k : Nat}, k ∈ r.requested.erase number → k ∈ r.requested := List.mem_of_mem_erase
    refine ⟨{ r with slices := s', requested := r.requested.erase number }, ?_, hsound,
      fun o ho => hsized.opened (hp.opened o ho), h.nodup,
      fun hnot => absurd (hread'.symm.trans hnot) (by decide), fun k hk => ?_,
      fun hnot => absurd (hread'.symm.trans hnot) (by decide), fun hzero _ => ?_,
      le_trans (List.erase_sublist.count_le 0) h.once, fun hone => ?_,
      fun hserved => ⟨hread', fun hmode hf => ?_⟩⟩
    · obtain ⟨s1, hs1, hs2⟩ := Option.bind_eq_some_iff.mp hs
      simp only [Option.bind_eq_bind, hs1, hs2, hs', Option.bind_some, hcheck, Bool.false_eq_true,
        if_false]
      rfl
    · rw [hsized.kept.length, hp.length]
      exact h.requested_le k (hmem hk)
    · have hne : number ≠ 0 := by
        rintro rfl
        have hcount := List.count_pos_iff.mpr hzero
        rw [List.count_erase_self] at hcount
        have honce := h.once
        omega
      have hread : r.slices.headerRead = true := by
        by_contra hnot
        exact hne (h.unread (Bool.of_not_eq_true hnot) _ ha.requested)
      exact hsized.awaited (hp.awaited hne (h.awaited (hmem hzero) hread))
    · obtain ⟨hread, hknown⟩ := h.first (hmem hone)
      exact ⟨hread', (hsized.kept.mode.trans (hp.mode hread)) ▸ hknown⟩
    · obtain ⟨hread, hne⟩ := h.served hserved
      have hmode' : r.slices.headerMode = .Unknown :=
        ((hsized.kept.mode.trans (hp.mode hread)).symm.trans hmode)
      have hnumber : number ≠ 0 := by
        rintro rfl
        exact absurd ((h.awaited ha.requested hread).1.symm.trans hmode') (by decide)
      rw [hsized.header, hp.header hnumber]
      rw [hsized.kept.size, hp.size] at hf
      exact hne hmode' hf

/-! ### Readings -/

theorem FillStep_known {s s' : Slices} {result : FillResult} (h : Slices.FillStep F s result s')
    {k : Nat} (hk : k ∈ result.sliceNumbersFromCache) :
    s.headerMode ≠ .NoCache ∧ s.headerMode ≠ .Unknown := by
  obtain ⟨index, slice, -, -, hnot, -⟩ := h.asked k hk
  simp only [Slices.cacheNotLoaded, ne_eq, Bool.and_eq_true, decide_eq_true_eq] at hnot
  exact hnot.1

/-- The first slice of a good header is asked for with the header. -/
theorem FillStep_first {s s' : Slices} (hs : s.Sound F) {result : FillResult}
    (h : Slices.FillStep F s result s') (hgood : s.headerMode = .Good)
    (hone : 1 ∈ result.sliceNumbersFromCache) : ¬s.FirstAwaited ∧ s'.FirstAwaited := by
  obtain ⟨index, slice, hindex, hslice, hnot, hidle, hslice'⟩ := h.asked 1 hone
  obtain rfl : 0 = index := Nat.succ.inj hindex
  have hloaded : slice.loadedFromCache = false := by
    simp only [Slices.cacheNotLoaded, Bool.and_eq_true, Bool.not_eq_true'] at hnot
    exact hnot.2
  refine ⟨fun hawaited => ?_, h.kept.mode.trans hgood, _, hslice', rfl, ?_⟩
  · obtain ⟨-, first, hfirst, hloading, -⟩ := hawaited
    rw [hslice] at hfirst
    obtain rfl := Option.some.inj hfirst
    exact absurd (hidle.symm.trans hloading) (by decide)
  · rw [h.header (.inl (by rw [hgood]; decide))]
    exact (hs.data 0 slice hslice).dropped hgood rfl hloaded hidle

theorem foldlM_readFromCache (numbers : List Nat)
    (h : numbers ≠ [] → r.slices.headerMode ≠ .NoCache ∧ r.slices.headerMode ≠ .Unknown) :
    numbers.foldlM readFromCache r =
      some { r with requested := r.requested ++ numbers.map r.slices.entryNumber } := by
  induction numbers generalizing r with
  | nil => simp
  | cons k numbers ih =>
      obtain ⟨hcache, hunknown⟩ := h (List.cons_ne_nil k numbers)
      have hrest := ih (r := { r with requested := r.requested ++ [r.slices.entryNumber k] })
        fun _ => ⟨hcache, hunknown⟩
      rw [List.foldlM_cons, readFromCache, if_neg (by simp [hcache, hunknown]),
        Option.bind_eq_bind, Option.bind_some, hrest]
      simp only [List.append_assoc, List.map_cons, List.singleton_append]

theorem foldl_loadAtOffset (offsets : List Nat) (h : r.loadingOffsets.Nodup) :
    ∃ loadingOffsets, offsets.foldl loadAtOffset r = { r with loadingOffsets := loadingOffsets } ∧
      loadingOffsets.Nodup ∧ ∀ o ∈ loadingOffsets, o ∈ r.loadingOffsets ∨ o ∈ offsets := by
  induction offsets generalizing r with
  | nil => exact ⟨_, rfl, h, fun o ho => .inl ho⟩
  | cons offset offsets ih =>
      rw [List.foldl_cons, loadAtOffset]
      split
      · obtain ⟨l, heq, hnodup, hmem⟩ := ih h
        exact ⟨l, heq, hnodup, fun o ho => (hmem o ho).imp_right (List.mem_cons_of_mem offset)⟩
      · next hnew =>
        rw [List.contains_iff_mem] at hnew
        obtain ⟨l, heq, hnodup, hmem⟩ := ih (r := { r with
          loadingOffsets := r.loadingOffsets ++ [offset] })
          (List.nodup_append.mpr ⟨h, List.nodup_singleton offset, fun a ha b hb hab =>
            hnew (List.mem_singleton.mp hb ▸ hab ▸ ha)⟩)
        refine ⟨l, heq, hnodup, fun o ho => ?_⟩
        cases hmem o ho with
        | inr hin => exact .inr (List.mem_cons_of_mem offset hin)
        | inl hin =>
            cases List.mem_append.mp hin with
            | inl hold => exact .inl hold
            | inr hlast => exact .inr (List.mem_singleton.mp hlast ▸ List.mem_cons_self)

/-- The ends of a slice, in 32 bits. -/
theorem slice_ends {s : Slices} (h : s.Sound F) {index : Nat} (hindex : index < s.data.length) :
    u32 (index * kInSlice : Nat) < u32 ((index + 1) * kInSlice : Nat) := by
  have hf : isFullInHeader s.size = false := by
    by_contra hfull
    rw [h.no_slices (Bool.of_not_eq_false hfull)] at hindex
    exact absurd hindex (Nat.not_lt_zero index)
  have hcount := h.length_eq hf
  have hbound : s.size + kInSlice ≤ 2 ^ 32 := h.bound
  rw [hcount] at hindex
  rw [show kInSlice = 8388608 from rfl] at *
  rw [u32_of_lt (by omega), u32_of_lt (by omega)]
  omega

theorem putToCache_spec (h : r.slices.Sound F) {toCache : SerializedSlice}
    (hcache : 0 ≤ toCache.number → toCache.index < r.slices.data.length ∧
      (0 < toCache.number ∨ r.slices.headerMode = .Good)) :
    ∃ loadingOffsets, r.putToCache toCache = some { r with loadingOffsets := loadingOffsets } ∧
      List.Sublist loadingOffsets r.loadingOffsets := by
  rw [Reading.putToCache]
  split
  · next hcond =>
    simp only [Bool.and_eq_true, decide_eq_true_eq] at hcond
    obtain ⟨hindex, hnumber⟩ := hcache hcond.2
    rw [if_pos (by
      rw [Bool.or_eq_true, decide_eq_true_eq]
      exact hnumber.imp_right beq_iff_eq.mpr), cancelLoadInRange, if_pos (slice_ends h hindex)]
    exact ⟨_, rfl, List.filter_sublist⟩
  · exact ⟨_, rfl, List.Sublist.refl _⟩

theorem entryNumber_cases (s : Slices) (k : Nat) :
    (k = 1 ∧ s.headerMode = .Good ∧ s.entryNumber k = 0) ∨
      (¬(k = 1 ∧ s.headerMode = .Good) ∧ s.entryNumber k = k) := by
  by_cases h : k = 1 ∧ s.headerMode = .Good
  · exact .inl ⟨h.1, h.2, by simp [Slices.entryNumber, Slices.isGoodHeader, h]⟩
  · refine .inr ⟨h, ?_⟩
    rw [Slices.entryNumber, if_neg]
    rwa [Bool.and_eq_true, decide_eq_true_eq, Slices.isGoodHeader, beq_iff_eq]

/-- Only the first slice is asked for with the header. -/
theorem count_entryNumber (s : Slices) {numbers : List Nat} (hpos : ∀ k ∈ numbers, k ≠ 0)
    (hnodup : numbers.Nodup) : (numbers.map s.entryNumber).count 0 ≤ 1 := by
  rw [List.count, List.countP_map]
  refine le_trans (List.countP_mono_left fun k hk hzero => ?_)
    (List.nodup_iff_count_le_one.mp hnodup 1)
  obtain ⟨hone, -⟩ | ⟨-, hsame⟩ := entryNumber_cases s k
  · exact beq_iff_eq.mpr hone
  · exact absurd (hsame.symm.trans (beq_iff_eq.mp hzero)) (hpos k hk)

/-- What `fillFromSlices` leaves of a reading. -/
theorem Good.filled (h : r.Good F) {result : FillResult} {s' : Slices}
    (hstep : Slices.FillStep F r.slices result s')
    (hsuccess : result.state = .Success → r.slices.headerRead = true)
    (hunread : r.slices.headerRead = false → result = {}) {loadingOffsets : List Nat}
    (hnodup : loadingOffsets.Nodup)
    (hmem : ∀ o ∈ loadingOffsets, o ∈ r.loadingOffsets ∨ o ∈ result.offsetsFromLoader)
    {served : Bool} (hserved : served = true → r.served = true ∨ result.state = .Success) :
    Good F { r with
      slices := s'
      requested := r.requested ++ result.sliceNumbersFromCache.map s'.entryNumber
      loadingOffsets := loadingOffsets
      served := served } := by
  have hknown : ∀ {k : Nat}, k ∈ result.sliceNumbersFromCache →
      r.slices.headerRead = true ∧ r.slices.headerMode ≠ .Unknown := fun hk => by
    refine ⟨?_, (FillStep_known hstep hk).2⟩
    by_contra hnot
    rw [hunread (Bool.of_not_eq_true hnot)] at hk
    cases hk
  have hpos : ∀ k ∈ result.sliceNumbersFromCache, k ≠ 0 := fun k hk => by
    obtain ⟨index, -, rfl, -⟩ := hstep.asked k hk
    exact Nat.succ_ne_zero index
  -- the header is asked for again only where its first slice is not awaited
  have hzero : ∀ k ∈ result.sliceNumbersFromCache, s'.entryNumber k = 0 →
      0 ∉ r.requested ∧ s'.FirstAwaited := fun k hk hnumber => by
    obtain ⟨rfl, hmode, -⟩ | ⟨-, hsame⟩ := entryNumber_cases s' k
    · obtain ⟨hnot, hfirst⟩ := FillStep_first h.sound hstep (hstep.kept.mode.symm.trans hmode) hk
      exact ⟨fun hmem => hnot (h.awaited hmem (hknown hk).1), hfirst⟩
    · exact absurd (hsame.symm.trans hnumber) (hpos k hk)
  refine ⟨hstep.sound, fun o ho => ?_, hnodup, fun hread => ?_, fun k hk => ?_,
    fun hread k hk => ?_, fun hmemZero hread => ?_, ?_, fun hone => ?_, fun hdone => ?_⟩
  · cases hmem o ho with
    | inl hold => exact hstep.opened (h.opened o hold)
    | inr hnew => exact hstep.opened (h.sound.open_of_fresh (hstep.offsets o hnew))
  · have hread' := hstep.kept.read.symm.trans hread
    refine List.eq_nil_iff_forall_not_mem.mpr fun o ho => ?_
    have hin := hmem o ho
    rw [h.idle hread', hunread hread'] at hin
    simp at hin
  · rw [hstep.kept.length]
    cases List.mem_append.mp hk with
    | inl hold => exact h.requested_le k hold
    | inr hnew =>
        obtain ⟨k, hk', rfl⟩ := List.mem_map.mp hnew
        obtain ⟨index, slice, rfl, hslice, -⟩ := hstep.asked k hk'
        obtain ⟨-, -, heq⟩ | ⟨-, heq⟩ := entryNumber_cases s' (index + 1)
        · exact le_of_eq_of_le heq (Nat.zero_le _)
        · exact le_of_eq_of_le heq (List.getElem?_eq_some_iff.mp hslice).1
  · have hread' := hstep.kept.read.symm.trans hread
    simp only [hunread hread', List.map_nil, List.append_nil] at hk
    exact h.unread hread' k hk
  · cases List.mem_append.mp hmemZero with
    | inl hold => exact hstep.awaited h.sound (h.awaited hold (hstep.kept.read.symm.trans hread))
    | inr hnew =>
        obtain ⟨k, hk, hnumber⟩ := List.mem_map.mp hnew
        exact (hzero k hk hnumber).2
  · rw [List.count_append]
    by_cases hold : 0 ∈ r.requested
    · have hnew : (result.sliceNumbersFromCache.map s'.entryNumber).count 0 = 0 :=
        List.count_eq_zero.mpr fun hmem => by
          obtain ⟨k, hk, hnumber⟩ := List.mem_map.mp hmem
          exact (hzero k hk hnumber).1 hold
      rw [hnew]
      exact h.once
    · rw [List.count_eq_zero.mpr hold, Nat.zero_add]
      exact count_entryNumber s' hpos hstep.asked_nodup
  · rw [hstep.kept.read, hstep.kept.mode]
    cases List.mem_append.mp hone with
    | inl hold => exact h.first hold
    | inr hnew =>
        obtain ⟨k, hk, hnumber⟩ := List.mem_map.mp hnew
        obtain ⟨-, -, heq⟩ | ⟨hnot, heq⟩ := entryNumber_cases s' k
        · exact absurd (heq.symm.trans hnumber) Nat.zero_ne_one
        · exact ⟨(hknown hk).1, fun hgood =>
            hnot ⟨heq.symm.trans hnumber, hstep.kept.mode.trans hgood⟩, (hknown hk).2⟩
  · rw [hstep.kept.read, hstep.kept.mode, hstep.kept.size]
    cases hserved hdone with
    | inl hold =>
        exact ⟨(h.served hold).1, fun hmode hf => hstep.filled ((h.served hold).2 hmode hf)⟩
    | inr hnow => exact ⟨hsuccess hnow, hstep.served hnow⟩

/-- **A reading never fails an assertion**, and one that succeeds has the bytes of the
file. -/
theorem Good.fillFromSlices (h : r.Good F) {offset : Nat} {buffer : Bytes}
    (he : r.slices.Expected offset buffer) :
    ∃ state buffer' r', r.fillFromSlices offset buffer = some (state, buffer', r') ∧ r'.Good F ∧
      (state = .Success → buffer' = Slices.bytesAt F offset buffer.length) := by
  obtain ⟨result, buffer', s', hfill, hstep, hbytes, hunread⟩ := h.sound.fill he
  simp only [Reading.fillFromSlices, hfill, Option.bind_eq_bind, Option.bind_some]
  split
  · next hwont =>
    rw [Bool.and_eq_true, decide_eq_true_eq] at hwont
    have hunknown : r.slices.headerMode = .Unknown := by
      have hwont := hwont.2
      rw [Slices.headerWontBeFilled, Bool.and_eq_true, beq_iff_eq] at hwont
      exact hstep.kept.mode.symm.trans hwont.1
    have hnone : result.sliceNumbersFromCache = [] :=
      List.eq_nil_iff_forall_not_mem.mpr fun k hk => (FillStep_known hstep hk).2 hunknown
    have hgood := h.filled hstep (fun hsuccess => (hbytes hsuccess).1) hunread h.nodup
      (fun o ho => .inl ho) fun hserved => .inl hserved
    rw [hnone, List.map_nil, List.append_nil] at hgood
    exact ⟨.Failed, buffer', _, rfl, { hgood with }, fun hnot => absurd hnot (by decide)⟩
  · obtain ⟨l1, hput, hsub⟩ := putToCache_spec
      (r := { r with slices := s',
                     requested := r.requested ++ result.sliceNumbersFromCache.map s'.entryNumber })
      hstep.sound fun hnumber => by
        rw [hstep.kept.length, hstep.kept.mode]
        exact hstep.toCache hnumber
    obtain ⟨l2, hload, hnodup, hmem⟩ := foldl_loadAtOffset
      (r := { r with slices := s', loadingOffsets := l1,
                     requested := r.requested ++ result.sliceNumbersFromCache.map s'.entryNumber })
      result.offsetsFromLoader (hsub.nodup h.nodup)
    have hread := foldlM_readFromCache (r := { r with slices := s' }) result.sliceNumbersFromCache
      fun hne => by
        obtain ⟨k, hk⟩ := List.exists_mem_of_ne_nil _ hne
        rw [hstep.kept.mode]
        exact FillStep_known hstep hk
    simp only [hread, hput, hload, Option.bind_some]
    refine ⟨_, _, _, rfl, h.filled hstep (fun hsuccess => (hbytes hsuccess).1) hunread hnodup
      (fun o ho => (hmem o ho).imp_left fun hin => hsub.subset hin) fun hserved => ?_,
      fun hsuccess => (hbytes hsuccess).2⟩
    rwa [Bool.or_eq_true, beq_iff_eq] at hserved

theorem Good.fill (h : r.Good F) {offset : Nat} {buffer : Bytes}
    (he : r.slices.Expected offset buffer) :
    ∃ state buffer' r', r.fill offset buffer = some (state, buffer', r') ∧ r'.Good F ∧
      (state = .Success → buffer' = Slices.bytesAt F offset buffer.length) := by
  rw [Reading.fill]
  split
  · exact ⟨.Failed, buffer, r, rfl, h, fun hnot => absurd hnot (by decide)⟩
  · exact h.fillFromSlices he

/-! ## Every run -/

/-- Whatever may happen to a good reader keeps it good. -/
theorem Good.act (h : r.Good F) {action : ReadingAction} (ha : r.Admits F action) :
    ∃ r', r.act action = some r' ∧ r'.Good F := by
  cases action with
  | processLoadedPart part => exact h.processLoadedPart ha
  | processCacheResults number entry sizes => exact h.processCacheResults ha.1 ha.2
  | headerDone => exact h.headerDone ha
  | fill offset buffer =>
      obtain ⟨state, buffer', r', hfill, hgood, -⟩ := h.fill ha
      exact ⟨r', by rw [Reading.act, hfill]; rfl, hgood⟩
  | fillFromSlices offset buffer =>
      obtain ⟨state, buffer', r', hfill, hgood, -⟩ := h.fillFromSlices ha
      exact ⟨r', by rw [Reading.act, hfill]; rfl, hgood⟩
  | stopStreaming => exact ⟨_, rfl, h.stopStreaming⟩

/-- The constructor: all slices are empty, and nothing was read. -/
theorem slices_new {size : Nat} {useCache : Bool} {s : Slices}
    (hs : Slices.new size useCache = some s) :
    ∃ count, s = { size := size, data := List.replicate count {},
                   header := { loadingFromCache := useCache },
                   headerMode := if useCache then .Unknown else .NoCache } ∧
      (isFullInHeader size = false → slicesCount size = some count) ∧
      (isFullInHeader size = true → count = 0) := by
  rw [Slices.new] at hs
  split at hs
  · cases hs
  · cases hf : isFullInHeader size with
    | true =>
        rw [if_pos hf] at hs
        exact ⟨0, (Option.some.inj hs).symm, fun hnot => absurd hnot (by decide), fun _ => rfl⟩
    | false =>
        rw [if_neg (by rw [hf]; decide)] at hs
        obtain ⟨count, hcount, hs⟩ := Option.bind_eq_some_iff.mp hs
        exact ⟨count, (Option.some.inj hs).symm, fun _ => hcount,
          fun hnot => absurd hnot (by decide)⟩

theorem sound_new (hcount : Countable F.length) {useCache : Bool} {s : Slices}
    (hs : Slices.new F.length useCache = some s) : s.Sound F ∧ s.headerRead = !useCache := by
  obtain ⟨count, rfl, hslices, hnone⟩ := slices_new hs
  refine ⟨⟨⟨rfl, hcount, fun hf => ?_, fun hf => ?_, List.nodup_nil, by simp⟩,
    by simp [HonestParts], fun i slice hi => ?_, fun hnot => ?_, fun _ => rfl, fun _ => rfl,
    fun hknown => ?_, fun hfull => ?_⟩, ?_⟩
  · rw [List.length_replicate]
    exact hslices hf
  · rw [hnone hf]
    rfl
  · obtain rfl := List.eq_of_mem_replicate (List.mem_of_getElem? hi)
    exact {
      honest := by simp [HonestParts]
      excl := fun hloading => absurd hloading (by decide)
      idle := fun _ => ⟨rfl, rfl⟩
      changed := fun hchanged => absurd hchanged (by decide)
      unread := fun _ => rfl
      within := fun _ => headerWithin_empty
      applied := fun _ _ hloaded => absurd hloaded (by decide)
      dropped := fun _ _ _ _ => headerApart_empty }
  · cases useCache with
    | true => rfl
    | false => cases hnot
  · cases useCache <;> simp at hknown
  · cases useCache <;> simp at hfull
  · cases useCache <;> rfl

theorem good_new (hcount : Countable F.length) {useCache : Bool}
    (hr : new F.length useCache = some r) : r.Good F := by
  obtain ⟨s, hs, hr⟩ := Option.bind_eq_some_iff.mp hr
  obtain rfl := Option.some.inj hr
  obtain ⟨hsound, hread⟩ := sound_new hcount hs
  have hzero : ∀ k ∈ (if useCache then [0] else [] : List Nat), k = 0 := by
    cases useCache <;> simp
  refine ⟨hsound, fun o ho => ?_, List.nodup_nil, fun _ => rfl,
    fun k hk => le_of_eq_of_le (hzero k hk) (Nat.zero_le _), fun _ k hk => hzero k hk,
    fun hmem hnot => ?_, ?_, fun hone => absurd (hzero 1 hone) Nat.one_ne_zero,
    fun hserved => ?_⟩
  · cases ho
  · cases useCache with
    | false => cases hmem
    | true => exact absurd (hread.symm.trans hnot) (by decide)
  · cases useCache <;> simp
  · cases hserved

theorem good_of_reached (hcount : Countable F.length) {useCache : Bool}
    (hr : (system F.length useCache).Reached (Admits F) r) : r.Good F :=
  hr.invariant (fun _ hnew => good_new hcount hnew) fun _ _ _ hgood ha hstep => by
    obtain ⟨r', hr', hgood'⟩ := hgood.act ha
    obtain rfl := Option.some.inj (hr'.symm.trans hstep)
    exact hgood'

/-- **Streaming reads return the file.**  In every run over an honest loader and an honest
cache, whatever may happen next fails no assertion, and a reading that succeeds has the bytes
of the file, wherever they were in the meantime. -/
theorem reads_file (hcount : Countable F.length) {useCache : Bool}
    (hr : (system F.length useCache).Reached (Admits F) r) :
    (∀ action, r.Admits F action → ∃ r', r.act action = some r') ∧
      ∀ offset buffer buffer' r', r.slices.Expected offset buffer →
        r.fill offset buffer = some (.Success, buffer', r') ∨
          r.fillFromSlices offset buffer = some (.Success, buffer', r') →
        buffer' = Slices.bytesAt F offset buffer.length := by
  have hgood := good_of_reached hcount hr
  refine ⟨fun action ha => ?_, fun offset buffer buffer' r' he hsuccess => ?_⟩
  · obtain ⟨r', hr', -⟩ := hgood.act ha
    exact ⟨r', hr'⟩
  · cases hsuccess with
    | inl hfill =>
        obtain ⟨state, buffer'', r'', hsome, -, hbytes⟩ := hgood.fill he
        obtain ⟨rfl, heq⟩ := Prod.mk.inj (Option.some.inj (hfill.symm.trans hsome))
        obtain ⟨rfl, -⟩ := Prod.mk.inj heq
        exact hbytes rfl
    | inr hfill =>
        obtain ⟨state, buffer'', r'', hsome, -, hbytes⟩ := hgood.fillFromSlices he
        obtain ⟨rfl, heq⟩ := Prod.mk.inj (Option.some.inj (hfill.symm.trans hsome))
        obtain ⟨rfl, -⟩ := Prod.mk.inj heq
        exact hbytes rfl

/-- A reader of one byte that the cache does not have, when it waits for the loader. -/
def waitingForOne : Reading where
  slices := { size := 1, header := { loadedFromCache := true } }
  loadingOffsets := [0]

/-- The reader after the byte came. -/
def loadedOne : Reading where
  slices := { size := 1, fullInCache := true,
              header := { parts := FlatMap.emplace ∅ 0 [7], loadedFromCache := true,
                          changedSinceCache := true, fullInCache := true } }

/-- The reader of one byte as the constructor leaves it. -/
def newOne : Reading where
  slices := { size := 1, header := { loadingFromCache := true } }
  requested := [0]

theorem honestParts_empty (base limit : Nat) : HonestParts F base limit ∅ := by
  simp [HonestParts]

theorem waitingForOne_reached : (system 1 true).Reached (Admits [7]) waitingForOne := by
  have hnew : (system 1 true).Reached (Admits [7]) newOne := .init rfl
  have hanswers : newOne.Answers [7] 0 {} := {
    requested := List.mem_singleton.mpr rfl
    honest := ⟨honestParts_empty _ _, fun _ hnone => by cases hnone⟩
    loading := fun _ ho => absurd ho List.not_mem_nil
    parsed := fun _ => rfl
    good := fun _ hgood => absurd hgood (by decide)
    first := fun _ hgood => absurd hgood (by decide) }
  have hread : (system 1 true).Reached (Admits [7]) { waitingForOne with loadingOffsets := [] } :=
    .step (a := .processCacheResults 0 {} []) hnew ⟨hanswers, .inl rfl⟩ rfl
  exact .step (a := .fill 0 [0]) hread ⟨by decide, by decide, by decide⟩ rfl

/-- A byte that is not cached is waited for, and then read. -/
theorem reads_file_one : (system 1 true).Reached (Admits [7]) loadedOne ∧
    (loadedOne.fill 0 [0]).map (fun read => (read.1, read.2.1)) = some (.Success, [7]) ∧
    ∀ buffer' r', loadedOne.fill 0 [0] = some (.Success, buffer', r') → buffer' = [7] := by
  have hcount : Countable [(7 : UInt8)].length := by
    rw [Countable]
    decide
  have hr : (system 1 true).Reached (Admits [7]) loadedOne :=
    .step (a := .processLoadedPart ⟨0, [7]⟩) waitingForOne_reached (fun _ => by decide) rfl
  exact ⟨hr, by decide, fun buffer' r' hfill => (reads_file (F := [7]) hcount hr).2 0 [0]
    buffer' r' ⟨by decide, by decide, by decide⟩ (.inl hfill)⟩

end Reading

end Streaming

end MessengerClient
