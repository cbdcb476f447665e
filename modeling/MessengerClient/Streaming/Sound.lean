import MessengerClient.Streaming.Filling

/-!
# MessengerClient.Streaming.Sound

The invariant of `Reader::Slices` over any order of parts, cache answers and
readings, and the operations that bring data in.  A map holds honest bytes only, a
slice is never loading and loaded at once, and before the header was read from the
cache there is nothing in any map.

`Fresh s offset` is what a part has to satisfy when it arrives: its place is empty,
and when slices are read from the cache its slice was read.
-/

namespace MessengerClient

namespace Streaming

/-! ## The invariant -/

/-- What the header has of the slice at `index`, the slice has. -/
def HeaderWithin (header : PartsMap) (index : Nat) (parts : PartsMap) : Prop :=
  ∀ o, header.contains o = true → o / kInSlice = index →
    parts.contains (o - index * kInSlice) = true

/-- The first slice has nothing of what the header has. -/
def HeaderApart (header parts : PartsMap) : Prop :=
  ∀ o, header.contains o = true → o < kInSlice → parts.contains o = false

/-- What holds of the slice at `index`, with `header` the parts of the header. -/
structure SliceOk (F : Bytes) (mode : HeaderMode) (headerRead : Bool) (header : PartsMap)
    (index : Nat) (slice : Slice) : Prop where
  honest : HonestParts F (index * kInSlice) (pieceLimit F.length (index + 1)) slice.parts
  excl : slice.loadingFromCache = true → slice.loadedFromCache = false
  idle : mode = .Unknown ∨ mode = .NoCache →
    slice.loadingFromCache = false ∧ slice.loadedFromCache = false
  changed : slice.changedSinceCache = true → slice.parts ≠ ∅
  unread : headerRead = false → slice.parts = ∅
  within : mode = .Unknown → HeaderWithin header index slice.parts
  applied : mode = .Good → index = 0 → slice.loadedFromCache = true →
    HeaderWithin header 0 slice.parts
  dropped : mode = .Good → index = 0 → slice.loadedFromCache = false →
    slice.loadingFromCache = false → HeaderApart header slice.parts

/-- Sizes of which the slices can be counted in a `uint32`. -/
def Countable (size : Nat) : Prop := size + kInSlice ≤ 2 ^ 32

namespace Slices

/-- Nothing is to come from the cache for the header any more. -/
def headerRead (s : Slices) : Bool := s.headerMode == .NoCache || s.header.loadedFromCache

/-- The slices of the file `F`, and the ones that were used. -/
structure Shape (F : Bytes) (s : Slices) : Prop where
  size_eq : s.size = F.length
  bound : Countable s.size
  slices : isFullInHeader s.size = false → slicesCount s.size = some s.data.length
  no_slices : isFullInHeader s.size = true → s.data = []
  nodup : s.usedSlices.Nodup
  used_lt : ∀ i ∈ s.usedSlices, i < s.data.length

/-- The invariant of the slices of the file `F`. -/
structure Sound (F : Bytes) (s : Slices) : Prop extends Shape F s where
  header : HonestParts F 0 F.length s.header.parts
  data : ∀ i slice, s.data[i]? = some slice →
    SliceOk F s.headerMode s.headerRead s.header.parts i slice
  waits : s.headerRead = false → s.header.loadingFromCache = true
  excl : s.header.loadingFromCache = true → s.header.loadedFromCache = false
  unread : s.headerRead = false → s.header.parts = ∅
  known : s.headerMode = .Good ∨ s.headerMode = .Small →
    isFullInHeader s.size = false ∧ s.header.parts ≠ ∅
  full : s.headerMode = .Full → isFullInHeader s.size = true

/-- A part for this offset may arrive: it is not there yet, and where the first slice is to get
the parts of a good header again, it is none of them. -/
structure Open (s : Slices) (offset : Nat) : Prop where
  aligned : kPartSize ∣ offset
  inside : offset < s.size
  header : isFullInHeader s.size = true → s.header.parts.contains offset = false
  slice : isFullInHeader s.size = false → ∃ slice, s.data[offset / kInSlice]? = some slice ∧
    slice.parts.contains (offset - offset / kInSlice * kInSlice) = false
  first : s.headerMode = .Good → offset < kInSlice → s.header.parts.contains offset = false

/-- A part for this offset may be asked for: besides, its slice need not be read from the
cache. -/
structure Fresh (s : Slices) (offset : Nat) : Prop where
  aligned : kPartSize ∣ offset
  inside : offset < s.size
  header : isFullInHeader s.size = true → s.header.parts.contains offset = false
  slice : isFullInHeader s.size = false → ∃ slice, s.data[offset / kInSlice]? = some slice ∧
    slice.parts.contains (offset - offset / kInSlice * kInSlice) = false ∧
    s.cacheNotLoaded slice = false

/-- A good header is to be answered again, and its parts then go to the first slice. -/
def FirstAwaited (s : Slices) : Prop :=
  s.headerMode = .Good ∧ ∃ first, s.data[0]? = some first ∧ first.loadingFromCache = true ∧
    HeaderApart s.header.parts first.parts

end Slices

/-! ## Honest parts in a slice and in the header -/

section

variable {F : Bytes}

theorem honestParts_emplace {base limit : Nat} {parts : PartsMap}
    (h : HonestParts F base limit parts) {e : Nat × Bytes} (he : Honest F base limit e) :
    HonestParts F base limit (parts.emplace e.1 e.2) := by
  intro d hd
  cases FlatMap.mem_insertNew hd with
  | inl heq => exact heq ▸ he
  | inr hmem => exact h d hmem

theorem honestParts_emplaceAll {base limit : Nat} {parts : PartsMap}
    (h : HonestParts F base limit parts) {es : List (Nat × Bytes)}
    (hes : ∀ e ∈ es, Honest F base limit e) : HonestParts F base limit (parts.emplaceAll es) := by
  induction es generalizing parts with
  | nil => exact h
  | cons e es ih =>
      obtain ⟨he, hes⟩ := List.forall_mem_cons.mp hes
      exact ih (honestParts_emplace h he) hes

/-- The part of the file at `offset`, as its slice holds it. -/
theorem honest_in_slice {offset : Nat} (haligned : kPartSize ∣ offset)
    (hlt : offset < F.length) :
    Honest F (offset / kInSlice * kInSlice) (pieceLimit F.length (offset / kInSlice + 1))
      (offset - offset / kInSlice * kInSlice, filePart F offset) := by
  have hfloor : offset / kInSlice * kInSlice ≤ offset := Nat.div_mul_le_self ..
  refine ⟨?_, ?_, ?_⟩
  · exact Nat.dvd_sub haligned (Nat.dvd_mul_left_of_dvd ⟨kPartsInSlice, Nat.mul_comm ..⟩ _)
  · rw [pieceLimit, if_neg (Nat.succ_ne_zero _), Nat.add_sub_cancel]
    have hmod : offset < offset / kInSlice * kInSlice + kInSlice := Nat.lt_div_mul_add (by decide)
    change offset - offset / kInSlice * kInSlice < _
    omega
  · change filePart F offset = filePart F (_ + (offset - _))
    rw [Nat.add_sub_cancel' hfloor]

/-- The part of a slice, as the header holds it. -/
theorem honest_in_header {index : Nat} {e : Nat × Bytes} (hindex : index * kInSlice ≤ F.length)
    (h : Honest F (index * kInSlice) (pieceLimit F.length (index + 1)) e) :
    Honest F 0 F.length (index * kInSlice + e.1, e.2) := by
  have hle := (piece_slice F hindex).le
  have hin := h.inside
  refine ⟨?_, ?_, ?_⟩
  · exact Nat.dvd_add (Nat.dvd_mul_left_of_dvd ⟨kPartsInSlice, Nat.mul_comm ..⟩ _) h.aligned
  · change index * kInSlice + e.1 < F.length
    omega
  · rw [h.bytes, Nat.zero_add]

end

/-! ## Changing one map -/

namespace Slice

/-- The slice with one more part. -/
def withPart (slice : Slice) (e : Nat × Bytes) : Slice :=
  { slice with
    parts := slice.parts.emplace e.1 e.2
    changedSinceCache := slice.changedSinceCache || slice.loadedFromCache }

/-- The slice with another `Flag::FullInCache`. -/
def setFull (slice : Slice) (flag : Bool) : Slice := { slice with fullInCache := flag }

/-- The slice after the cache was read. -/
def withCache (slice : Slice) (data : PartsMap) : Slice :=
  { slice with
    parts := slice.parts.emplaceAll data.entries
    loadedFromCache := true
    loadingFromCache := false }

theorem processCacheData_eq {slice : Slice} (hloading : slice.loadingFromCache = true)
    (hloaded : slice.loadedFromCache = false) (data : PartsMap) :
    slice.processCacheData data = some (slice.withCache data) := by
  simp only [processCacheData, hloading, hloaded, Bool.not_false, Bool.and_self, if_true,
    withCache, Option.some.injEq, Slice.mk.injEq, and_true]
  split
  · next hempty =>
    have hparts : slice.parts = ∅ := FlatMap.entries_eq_nil_iff.mp (List.isEmpty_iff.mp hempty)
    rw [hparts, FlatMap.empty_emplaceAll_entries]
  · rfl

theorem addPart_eq {slice : Slice} {e : Nat × Bytes} (h : slice.parts.contains e.1 = false) :
    slice.addPart e.1 e.2 = some (slice.withPart e) := by
  rw [addPart, h]
  rfl

end Slice

theorem contains_emplace (parts : PartsMap) (k : Nat) (v : Bytes) (o : Nat) :
    (parts.emplace k v).contains o = (decide (o = k) || parts.contains o) := by
  rw [FlatMap.contains, FlatMap.find?_emplace]
  by_cases h : o = k
  · simp [h]
  · simp [h, FlatMap.contains]

theorem contains_emplaceAll (parts new : PartsMap) (o : Nat) :
    (parts.emplaceAll new.entries).contains o = (parts.contains o || new.contains o) := by
  rw [FlatMap.contains, FlatMap.find?_emplaceAll_entries, Option.isSome_or]
  rfl

theorem contains_emplace_ne {parts : PartsMap} {k k' : Nat} (v : Bytes) (hne : k' ≠ k)
    (h : parts.contains k' = false) : (parts.emplace k v).contains k' = false := by
  rw [contains_emplace, h, decide_eq_false hne]
  rfl

/-! ### The header and the slices -/

section

variable {header parts : PartsMap} {index : Nat}

theorem HeaderWithin.emplace (h : HeaderWithin header index parts) (k : Nat) (v : Bytes) :
    HeaderWithin header index (parts.emplace k v) := fun o ho hindex => by
  rw [contains_emplace, h o ho hindex, Bool.or_true]

theorem HeaderWithin.emplaceAll (h : HeaderWithin header index parts) (new : PartsMap) :
    HeaderWithin header index (parts.emplaceAll new.entries) := fun o ho hindex => by
  rw [contains_emplaceAll, h o ho hindex, Bool.true_or]

theorem HeaderApart.emplace (h : HeaderApart header parts) {k : Nat}
    (hk : header.contains k = false) (v : Bytes) : HeaderApart header (parts.emplace k v) := by
  intro o ho hlt
  refine contains_emplace_ne v ?_ (h o ho hlt)
  rintro rfl
  exact Bool.false_ne_true (hk.symm.trans ho)

theorem headerWithin_empty : HeaderWithin ∅ index parts := fun _ ho => absurd ho (by simp)

theorem headerApart_empty : HeaderApart header ∅ := fun _ _ _ => rfl

end

namespace SliceOk

variable {F : Bytes} {mode : HeaderMode} {answered : Bool} {header : PartsMap} {index : Nat}
  {slice : Slice}

theorem read (h : SliceOk F mode answered header index slice) :
    SliceOk F mode true header index slice :=
  { h with unread := nofun }

theorem withPart (h : SliceOk F mode true header index slice) {e : Nat × Bytes}
    (he : Honest F (index * kInSlice) (pieceLimit F.length (index + 1)) e)
    (hfirst : mode = .Good → index = 0 → slice.loadingFromCache = false →
      header.contains e.1 = false) :
    SliceOk F mode true header index (slice.withPart e) where
  honest := honestParts_emplace h.honest he
  excl := h.excl
  idle := h.idle
  changed _ := FlatMap.emplace_ne_empty slice.parts e.1 e.2
  unread := nofun
  within hmode := (h.within hmode).emplace e.1 e.2
  applied hmode hindex hloaded := (h.applied hmode hindex hloaded).emplace e.1 e.2
  dropped hmode hindex hloaded hloading :=
    (h.dropped hmode hindex hloaded hloading).emplace (hfirst hmode hindex hloading) e.2

theorem withCache (h : SliceOk F mode true header index slice) (hunknown : mode ≠ .Unknown)
    (hnoCache : mode ≠ .NoCache) {data : PartsMap}
    (hdata : HonestParts F (index * kInSlice) (pieceLimit F.length (index + 1)) data)
    (hfirst : mode = .Good → index = 0 → HeaderWithin header 0 slice.parts) :
    SliceOk F mode true header index (slice.withCache data) where
  honest := honestParts_emplaceAll h.honest hdata
  excl := nofun
  idle hidle := absurd hidle (not_or.mpr ⟨hunknown, hnoCache⟩)
  changed hchanged := FlatMap.emplaceAll_ne_empty _ (h.changed hchanged)
  unread := nofun
  within hmode := absurd hmode hunknown
  applied hmode hindex _ := (hfirst hmode hindex).emplaceAll data
  dropped _ _ := nofun

theorem setFull (h : SliceOk F mode answered header index slice) (flag : Bool) :
    SliceOk F mode answered header index (slice.setFull flag) :=
  { h with }

theorem unload (slice : Slice) (hunknown : mode ≠ .Unknown) :
    SliceOk F mode answered header index slice.unload where
  honest := by simp [HonestParts, Slice.unload]
  excl := nofun
  idle _ := ⟨rfl, rfl⟩
  changed := nofun
  unread _ := rfl
  within hmode := absurd hmode hunknown
  applied _ _ := nofun
  dropped _ _ _ _ := headerApart_empty

/-- A slice is as sound under another header where the first one is only awaited. -/
theorem awaiting (h : SliceOk F mode true header index slice) (hunknown : mode ≠ .Unknown)
    {header' : PartsMap}
    (hfirst : index = 0 → slice.loadingFromCache = true ∧ slice.loadedFromCache = false) :
    SliceOk F mode true header' index slice where
  honest := h.honest
  excl := h.excl
  idle := h.idle
  changed := h.changed
  unread := nofun
  within hmode := absurd hmode hunknown
  applied _ hindex hloaded :=
    absurd (hloaded.symm.trans (hfirst hindex).2) (by decide)
  dropped _ hindex _ hloading :=
    absurd (hloading.symm.trans (hfirst hindex).1) (by decide)

/-- A slice without flags is sound in any mode that is settled on. -/
theorem settle (h : SliceOk F .Unknown answered header index slice) (hunknown : mode ≠ .Unknown)
    (hnoCache : mode ≠ .NoCache) {header' : PartsMap} {loading loaded : Bool}
    (hflags : loading = true → loaded = false)
    (hfirst : mode = .Good → index = 0 → HeaderWithin header' 0 slice.parts ∧
      (loaded = true ∨ loading = true)) :
    SliceOk F mode answered header' index
      { slice with loadingFromCache := loading, loadedFromCache := loaded } where
  honest := h.honest
  excl := hflags
  idle hidle := absurd hidle (not_or.mpr ⟨hunknown, hnoCache⟩)
  changed := h.changed
  unread := h.unread
  within hmode := absurd hmode hunknown
  applied hmode hindex _ := (hfirst hmode hindex).1
  dropped hmode hindex hloaded hloading := by
    simp_all

end SliceOk

namespace Slices

/-! ### Replacing a slice or the header -/

/-- The slice at `index` replaced. -/
def setSlice (s : Slices) (index : Nat) (slice : Slice) (full : Bool) : Slices :=
  { s with data := s.data.set index slice, fullInCache := full }

/-- The header replaced. -/
def setHeader (s : Slices) (header : Slice) (full : Bool) : Slices :=
  { s with header := header, fullInCache := full }

section

variable (s : Slices) (index : Nat) (slice header : Slice) (full : Bool)

@[simp] theorem setSlice_size : (s.setSlice index slice full).size = s.size := rfl
@[simp] theorem setSlice_header : (s.setSlice index slice full).header = s.header := rfl
@[simp] theorem setSlice_mode : (s.setSlice index slice full).headerMode = s.headerMode := rfl
@[simp] theorem setSlice_used : (s.setSlice index slice full).usedSlices = s.usedSlices := rfl
@[simp] theorem setSlice_data :
    (s.setSlice index slice full).data = s.data.set index slice := rfl
@[simp] theorem setSlice_headerRead : (s.setSlice index slice full).headerRead = s.headerRead :=
  rfl

@[simp] theorem setHeader_size : (s.setHeader header full).size = s.size := rfl
@[simp] theorem setHeader_header : (s.setHeader header full).header = header := rfl
@[simp] theorem setHeader_mode : (s.setHeader header full).headerMode = s.headerMode := rfl
@[simp] theorem setHeader_used : (s.setHeader header full).usedSlices = s.usedSlices := rfl
@[simp] theorem setHeader_data : (s.setHeader header full).data = s.data := rfl

end

variable {F : Bytes} {s : Slices}

theorem getElem?_setSlice {data : List Slice} {index i : Nat} {slice slice' : Slice}
    (h : (data.set index slice)[i]? = some slice') :
    (i = index ∧ slice' = slice) ∨ (i ≠ index ∧ data[i]? = some slice') := by
  rw [List.getElem?_set] at h
  split at h
  · next heq =>
    split at h
    · exact .inl ⟨heq.symm, (Option.some.inj h).symm⟩
    · exact absurd h (by simp)
  · next hne => exact .inr ⟨Ne.symm hne, h⟩

theorem Shape.congr (h : s.Shape F) {s' : Slices} (hsize : s'.size = s.size)
    (hlength : s'.data.length = s.data.length) (hused : s'.usedSlices = s.usedSlices) :
    s'.Shape F where
  size_eq := hsize.trans h.size_eq
  bound := hsize ▸ h.bound
  slices hf := by
    rw [hsize] at hf ⊢
    rw [hlength]
    exact h.slices hf
  no_slices hf := by
    rw [hsize] at hf
    exact List.eq_nil_of_length_eq_zero (hlength.trans (congrArg List.length (h.no_slices hf)))
  nodup := hused ▸ h.nodup
  used_lt i hi := by
    rw [hused] at hi
    exact lt_of_lt_of_eq (h.used_lt i hi) hlength.symm

theorem Sound.setData (h : s.Sound F) {data : List Slice} {full : Bool}
    (hlength : data.length = s.data.length)
    (hdata : ∀ (i : Nat) slice, data[i]? = some slice →
      SliceOk F s.headerMode s.headerRead s.header.parts i slice) :
    { s with data := data, fullInCache := full }.Sound F where
  toShape := h.toShape.congr rfl hlength rfl
  header := h.header
  data := hdata
  waits := h.waits
  excl := h.excl
  unread := h.unread
  known := h.known
  full := h.full

theorem Sound.setSlice (h : s.Sound F) {index : Nat} {slice : Slice} {full : Bool}
    (hok : SliceOk F s.headerMode s.headerRead s.header.parts index slice) :
    (s.setSlice index slice full).Sound F := by
  refine h.setData (List.length_set ..) fun i slice' hi => ?_
  cases getElem?_setSlice hi with
  | inl heq =>
      obtain ⟨rfl, rfl⟩ := heq
      exact hok
  | inr hold => exact h.data i slice' hold.2

/-- A header that was read. -/
theorem Sound.setHeader (h : s.Sound F) {header : Slice} {full : Bool}
    (hparts : HonestParts F 0 F.length header.parts)
    (hread : s.headerMode = .NoCache ∨ header.loadedFromCache = true)
    (hexcl : header.loadingFromCache = true → header.loadedFromCache = false)
    (hknown : s.headerMode = .Good ∨ s.headerMode = .Small → header.parts ≠ ∅)
    (hdata : ∀ (i : Nat) slice, s.data[i]? = some slice →
      SliceOk F s.headerMode true header.parts i slice) :
    (s.setHeader header full).Sound F :=
  have htrue : (s.setHeader header full).headerRead = true := by
    rw [headerRead, setHeader_mode, setHeader_header]
    cases hread with
    | inl hmode => simp [hmode]
    | inr hloaded => simp [hloaded]
  { toShape := h.toShape.congr rfl rfl rfl
    header := hparts
    data := fun i slice hi => htrue ▸ hdata i slice hi
    waits := fun hf => absurd (htrue.symm.trans hf) (by decide)
    excl := hexcl
    unread := fun hf => absurd (htrue.symm.trans hf) (by decide)
    known := fun hmode => ⟨(h.known hmode).1, hknown hmode⟩
    full := h.full }

/-- What no reading changes. -/
structure Kept (s s' : Slices) : Prop where
  size : s'.size = s.size
  mode : s'.headerMode = s.headerMode
  read : s'.headerRead = s.headerRead
  length : s'.data.length = s.data.length

theorem Kept.refl (s : Slices) : Kept s s := ⟨rfl, rfl, rfl, rfl⟩

theorem Kept.trans {s1 s2 s3 : Slices} (h12 : Kept s1 s2) (h23 : Kept s2 s3) : Kept s1 s3 :=
  ⟨h23.size.trans h12.size, h23.mode.trans h12.mode, h23.read.trans h12.read,
    h23.length.trans h12.length⟩

/-- An offset stays open where the header is as it was and its slice lost no more than parts. -/
theorem Open.congr {s' : Slices} {o : Nat} (ho : s.Open o) (hkept : Kept s s')
    (hheader : s'.header.parts = s.header.parts)
    (hslice : ∀ slice, s.data[o / kInSlice]? = some slice → ∃ slice',
      s'.data[o / kInSlice]? = some slice' ∧
      (slice.parts.contains (o - o / kInSlice * kInSlice) = false →
        slice'.parts.contains (o - o / kInSlice * kInSlice) = false)) : s'.Open o where
  aligned := ho.aligned
  inside := hkept.size ▸ ho.inside
  header hf := hheader ▸ ho.header (hkept.size ▸ hf)
  slice hf := by
    obtain ⟨slice, hi, hmissing⟩ := ho.slice (hkept.size ▸ hf)
    obtain ⟨slice', hi', hsame⟩ := hslice slice hi
    exact ⟨slice', hi', hsame hmissing⟩
  first hmode := hheader ▸ ho.first (hkept.mode ▸ hmode)

/-- What may be asked for may arrive. -/
theorem Sound.open_of_fresh (h : s.Sound F) {o : Nat} (ho : s.Fresh o) : s.Open o where
  aligned := ho.aligned
  inside := ho.inside
  header := ho.header
  slice hf := by
    obtain ⟨slice, hi, hmissing, -⟩ := ho.slice hf
    exact ⟨slice, hi, hmissing⟩
  first hmode hlt := by
    obtain ⟨slice, hi, hmissing, hloaded⟩ := ho.slice (h.known (.inl hmode)).1
    have hzero : o / kInSlice = 0 := Nat.div_eq_of_lt hlt
    rw [hzero] at hi hmissing
    have hwithin := (h.data 0 slice hi).applied hmode rfl
      (by simpa [cacheNotLoaded, hmode] using hloaded)
    by_contra hheader
    exact Bool.false_ne_true (hmissing.symm.trans (hwithin o (by simpa using hheader) hzero))

theorem Shape.size_lt (h : s.Shape F) : s.size < 2 ^ 32 :=
  lt_of_lt_of_le (Nat.lt_add_of_pos_right (by decide)) h.bound

/-! ### Whether everything is loaded -/

/-- Only the flag of the slice changes. -/
theorem checkSliceFullLoaded_slice {index : Nat} {slice : Slice}
    (h : s.data[index]? = some slice) :
    ∃ flag full, s.checkSliceFullLoaded (index + 1) =
      some (s.setSlice index (slice.setFull flag) full) := by
  have hslice : s.sliceAt (index + 1) = some slice := by
    rw [sliceAt, if_neg (Nat.succ_ne_zero _), Nat.add_sub_cancel, h]
  simp only [checkSliceFullLoaded, hslice, Nat.succ_ne_zero, decide_false, Bool.false_and,
    Bool.false_eq_true, if_false, Option.bind_eq_bind, Option.bind_some, Nat.add_sub_cancel]
  exact ⟨_, _, rfl⟩

theorem checkSliceFullLoaded_header (s : Slices) :
    ∃ flag full, s.checkSliceFullLoaded 0 = some (s.setHeader (s.header.setFull flag) full) := by
  cases hf : isFullInHeader s.size with
  | false =>
      refine ⟨s.header.fullInCache, s.fullInCache, ?_⟩
      simp only [checkSliceFullLoaded, hf, Bool.not_false, Bool.and_true, decide_true, if_true]
      rfl
  | true =>
      simp only [checkSliceFullLoaded, hf, sliceAt, Bool.not_true, Bool.and_false,
        Bool.false_eq_true, if_false, if_true, Option.bind_eq_bind, Option.bind_some]
      exact ⟨_, _, rfl⟩

/-! ## A loaded part -/

theorem headerRead_iff : s.headerRead = true ↔
    s.headerMode = .NoCache ∨ s.header.loadedFromCache = true := by
  rw [headerRead, Bool.or_eq_true, beq_iff_eq]

/-- What the part at `offset` leaves behind. -/
structure Arrived (F : Bytes) (s : Slices) (offset : Nat) (s' : Slices) : Prop where
  sound : s'.Sound F
  kept : Kept s s'
  others : ∀ o, o ≠ offset → s.Open o → s'.Open o
  first : s.FirstAwaited → s'.FirstAwaited
  header : isFullInHeader s.size = false → s'.header.parts = s.header.parts

/-- Two offsets in one slice are at two places of it. -/
theorem offset_sub_ne {o offset : Nat} (hne : o ≠ offset)
    (hsame : o / kInSlice = offset / kInSlice) :
    o - o / kInSlice * kInSlice ≠ offset - offset / kInSlice * kInSlice := by
  have hfloor : o / kInSlice * kInSlice ≤ o := Nat.div_mul_le_self ..
  have hfloor' : offset / kInSlice * kInSlice ≤ offset := Nat.div_mul_le_self ..
  rw [hsame] at hfloor ⊢
  omega

theorem Sound.arrived_header (h : s.Sound F) (hread : s.headerRead = true)
    (hf : isFullInHeader s.size = true) {offset : Nat} (hopen : s.Open offset) (flag full : Bool) :
    Arrived F s offset
      (s.setHeader ((s.header.withPart (offset, filePart F offset)).setFull flag) full) := by
  have hnone : ∀ (i : Nat) slice, s.data[i]? ≠ some slice := by simp [h.no_slices hf]
  have hknown : s.headerMode ≠ .Good := fun hmode =>
    absurd ((h.known (.inl hmode)).1.symm.trans hf) (by decide)
  have hhonest : Honest F 0 F.length (offset, filePart F offset) :=
    ⟨hopen.aligned, h.size_eq ▸ hopen.inside, by rw [Nat.zero_add]⟩
  exact
    { sound := h.setHeader (honestParts_emplace h.header hhonest) (headerRead_iff.mp hread) h.excl
        (fun _ => FlatMap.emplace_ne_empty _ _ _) fun i slice hi => absurd hi (hnone i slice)
      kept := ⟨rfl, rfl, rfl, rfl⟩
      others := fun o hne ho => ⟨ho.aligned, ho.inside,
        fun hfull => contains_emplace_ne _ hne (ho.header hfull), ho.slice,
        fun hmode => absurd hmode hknown⟩
      first := fun hfirst => absurd hfirst.1 hknown
      header := fun hnot => absurd (hnot.symm.trans hf) (by decide) }

theorem Sound.arrived_slice (h : s.Sound F) (hread : s.headerRead = true) {offset : Nat}
    (hopen : s.Open offset) {slice : Slice} (hslice : s.data[offset / kInSlice]? = some slice)
    (flag full : Bool) :
    Arrived F s offset (s.setSlice (offset / kInSlice) ((slice.withPart
      (offset - offset / kInSlice * kInSlice, filePart F offset)).setFull flag) full) := by
  have hindex : offset / kInSlice < s.data.length := (List.getElem?_eq_some_iff.mp hslice).1
  have hlt : offset < F.length := h.size_eq ▸ hopen.inside
  have hok := h.data _ _ hslice
  rw [hread] at hok
  refine ⟨h.setSlice ?_, ⟨rfl, rfl, rfl, List.length_set ..⟩, fun o hne ho => ?_,
    fun hfirst => ?_, fun _ => rfl⟩
  · rw [hread]
    refine (hok.withPart (honest_in_slice hopen.aligned hlt) fun hmode hzero _ => ?_).setFull flag
    rw [hzero, Nat.zero_mul, Nat.sub_zero]
    exact hopen.first hmode (Nat.lt_of_div_eq_zero (by decide) hzero)
  · refine ho.congr ⟨rfl, rfl, rfl, List.length_set ..⟩ rfl fun other hother => ?_
    by_cases hsame : o / kInSlice = offset / kInSlice
    · rw [hsame, hslice] at hother
      obtain rfl := Option.some.inj hother
      refine ⟨_, by rw [hsame]; exact List.getElem?_set_self hindex, fun hmissing => ?_⟩
      exact contains_emplace_ne _ (offset_sub_ne hne hsame) hmissing
    · exact ⟨other, by rw [setSlice_data, List.getElem?_set_ne (Ne.symm hsame), hother], id⟩
  · obtain ⟨hmode, first, hfirst, hloading, hapart⟩ := hfirst
    by_cases hzero : offset / kInSlice = 0
    · rw [hzero] at hslice hindex ⊢
      rw [hfirst] at hslice
      obtain rfl := Option.some.inj hslice
      refine ⟨hmode, _, List.getElem?_set_self hindex, hloading, hapart.emplace ?_ _⟩
      rw [Nat.zero_mul, Nat.sub_zero]
      exact hopen.first hmode (Nat.lt_of_div_eq_zero (by decide) hzero)
    · exact ⟨hmode, first, by rw [setSlice_data, List.getElem?_set_ne hzero, hfirst], hloading,
        hapart⟩

/-- **A part may arrive where it is open.** -/
theorem Sound.processPart (h : s.Sound F) (hread : s.headerRead = true) {offset : Nat}
    (hopen : s.Open offset) :
    ∃ s' : Slices, s.processPart offset (filePart F offset) = some s' ∧ Arrived F s offset s' := by
  cases hf : isFullInHeader s.size with
  | true =>
      have hadd := Slice.addPart_eq (e := (offset, filePart F offset)) (hopen.header hf)
      obtain ⟨flag, full, hcheck⟩ := checkSliceFullLoaded_header
        (s.setHeader (s.header.withPart (offset, filePart F offset)) s.fullInCache)
      refine ⟨_, ?_, h.arrived_header hread hf hopen flag full⟩
      simp only [Slices.processPart, hf, hadd, Bool.not_true, Bool.false_and, Bool.false_eq_true,
        if_false, if_true, Option.bind_eq_bind, Option.bind_some]
      exact hcheck
  | false =>
      obtain ⟨slice, hslice, hempty⟩ := hopen.slice hf
      have hadd := Slice.addPart_eq (e := (offset - offset / kInSlice * kInSlice, filePart F offset))
        hempty
      have hindex : offset / kInSlice < s.data.length := (List.getElem?_eq_some_iff.mp hslice).1
      obtain ⟨flag, full, hcheck⟩ := checkSliceFullLoaded_slice (s := s.setSlice (offset / kInSlice)
        (slice.withPart (offset - offset / kInSlice * kInSlice, filePart F offset)) s.fullInCache)
        (List.getElem?_set_self hindex)
      refine ⟨_, ?_, h.arrived_slice hread hopen hslice flag full⟩
      simp only [Slices.processPart, hf, addPartAt, hslice, hadd, Bool.not_false, Bool.true_and,
        decide_eq_true_eq, if_neg (not_le.mpr hindex), Bool.false_eq_true, if_false,
        Option.bind_eq_bind, Option.bind_some]
      refine hcheck.trans ?_
      rw [Slices.setSlice, Slices.setSlice, Slices.setSlice, List.set_set]

/-! ## The end of the header -/

theorem computeHeaderMode_cases (s : Slices) :
    (isFullInHeader s.size = true ∧ s.computeHeaderMode = .Full) ∨
      (isFullInHeader s.size = false ∧
        (s.computeHeaderMode = .Good ∨ s.computeHeaderMode = .Small)) := by
  rw [computeHeaderMode]
  cases isFullInHeader s.size with
  | true => exact .inl ⟨rfl, if_pos rfl⟩
  | false =>
      refine .inr ⟨rfl, ?_⟩
      rw [if_neg Bool.false_ne_true]
      split
      · exact .inl rfl
      · exact .inr rfl

theorem computeHeaderMode_known (s : Slices) :
    s.computeHeaderMode ≠ .Unknown ∧ s.computeHeaderMode ≠ .NoCache := by
  obtain ⟨-, h⟩ | ⟨-, h | h⟩ := computeHeaderMode_cases s <;> rw [h] <;> decide

/-- The mode settled on, the slices replaced. -/
def settled (s : Slices) (data : List Slice) : Slices :=
  { s with headerMode := s.computeHeaderMode, data := data }

theorem headerRead_settled (hmode : s.headerMode = .Unknown) (data : List Slice) :
    (s.settled data).headerRead = s.headerRead := by
  have hnot : (s.computeHeaderMode == .NoCache) = false :=
    beq_eq_false_iff_ne.mpr (computeHeaderMode_known s).2
  simp only [headerRead, settled, hmode, hnot]
  rfl

/-- A state that would be sound but for its mode and its slices. -/
theorem Shape.settle (h : s.Shape F) (hmode : s.headerMode = .Unknown)
    (hread : s.headerRead = true) (hheader : HonestParts F 0 F.length s.header.parts)
    (hexcl : s.header.loadingFromCache = true → s.header.loadedFromCache = false)
    (hne : isFullInHeader s.size = false → s.header.parts ≠ ∅) {data : List Slice}
    (hlength : data.length = s.data.length)
    (hdata : ∀ (i : Nat) slice, data[i]? = some slice →
      SliceOk F s.computeHeaderMode true s.header.parts i slice) :
    (s.settled data).Sound F :=
  have htrue : (s.settled data).headerRead = true := (headerRead_settled hmode data).trans hread
  { toShape := h.congr rfl hlength rfl
    header := hheader
    data := fun i slice hi => htrue ▸ hdata i slice hi
    waits := fun hf => absurd (htrue.symm.trans hf) (by decide)
    excl := hexcl
    unread := fun hf => absurd (htrue.symm.trans hf) (by decide)
    known := fun hknown => by
      obtain ⟨-, hfull⟩ | ⟨hf, -⟩ := computeHeaderMode_cases s
      · change s.computeHeaderMode = .Good ∨ s.computeHeaderMode = .Small at hknown
        rw [hfull] at hknown
        exact absurd hknown (by decide)
      · exact ⟨hf, hne hf⟩
    full := fun hfull => by
      obtain ⟨hf, -⟩ | ⟨-, hgood | hsmall⟩ := computeHeaderMode_cases s
      · exact hf
      · exact absurd (hgood.symm.trans hfull) (by decide)
      · exact absurd (hsmall.symm.trans hfull) (by decide) }

theorem any_flags_eq_false (h : s.Sound F) (hmode : s.headerMode = .Unknown) :
    s.data.any (fun slice => slice.loadingFromCache || slice.loadedFromCache) = false := by
  rw [List.any_eq_false]
  intro slice hslice
  obtain ⟨i, hi⟩ := List.mem_iff_getElem?.mp hslice
  simp [(h.data i slice hi).idle (.inl hmode)]

/-- Every slice counts as read. -/
def allLoaded (data : List Slice) : List Slice :=
  data.map fun slice => { slice with loadedFromCache := true }

theorem getElem?_allLoaded {data : List Slice} {i : Nat} {slice' : Slice}
    (h : (allLoaded data)[i]? = some slice') :
    ∃ slice, data[i]? = some slice ∧ slice' = { slice with loadedFromCache := true } := by
  rw [allLoaded, List.getElem?_map, Option.map_eq_some_iff] at h
  obtain ⟨slice, hslice, rfl⟩ := h
  exact ⟨slice, hslice, rfl⟩

/-- A part that was awaited is in no header that the first slice has. -/
theorem Sound.header_eq_false (h : s.Sound F) (hmode : s.headerMode = .Unknown)
    (hf : isFullInHeader s.size = false) {o : Nat} (ho : s.Open o) :
    s.header.parts.contains o = false := by
  obtain ⟨slice, hslice, hmissing⟩ := ho.slice hf
  by_contra hheader
  exact Bool.false_ne_true (hmissing.symm.trans
    ((h.data _ slice hslice).within hmode o (by simpa using hheader) rfl))

/-- **The header may be declared done** once it holds something. -/
theorem Sound.headerDone (h : s.Sound F) (hread : s.headerRead = true)
    (hne : s.headerMode = .Unknown → isFullInHeader s.size = false → s.header.parts ≠ ∅) :
    ∃ s' : Slices, s.headerDone false = some s' ∧ s'.Sound F ∧ s'.headerRead = true ∧
      s'.data.length = s.data.length ∧ s'.headerMode ≠ .Unknown ∧
      (s.headerMode ≠ .Unknown → s' = s) ∧ ∀ o, s.Open o → s'.Open o := by
  by_cases hmode : s.headerMode = .Unknown
  · have hsome : s.headerDone false = some (s.settled (allLoaded s.data)) := by
      rw [Slices.headerDone, if_neg (not_not.mpr hmode)]
      simp only [Bool.false_eq_true, if_false, any_flags_eq_false h hmode]
      rfl
    have hsound : (s.settled (allLoaded s.data)).Sound F := by
      refine h.toShape.settle hmode hread h.header h.excl (hne hmode) (List.length_map ..)
        fun i slice' hi => ?_
      obtain ⟨slice, hslice, rfl⟩ := getElem?_allLoaded hi
      have hok := h.data i slice hslice
      rw [hmode, hread] at hok
      have hloading := (hok.idle (.inl rfl)).1
      have hflags : slice.loadingFromCache = true → true = false := fun hload =>
        absurd (hloading.symm.trans hload) (by decide)
      have hsettled : SliceOk F s.computeHeaderMode true s.header.parts i
          { slice with loadingFromCache := slice.loadingFromCache, loadedFromCache := true } :=
        hok.settle (computeHeaderMode_known s).1 (computeHeaderMode_known s).2 hflags
          fun _ hindex => ⟨hindex ▸ hok.within rfl, .inl rfl⟩
      exact hsettled
    refine ⟨_, hsome, hsound, (headerRead_settled hmode _).trans hread, List.length_map ..,
      (computeHeaderMode_known s).1, fun hnot => absurd hmode hnot,
      fun o ho => ⟨ho.aligned, ho.inside, ho.header, fun hf => ?_, fun hgood hlt => ?_⟩⟩
    · obtain ⟨slice, hslice, hmissing⟩ := ho.slice hf
      refine ⟨{ slice with loadedFromCache := true }, ?_, hmissing⟩
      change (allLoaded s.data)[o / kInSlice]? = _
      rw [allLoaded, List.getElem?_map, hslice]
      rfl
    · obtain ⟨-, hfull⟩ | ⟨hf, -⟩ := computeHeaderMode_cases s
      · exact absurd (hfull.symm.trans hgood) (by decide)
      · exact h.header_eq_false hmode hf ho
  · exact ⟨s, by rw [Slices.headerDone, if_pos hmode], h, hread, rfl, hmode, fun _ => rfl,
      fun _ ho => ho⟩

/-! ## Answers of the cache -/

theorem Sound.headerRead_of_loading (h : s.Sound F) {index : Nat} {slice : Slice}
    (hslice : s.data[index]? = some slice) (hloading : slice.loadingFromCache = true) :
    s.headerMode ≠ .Unknown ∧ s.headerMode ≠ .NoCache ∧ s.headerRead = true := by
  have hok := h.data index slice hslice
  have hnot : ¬ (s.headerMode = .Unknown ∨ s.headerMode = .NoCache) := fun hidle =>
    absurd (hloading.symm.trans (hok.idle hidle).1) (by decide)
  obtain ⟨hunknown, hnoCache⟩ := not_or.mp hnot
  refine ⟨hunknown, hnoCache, ?_⟩
  cases hread : s.headerRead with
  | true => rfl
  | false =>
      have hempty := h.unread hread
      cases hmode : s.headerMode with
      | Unknown => exact absurd hmode hunknown
      | NoCache => exact absurd hmode hnoCache
      | Small => exact absurd hempty (h.known (.inr hmode)).2
      | Good => exact absurd hempty (h.known (.inl hmode)).2
      | Full =>
          rw [h.no_slices (h.full hmode)] at hslice
          simp at hslice

/-- What an answer with `parts` for the slice at `index` leaves behind. -/
structure Answered (F : Bytes) (s : Slices) (index : Nat) (parts : PartsMap) (s' : Slices) :
    Prop where
  sound : s'.Sound F
  kept : Kept s s'
  header : s'.header = s.header
  others : ∀ o, (o / kInSlice = index → parts.contains (o - index * kInSlice) = false) →
    s.Open o → s'.Open o
  rest : ∀ i, i ≠ index → s'.data[i]? = s.data[i]?

/-- **A slice may be answered** at any time; a slice that was dropped meanwhile
ignores the answer. -/
theorem Sound.processSliceResult (h : s.Sound F) {index : Nat} (hindex : index < s.data.length)
    {parts : PartsMap}
    (hparts : HonestParts F (index * kInSlice) (pieceLimit F.length (index + 1)) parts)
    (hfirst : s.headerMode = .Good → index = 0 → ∀ first, s.data[0]? = some first →
      first.loadingFromCache = true → HeaderWithin s.header.parts 0 first.parts) :
    ∃ s' : Slices, s.processCacheResult (index + 1) parts = some s' ∧
      Answered F s index parts s' := by
  obtain ⟨slice, hslice⟩ : ∃ slice, s.data[index]? = some slice :=
    ⟨_, List.getElem?_eq_getElem hindex⟩
  have hstart :
      s.processCacheResult (index + 1) parts = s.processSliceResult (index + 1) parts := by
    rw [processCacheResult, if_neg (not_lt.mpr hindex), if_pos (Nat.succ_ne_zero _)]
  cases hloading : slice.loadingFromCache with
  | false =>
      refine ⟨s, ?_, h, Kept.refl s, rfl, fun _ _ ho => ho, fun _ _ => rfl⟩
      simp [hstart, Slices.processSliceResult, hslice, hloading]
  | true =>
      obtain ⟨hunknown, hnoCache, hread⟩ := h.headerRead_of_loading hslice hloading
      have hok := h.data index slice hslice
      have hloaded := hok.excl hloading
      obtain ⟨flag, full, hcheck⟩ := checkSliceFullLoaded_slice
        (s := s.setSlice index (slice.withCache parts) s.fullInCache)
        (List.getElem?_set_self hindex)
      have hsome : s.processCacheResult (index + 1) parts =
          some (s.setSlice index ((slice.withCache parts).setFull flag) full) := by
        simp only [hstart, Slices.processSliceResult, Nat.add_sub_cancel, hslice, hloading,
          Slice.processCacheData_eq hloading hloaded, Bool.not_true, Bool.false_eq_true, if_false,
          Option.bind_eq_bind, Option.bind_some]
        refine hcheck.trans ?_
        rw [Slices.setSlice, Slices.setSlice, Slices.setSlice, List.set_set]
      rw [hread] at hok
      refine ⟨_, hsome, h.setSlice ?_, ⟨rfl, rfl, rfl, List.length_set ..⟩, rfl,
        fun o hlacks ho => ho.congr ⟨rfl, rfl, rfl, List.length_set ..⟩ rfl fun other hother => ?_,
        fun i hne => List.getElem?_set_ne (Ne.symm hne)⟩
      · rw [hread]
        refine (hok.withCache hunknown hnoCache hparts fun hmode hzero => ?_).setFull flag
        exact hfirst hmode hzero slice (hzero ▸ hslice) hloading
      · by_cases hsame : o / kInSlice = index
        · rw [hsame, hslice] at hother
          obtain rfl := Option.some.inj hother
          refine ⟨_, by rw [hsame]; exact List.getElem?_set_self hindex, fun hmissing => ?_⟩
          rw [hsame] at hmissing ⊢
          change (slice.parts.emplaceAll parts.entries).contains _ = false
          rw [contains_emplaceAll, hmissing, hlacks hsame]
          rfl
        · exact ⟨other, by rw [setSlice_data, List.getElem?_set_ne (Ne.symm hsame), hother], id⟩

end Slices

end Streaming

end MessengerClient
