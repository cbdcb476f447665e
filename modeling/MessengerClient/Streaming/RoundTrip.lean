import MessengerClient.Streaming.Parts

/-!
# MessengerClient.Streaming.RoundTrip

A cache entry is read back as it was written.  The length of an entry decides how
it is read, so everything turns on lengths: contiguous parts end at a multiple of
`kPartSize` or at the end of the file, a counted map is padded until it does
neither, and the second map behind a good header never does, because its parts
are all full.
-/

namespace MessengerClient

namespace Streaming

/-! ## Counted maps -/

/-- An entry that a counted map of `maxSize` bytes may hold. -/
structure Fits (maxSize : Nat) (e : Nat × Bytes) : Prop where
  pos : 0 < e.2.length
  lt : e.2.length < 2 ^ 31
  le : e.1 + e.2.length ≤ maxSize

theorem takeInt_le32 {x : Nat} (h : x < 2 ^ 32) (rest : Bytes) :
    takeInt (le32 x ++ rest) = (some x, rest) := by
  rw [takeInt, readLe32_le32 h]

theorem takeBytes_append (bytes rest : Bytes) (h : 0 < bytes.length) :
    takeBytes bytes.length (bytes ++ rest) = (bytes, rest) := by
  have hcond : (decide ((bytes.length : Int) ≤ 0) ||
      decide (((bytes ++ rest).length : Int) < bytes.length)) = false := by
    rw [List.length_append, Bool.or_eq_false_iff, decide_eq_false_iff_not, decide_eq_false_iff_not]
    omega
  rw [takeBytes, hcond]
  simp

theorem parseComplexEntry_append {maxSize : Nat} (hmax : maxSize < 2 ^ 32) {e : Nat × Bytes}
    (h : Fits maxSize e) (rest : Bytes) :
    parseComplexEntry maxSize (entryBytes e ++ rest) = some (e, rest) := by
  have hle := h.le
  have hpos := h.pos
  have ho : e.1 < 2 ^ 32 := by omega
  have hs : e.2.length < 2 ^ 32 := by omega
  have hsum : u32 (e.1 + e.2.length : Nat) = e.1 + e.2.length := u32_of_lt (by omega)
  have hfalse : (decide (e.1 ≥ maxSize) || e.2.length == 0 || decide (e.2.length > maxSize) ||
      decide (e.1 + e.2.length > maxSize) || decide (e.2.length ≠ e.2.length)) = false := by
    simp only [Bool.or_eq_false_iff, decide_eq_false_iff_not, beq_eq_false_iff_ne]
    omega
  rw [entryBytes, List.append_assoc, List.append_assoc, u32_of_lt hs, parseComplexEntry]
  simp only [takeInt_le32 ho, takeInt_le32 hs, Option.getD_some, i32_of_lt h.lt,
    takeBytes_append _ _ hpos, hsum, hfalse]
  rfl

/-- The entries of a counted map are read back one by one. -/
theorem parseComplexEntries_flatMap {maxSize : Nat} (hmax : maxSize < 2 ^ 32)
    (es : List (Nat × Bytes)) (h : ∀ e ∈ es, Fits maxSize e) (result : PartsMap) (rest : Bytes) :
    parseComplexEntries maxSize es.length result (es.flatMap entryBytes ++ rest) =
      (result.emplaceAll es, rest) := by
  induction es generalizing result with
  | nil => rfl
  | cons e es ih =>
      obtain ⟨he, hes⟩ := List.forall_mem_cons.mp h
      rw [List.flatMap_cons, List.length_cons, List.append_assoc, parseComplexEntries,
        parseComplexEntry_append hmax he]
      exact ih hes (result.emplace e.1 e.2)

/-- **Counted maps are read back**, with whatever stands behind them. -/
theorem parseComplexCachedMap_serialize {parts : PartsMap} {m : Int}
    (h : ∀ e ∈ parts.entries, Fits (u32 m) e)
    (hcount : parts.size ≤ kMaxOnlyInHeader / kPartSize) (rest : Bytes) :
    parseComplexCachedMap ∅ (serializeComplexPartsMap parts ++ rest) m = (parts, rest) := by
  have h80 : kMaxOnlyInHeader / kPartSize = 80 := by decide
  have hsize : parts.size < 2 ^ 32 := by omega
  rw [serializeComplexPartsMap, u32_of_lt hsize, List.append_assoc, parseComplexCachedMap,
    takeInt_le32 hsize]
  split
  · next h0 =>
    exact absurd h0 (by simp)
  · next count data heq =>
    obtain ⟨hc, hd⟩ := Prod.mk.inj heq
    obtain rfl : parts.size = count := Option.some.inj hc
    subst hd
    split
    · next h0 =>
      have hzero : parts.size = 0 := by
        simp only [Bool.or_eq_true, decide_eq_true_eq] at h0
        omega
      have hnil : parts.entries = [] := List.eq_nil_of_length_eq_zero hzero
      rw [FlatMap.entries_eq_nil_iff.mp hnil]
      rfl
    · rw [FlatMap.size, parseComplexEntries_flatMap (u32_lt m) _ h,
        FlatMap.empty_emplaceAll_entries]

/-! ## Padding -/

/-- At most two zeros are put behind the data, and the length is no longer ambiguous. -/
theorem padNotContiguous_spec (m : Int) (data : Bytes) :
    ∃ k ≤ 2, padNotContiguous m data = data ++ List.replicate k 0 ∧
      isContiguousSerialization (padNotContiguous m data).length m = false := by
  rw [padNotContiguous]
  cases h0 : isContiguousSerialization data.length m with
  | false => exact ⟨0, by omega, by simp, by simpa using h0⟩
  | true =>
      rw [if_pos rfl, padNotContiguous, List.length_append, List.length_singleton]
      cases h1 : isContiguousSerialization (data.length + 1 : Nat) m with
      | false => exact ⟨1, by omega, by simp, by simpa using h1⟩
      | true =>
          have h2 := isContiguousSerialization_add_two h0 h1
          rw [if_pos rfl, padNotContiguous]
          simp only [List.length_append, List.length_singleton, h2]
          exact ⟨2, by omega, by simp, by simpa [Int.add_assoc] using h2⟩

theorem IsPart.fits {limit : Nat} {e : Nat × Bytes} (h : IsPart limit e) : Fits limit e where
  pos := h.length_pos
  lt := lt_of_le_of_lt h.length_le (by decide)
  le := h.end_le

/-! ### Lengths of counted maps -/

theorem length_entryBytes (e : Nat × Bytes) : (entryBytes e).length = 8 + e.2.length := by
  simp only [entryBytes, List.length_append, length_le32]

theorem length_flatMap_entryBytes_le {es : List (Nat × Bytes)}
    (h : ∀ e ∈ es, e.2.length ≤ kPartSize) :
    (es.flatMap entryBytes).length ≤ es.length * (8 + kPartSize) := by
  induction es with
  | nil => simp
  | cons e es ih =>
      obtain ⟨he, hes⟩ := List.forall_mem_cons.mp h
      have htail := ih hes
      rw [List.flatMap_cons, List.length_append, length_entryBytes, List.length_cons,
        Nat.succ_mul]
      omega

theorem length_flatMap_entryBytes {es : List (Nat × Bytes)}
    (h : ∀ e ∈ es, e.2.length = kPartSize) :
    (es.flatMap entryBytes).length = es.length * (8 + kPartSize) := by
  induction es with
  | nil => simp
  | cons e es ih =>
      obtain ⟨he, hes⟩ := List.forall_mem_cons.mp h
      rw [List.flatMap_cons, List.length_append, length_entryBytes, List.length_cons,
        Nat.succ_mul, ih hes, he]
      omega

theorem length_serializeComplexPartsMap_le {parts : PartsMap}
    (h : ∀ e ∈ parts.entries, e.2.length ≤ kPartSize) :
    (serializeComplexPartsMap parts).length ≤ 4 + parts.size * (8 + kPartSize) := by
  rw [serializeComplexPartsMap, List.length_append, length_le32]
  exact Nat.add_le_add_left (length_flatMap_entryBytes_le h) 4

/-! ## Contiguous data -/

theorem length_flatMap_of_contiguous {es : List (Nat × Bytes)} {start : Nat}
    (h : Contiguous start es) {back : Nat × Bytes} (hback : es.getLast? = some back) :
    start + (es.flatMap (·.2)).length = back.1 + back.2.length := by
  induction es generalizing start with
  | nil => simp at hback
  | cons e es ih =>
      obtain ⟨rfl, htail⟩ := h
      rw [List.flatMap_cons, List.length_append, ← Nat.add_assoc]
      cases es with
      | nil =>
          obtain rfl : e = back := by simpa using hback
          simp
      | cons d es =>
          rw [List.getLast?_cons_cons] at hback
          exact ih htail hback

/-! ### Cutting the data into parts again -/

theorem contiguousParts_single {bytes : Bytes} (hpos : 0 < bytes.length)
    (hle : bytes.length ≤ kPartSize) : contiguousParts bytes bytes.length = [(0, bytes)] := by
  have hone : (bytes.length + kPartSize - 1) / kPartSize = 1 :=
    Nat.div_eq_of_lt_le (by omega) (by omega)
  rw [contiguousParts, hone]
  simp [List.range_succ, Nat.min_eq_right hle]

theorem contiguousParts_append {bytes data : Bytes} (hfull : bytes.length = kPartSize) :
    contiguousParts (bytes ++ data) (bytes.length + data.length) =
      (0, bytes) :: (contiguousParts data data.length).map fun e => (kPartSize + e.1, e.2) := by
  have hK : 0 < kPartSize := by decide
  have hcount : (bytes.length + data.length + kPartSize - 1) / kPartSize =
      (data.length + kPartSize - 1) / kPartSize + 1 := by
    rw [← Nat.add_div_right _ hK, hfull]
    congr 1
    omega
  rw [contiguousParts, hcount, List.range_succ_eq_map, List.map_cons, List.map_map,
    contiguousParts, List.map_map]
  refine congrArg₂ List.cons ?_ ?_
  · simp [← hfull]
  · refine List.map_congr_left fun i _ => ?_
    have hmul : (i + 1) * bytes.length = bytes.length + i * bytes.length := by
      rw [Nat.succ_mul, Nat.add_comm]
    simp only [Function.comp_apply, Nat.succ_eq_add_one, ← hfull]
    rw [hmul, List.drop_length_add_append, Nat.add_sub_add_left]

/-- Contiguous parts are found again in their concatenation. -/
theorem contiguousParts_flatMap {limit : Nat} {es : List (Nat × Bytes)}
    (hparts : ∀ e ∈ es, IsPart limit e) {start : Nat} (h : Contiguous start es) :
    (contiguousParts (es.flatMap (·.2)) (es.flatMap (·.2)).length).map
      (fun e => (start + e.1, e.2)) = es := by
  induction es generalizing start with
  | nil => rfl
  | cons e es ih =>
      obtain ⟨he, hes⟩ := List.forall_mem_cons.mp hparts
      obtain ⟨rfl, htail⟩ := h
      cases es with
      | nil =>
          simp [contiguousParts_single he.length_pos he.length_le]
      | cons d es =>
          have hlt : e.1 < d.1 := by
            have hpos := he.length_pos
            have hd := htail.1
            omega
          have hfull := (he.next (hes d List.mem_cons_self) hlt).1
          rw [List.flatMap_cons, List.length_append, contiguousParts_append hfull, List.map_cons,
            List.map_map]
          have hshift := ih hes htail
          rw [hfull] at hshift
          refine congrArg₂ List.cons rfl (Eq.trans (List.map_congr_left fun c _ => ?_) hshift)
          simp only [Function.comp_apply, Nat.add_assoc]

/-! ## One map -/

/-- Contiguous data is taken for contiguous, and cut into the same parts. -/
theorem parseCachedMap_contiguous {limit : Nat} (hlimit : limit < 2 ^ 31) {parts : PartsMap}
    (hparts : ∀ e ∈ parts.entries, IsPart limit e) {back : Nat × Bytes}
    (hback : parts.entries.getLast? = some back)
    (hfind : back.1 < findNotLoadedStart parts.entries 0) :
    parseCachedMap ∅ (parts.entries.flatMap (·.2)) limit = (parts, []) := by
  have hcont := contiguous_of_findNotLoadedStart (by omega) hparts parts.sorted
    (fun _ _ => Nat.zero_le _) hback hfind
  have hlen := length_flatMap_of_contiguous hcont hback
  have hpart := hparts back (List.mem_of_getLast? hback)
  have hend := hpart.end_le
  have hzero : (fun e : Nat × Bytes => (0 + e.1, e.2)) = id := funext fun e => by simp
  have hcut := contiguousParts_flatMap hparts hcont
  rw [hzero, List.map_id] at hcut
  generalize parts.entries.flatMap (·.2) = data at *
  have hsize : i32 data.length = data.length := i32_of_lt (by omega)
  have hserial : isContiguousSerialization data.length limit = true := by
    rw [isContiguousSerialization, Bool.or_eq_true, beq_iff_eq, beq_iff_eq]
    cases Nat.lt_or_ge (back.1 + back.2.length) limit with
    | inl hlt =>
        have hfull := hpart.length_eq hlt
        have haligned := hpart.aligned
        simp only [kPartSize] at *
        omega
    | inr hge => omega
  have hnot : ¬ ((data.length : Int) > limit) := by omega
  unfold parseCachedMap
  dsimp only
  rw [hsize, if_pos hserial, if_neg hnot, Int.toNat_natCast, hcut,
    FlatMap.empty_emplaceAll_entries]

/-- A counted map whose length is not ambiguous is taken for a counted map. -/
theorem parseCachedMap_complex {m : Int} {parts : PartsMap}
    (hparts : ∀ e ∈ parts.entries, IsPart (u32 m) e)
    (hcount : parts.size ≤ kMaxOnlyInHeader / kPartSize) {rest : Bytes}
    (hrest : rest.length < 2 ^ 30)
    (hserial : isContiguousSerialization (serializeComplexPartsMap parts ++ rest).length m = false) :
    parseCachedMap ∅ (serializeComplexPartsMap parts ++ rest) m = (parts, rest) := by
  have hlen := length_serializeComplexPartsMap_le fun e he => (hparts e he).length_le
  have hsize : i32 (serializeComplexPartsMap parts ++ rest).length =
      (serializeComplexPartsMap parts ++ rest).length := by
    refine i32_of_lt ?_
    rw [List.length_append]
    simp only [kMaxOnlyInHeader, kPartSize] at *
    omega
  unfold parseCachedMap
  dsimp only
  rw [hsize, if_neg (by rw [hserial]; exact Bool.false_ne_true)]
  exact parseComplexCachedMap_serialize (fun e he => (hparts e he).fits) hcount rest

/-! ## The entry of a slice -/

namespace Slices

/-- The state of the slices as `serializeAndUnloadSlice` finds it: the maps hold
parts of the file, at most `kMaxPartsInHeader` of them in a header that does not
hold the whole file, and the mode is the one that `headerDone` settled on. -/
structure CacheReady (s : Slices) : Prop where
  size_lt : s.size < 2 ^ 32
  slices : isFullInHeader s.size = false → slicesCount s.size = some s.data.length
  no_slices : isFullInHeader s.size = true → s.data = []
  mode : s.headerMode = s.computeHeaderMode
  header : ∀ e ∈ s.header.parts.entries, IsPart s.size e
  header_size : isFullInHeader s.size = false → s.header.parts.size ≤ kMaxPartsInHeader
  parts : ∀ i slice, s.data[i]? = some slice →
    ∀ e ∈ slice.parts.entries, IsPart (pieceLimit s.size (i + 1)) e

/-- What the entry for `sliceNumber` has to hold, and under which number. -/
def toStore (s : Slices) (sliceNumber : Nat) : Option (Nat × ParsedCacheEntry) :=
  if s.isGoodHeader && sliceNumber ≤ 1 then
    s.data[0]?.map fun first =>
      (0, { parts := s.header.parts
            included := some (first.parts.filter fun e => !s.header.parts.contains e.1) })
  else
    (s.sliceAt sliceNumber).map fun slice => (sliceNumber, { parts := slice.parts })

namespace CacheReady

variable {s : Slices}

theorem isGoodHeader_eq (h : s.CacheReady) :
    s.isGoodHeader = computeIsGoodHeader s.size s.header.parts := by
  rw [isGoodHeader, h.mode, computeHeaderMode]
  cases hf : isFullInHeader s.size with
  | true => simp [computeIsGoodHeader, hf]
  | false => cases computeIsGoodHeader s.size s.header.parts <;> simp

theorem mode_known (h : s.CacheReady) :
    s.headerMode ≠ .Unknown ∧ s.headerMode ≠ .NoCache := by
  rw [h.mode, computeHeaderMode]
  split
  · decide
  · split <;> decide

theorem hasEntry (h : s.CacheReady) {number : Nat} (hle : number ≤ s.data.length) :
    HasEntry s.size number := by
  cases hf : isFullInHeader s.size with
  | true =>
      rw [h.no_slices hf] at hle
      exact .inl (Nat.le_zero.mp hle)
  | false => exact .inr ⟨_, h.slices hf, hle⟩

/-- The parts of an entry are few enough for a counted map. -/
theorem size_le (h : s.CacheReady) {number : Nat} {parts : PartsMap}
    (hparts : ∀ e ∈ parts.entries, IsPart (pieceLimit s.size number) e)
    (hheader : number = 0 → parts = s.header.parts) :
    parts.size ≤ kMaxOnlyInHeader / kPartSize := by
  have h80 : kMaxOnlyInHeader / kPartSize = 80 := by decide
  rw [h80]
  cases hf : isFullInHeader s.size with
  | true =>
      refine size_le_of_isPart hparts ?_
      have hfull : s.size ≤ 80 * kPartSize := of_decide_eq_true hf
      rw [pieceLimit]
      split <;> omega
  | false =>
      cases Nat.eq_zero_or_pos number with
      | inl h0 =>
          rw [hheader h0]
          exact le_trans (h.header_size hf) (by decide)
      | inr hpos =>
          have hlimit : pieceLimit s.size number ≤ kPartsInSlice * kPartSize :=
            pieceLimit_le_of_pos (by omega)
          exact le_trans (size_le_of_isPart hparts hlimit) (by decide)

/-- A header without holes has no parts outside of the first slice. -/
theorem isGoodHeader_of_contiguous (h : s.CacheReady) (hf : isFullInHeader s.size = false)
    (hcont : Contiguous 0 s.header.parts.entries) : s.isGoodHeader = true := by
  have hlt := lt_of_contiguous h.header hcont
  have hsize : s.header.parts.entries.length ≤ kMaxPartsInHeader := h.header_size hf
  have hnil : s.header.parts.entries.filter (fun e => kInSlice ≤ e.1) = [] := by
    refine List.filter_eq_nil_iff.mpr fun e he hge => ?_
    have hge : kInSlice ≤ e.1 := of_decide_eq_true hge
    have hltE := hlt e he
    simp only [kInSlice, kPartsInSlice, kPartSize, kMaxPartsInHeader] at *
    omega
  rw [h.isGoodHeader_eq, computeIsGoodHeader, hf]
  simp [FlatMap.size, FlatMap.filter, hnil]

end CacheReady

/-! ### A map alone -/

theorem parseCacheEntry_plain {data rest : Bytes} {number size : Nat} {m : Int} {parts : PartsMap}
    (hm : maxSliceSize number size = some m) (hparse : parseCachedMap ∅ data m = (parts, rest))
    (hplain : (decide (number = 0) && computeIsGoodHeader size parts) = false) :
    parseCacheEntry data number size = some { parts := parts } := by
  simp only [parseCacheEntry, hm, Option.bind_eq_bind, Option.bind_some, hparse, hplain]
  rfl

/-- The bytes of a single map are read back. -/
theorem serializeData_plain {s : Slices} (h : s.CacheReady) {number : Nat}
    (hle : number ≤ s.data.length) {slice : Slice}
    (hparts : ∀ e ∈ slice.parts.entries, IsPart (pieceLimit s.size number) e)
    (hheader : number = 0 → slice = s.header)
    (hplain : (s.isGoodHeader && number == 0) = false) {back : Nat × Bytes}
    (hback : slice.parts.entries.getLast? = some back) :
    ∃ data, s.serializeData number slice back = some (data, s) ∧
      ∃ m rest, maxSliceSize number s.size = some m ∧
        parseCachedMap ∅ data m = (slice.parts, rest) := by
  obtain ⟨m, hm, hu, hi⟩ := maxSliceSize_spec h.size_lt (h.hasEntry hle)
  have hlimit : pieceLimit s.size number < 2 ^ 32 := hu ▸ u32_lt m
  simp only [serializeData, hplain, Bool.false_eq_true, if_false]
  split
  · next hcont =>
    -- Contiguous data of the whole file is short enough to be read as an `int`.
    have hshort : pieceLimit s.size number < 2 ^ 31 := by
      cases Nat.eq_zero_or_pos number with
      | inr hpos =>
          exact lt_of_le_of_lt (pieceLimit_le_of_pos (by omega)) (by decide)
      | inl h0 =>
          subst h0
          cases hf : isFullInHeader s.size with
          | true =>
              have hfull : s.size ≤ kMaxOnlyInHeader := of_decide_eq_true hf
              exact lt_of_le_of_lt hfull (by decide)
          | false =>
              have hgood := h.isGoodHeader_of_contiguous hf (hheader rfl ▸
                contiguous_of_findNotLoadedStart hlimit hparts slice.parts.sorted
                  (fun _ _ => Nat.zero_le _) hback hcont)
              simp [hgood] at hplain
    refine ⟨_, rfl, m, [], hm, ?_⟩
    rw [hi hshort]
    exact parseCachedMap_contiguous hshort hparts hback hcont
  · have hcount := h.size_le hparts fun h0 => congrArg Slice.parts (hheader h0)
    obtain ⟨k, hk, hpad, hserial⟩ := padNotContiguous_spec m (serializeComplexPartsMap slice.parts)
    rw [hpad] at hserial
    refine ⟨padNotContiguous m (serializeComplexPartsMap slice.parts), ?_, m, List.replicate k 0,
      hm, ?_⟩
    · simp [serializeComplex, hm]
    · rw [hpad]
      refine parseCachedMap_complex (hu ▸ hparts) hcount ?_ hserial
      rw [List.length_replicate]
      omega

theorem serializeAndUnloadNumber_plain {s : Slices} (h : s.CacheReady) {number : Nat}
    (hle : number ≤ s.data.length) {slice : Slice}
    (hslice : s.sliceAt number = some slice)
    (hplain : (s.isGoodHeader && number == 0) = false) (hne : slice.parts ≠ ∅) :
    ∃ data s', s.serializeAndUnloadNumber number = some (⟨number, data⟩, s') ∧
      parseCacheEntry data number s.size = some { parts := slice.parts } := by
  have hheader : number = 0 → slice = s.header := by
    intro h0
    rw [sliceAt, if_pos h0] at hslice
    exact (Option.some.inj hslice).symm
  have hparts : ∀ e ∈ slice.parts.entries, IsPart (pieceLimit s.size number) e := by
    cases Nat.eq_zero_or_pos number with
    | inl h0 =>
        rw [hheader h0, h0]
        exact h.header
    | inr hpos =>
        rw [sliceAt, if_neg (by omega)] at hslice
        have hall := h.parts _ _ hslice
        rwa [Nat.sub_add_cancel hpos] at hall
  have hnil : slice.parts.entries ≠ [] := mt FlatMap.entries_eq_nil_iff.mp hne
  obtain ⟨back, hback⟩ := Option.isSome_iff_exists.mp (List.getLast?_isSome.mpr hnil)
  obtain ⟨data, hdata, m, rest, hm, hparse⟩ :=
    serializeData_plain h hle hparts hheader hplain hback
  have hser : ∃ s', s.serializeAndUnloadNumber number = some (⟨number, data⟩, s') := by
    simp [serializeAndUnloadNumber, hslice, hback, hdata]
  obtain ⟨s', hser⟩ := hser
  refine ⟨data, s', hser, parseCacheEntry_plain hm hparse ?_⟩
  · cases Nat.eq_zero_or_pos number with
    | inl h0 => simpa [h.isGoodHeader_eq, hheader h0, h0] using hplain
    | inr hpos => simp [Nat.ne_of_gt hpos]

/-! ### The header with the first slice behind it -/

/-- The parts of the first slice of a larger file are all full. -/
theorem length_eq_of_isPart_first {limit : Nat} (hlimit : limit = kInSlice) {e : Nat × Bytes}
    (h : IsPart limit e) : e.2.length = kPartSize := by
  subst hlimit
  obtain ⟨i, hi⟩ := h.aligned
  have hin := h.inside
  have hlen := h.length
  simp only [kInSlice, kPartsInSlice, kPartSize] at *
  omega

/-- A counted map of full parts has a length that is not ambiguous, even when it is padded. -/
theorem not_contiguous_of_full {parts : PartsMap} (h : ∀ e ∈ parts.entries, e.2.length = kPartSize)
    {k : Nat} (hk : k ≤ 2) {rest : Bytes} (hrest : rest.length = k) :
    isContiguousSerialization (serializeComplexPartsMap parts ++ rest).length kInSlice = false := by
  have hlen : (serializeComplexPartsMap parts ++ rest).length =
      4 + parts.size * (8 + kPartSize) + k := by
    rw [List.length_append, hrest, serializeComplexPartsMap, List.length_append, length_le32,
      length_flatMap_entryBytes h, FlatMap.size]
  rw [hlen, isContiguousSerialization, Bool.or_eq_false_iff, beq_eq_false_iff_ne,
    beq_eq_false_iff_ne]
  simp only [kInSlice, kPartsInSlice, kPartSize] at *
  omega

theorem CacheReady.not_full_of_good {s : Slices} (h : s.CacheReady)
    (hgood : s.isGoodHeader = true) : isFullInHeader s.size = false := by
  rw [h.isGoodHeader_eq, computeIsGoodHeader] at hgood
  cases hf : isFullInHeader s.size with
  | true => simp [hf] at hgood
  | false => rfl

theorem CacheReady.pieceLimit_one {s : Slices} (h : s.CacheReady)
    (hgood : s.isGoodHeader = true) : pieceLimit s.size 1 = kInSlice := by
  have hbig : ¬ s.size ≤ kMaxOnlyInHeader := of_decide_eq_false (h.not_full_of_good hgood)
  rw [pieceLimit, if_neg Nat.one_ne_zero]
  simp only [kMaxOnlyInHeader, kInSlice, kPartsInSlice, kPartSize] at *
  omega

theorem serializeAndUnloadNumber_good {s : Slices} (h : s.CacheReady)
    (hgood : s.isGoodHeader = true) {first : Slice} (hfirst : s.data[0]? = some first)
    (hloaded : first.loadedFromCache = true) (hne : s.header.parts ≠ ∅) :
    ∃ data s', s.serializeAndUnloadNumber 0 = some (⟨0, data⟩, s') ∧
      parseCacheEntry data 0 s.size = some
        { parts := s.header.parts
          included := some (first.parts.filter fun e => !s.header.parts.contains e.1) } := by
  have hone : 1 ≤ s.data.length := (List.getElem?_eq_some_iff.mp hfirst).1
  obtain ⟨m, hm, hu, -⟩ := maxSliceSize_spec h.size_lt (h.hasEntry (Nat.zero_le _))
  obtain ⟨m1, hm1, hu1, hi1⟩ := maxSliceSize_spec h.size_lt (h.hasEntry hone)
  have hlimit := h.pieceLimit_one hgood
  rw [hi1 (hlimit ▸ by decide), hlimit] at hm1
  -- What is left of the first slice without the header parts.
  have hkeys : s.header.parts.keys.foldl FlatMap.erase first.parts =
      first.parts.filter fun e => !s.header.parts.contains e.1 := by
    rw [FlatMap.foldl_erase]
    congr 1
    funext e
    rw [Bool.eq_iff_iff, decide_eq_true_iff, FlatMap.mem_keys_iff, ← FlatMap.contains_iff,
      Bool.not_eq_true, Bool.not_eq_true']
  have hincluded : ∀ e ∈ (first.parts.filter fun e => !s.header.parts.contains e.1).entries,
      IsPart (pieceLimit s.size 1) e := fun e he =>
    h.parts 0 first hfirst e (List.mem_of_mem_filter he)
  generalize first.parts.filter (fun e => !s.header.parts.contains e.1) = included at *
  have hfull : ∀ e ∈ included.entries, e.2.length = kPartSize := fun e he =>
    length_eq_of_isPart_first hlimit (hincluded e he)
  have hcount : included.size ≤ kPartsInSlice := size_le_of_isPart hincluded (le_of_eq hlimit)
  have hlen := length_serializeComplexPartsMap_le fun e he => le_of_eq (hfull e he)
  obtain ⟨k, hk, hpad, hserial⟩ := padNotContiguous_spec m
    (serializeComplexPartsMap s.header.parts ++ serializeComplexPartsMap included)
  rw [hpad] at hserial
  have hzeros : (List.replicate k (0 : UInt8)).length = k := List.length_replicate
  obtain ⟨back, hback⟩ := Option.isSome_iff_exists.mp
    (List.getLast?_isSome.mpr (mt FlatMap.entries_eq_nil_iff.mp hne))
  have hser : ∃ s', s.serializeAndUnloadNumber 0 = some (⟨0, padNotContiguous m
      (serializeComplexPartsMap s.header.parts ++ serializeComplexPartsMap included)⟩, s') := by
    simp [serializeAndUnloadNumber, sliceAt, hback, serializeData, hgood, serializeComplex,
      serializeAndUnloadFirstSliceNoHeader, hfirst, hloaded, hkeys, hm]
  obtain ⟨s', hser⟩ := hser
  refine ⟨_, s', hser, ?_⟩
  rw [List.append_assoc] at hpad hserial
  have hparse : parseCachedMap ∅ (padNotContiguous m
      (serializeComplexPartsMap s.header.parts ++ serializeComplexPartsMap included)) m =
      (s.header.parts, serializeComplexPartsMap included ++ List.replicate k 0) := by
    rw [hpad]
    have hcount : s.header.parts.size ≤ kMaxOnlyInHeader / kPartSize :=
      h.size_le (show ∀ e ∈ s.header.parts.entries, IsPart (pieceLimit s.size 0) e from h.header)
        fun _ => rfl
    refine parseCachedMap_complex (hu ▸ h.header) hcount
      ?_ hserial
    rw [List.length_append, hzeros]
    simp only [kPartsInSlice, kPartSize] at *
    omega
  have hparseIncluded : parseCachedMap ∅ (serializeComplexPartsMap included ++ List.replicate k 0)
      kInSlice = (included, List.replicate k 0) := by
    refine parseCachedMap_complex ?_ (le_trans hcount (by decide)) ?_
      (not_contiguous_of_full hfull hk hzeros)
    · rw [u32_of_lt (by decide), ← hlimit]
      exact hincluded
    · rw [hzeros]
      omega
  rw [h.isGoodHeader_eq] at hgood
  simp [parseCacheEntry, hm, hparse, hgood, hm1, hparseIncluded]

/-! ## The round trip -/

/-- **Cache entries are read back as they were written.**  Parsing what
`serializeAndUnloadSlice` returns gives the parts of the serialized map; for a good
header, which stands in for the first slice as well, it gives the header parts and
the parts of the first slice that are not in the header. -/
theorem parseCacheEntry_serializeAndUnloadSlice {s : Slices} (h : s.CacheReady)
    {sliceNumber number : Nat} {entry : ParsedCacheEntry} (hle : sliceNumber ≤ s.data.length)
    (hstore : s.toStore sliceNumber = some (number, entry)) (hne : entry.parts ≠ ∅)
    (hloaded : s.isGoodHeader = true → sliceNumber ≤ 1 →
      ∀ first, s.data[0]? = some first → first.loadedFromCache = true) :
    ∃ data s', s.serializeAndUnloadSlice sliceNumber = some (⟨number, data⟩, s') ∧
      parseCacheEntry data number s.size = some entry := by
  obtain ⟨hunknown, hnoCache⟩ := h.mode_known
  have hexpects : (s.headerMode = .Unknown || s.headerMode = .NoCache
      || decide (sliceNumber > s.data.length)) = false := by
    simp [hunknown, hnoCache, hle]
  rw [serializeAndUnloadSlice, hexpects]
  rw [toStore] at hstore
  simp only [Bool.false_eq_true, if_false]
  split at hstore
  · next hcond =>
    obtain ⟨hgood, hone⟩ := Bool.and_eq_true_iff.mp hcond
    have hone := of_decide_eq_true hone
    obtain ⟨first, hfirst, heq⟩ := Option.map_eq_some_iff.mp hstore
    obtain ⟨rfl, rfl⟩ := Prod.mk.inj heq
    have hnumber : (if (s.isGoodHeader && sliceNumber == 1) = true then 0 else sliceNumber) = 0 := by
      rw [hgood]
      split
      · rfl
      · next hne1 =>
        simp only [Bool.true_and, beq_iff_eq] at hne1
        omega
    rw [hnumber]
    exact serializeAndUnloadNumber_good h hgood hfirst (hloaded hgood hone first hfirst) hne
  · next hcond =>
    have hplain : (s.isGoodHeader && sliceNumber == 0) = false ∧
        (s.isGoodHeader && sliceNumber == 1) = false := by
      cases hg : s.isGoodHeader with
      | false => simp
      | true =>
          simp only [hg, Bool.true_and, decide_eq_true_eq] at hcond
          simp only [Bool.true_and, beq_eq_false_iff_ne]
          omega
    obtain ⟨slice, hslice, heq⟩ := Option.map_eq_some_iff.mp hstore
    obtain ⟨rfl, rfl⟩ := Prod.mk.inj heq
    rw [hplain.2]
    exact serializeAndUnloadNumber_plain h hle hslice hplain.1 hne

/-- A file of 81 parts with a good header.  The first part is in the header, the
first two are in the first slice. -/
def twoPartsLoaded (part : Bytes) : Slices where
  size := 81 * kPartSize
  data := [{ parts := (FlatMap.emplace ∅ 0 part).emplace kPartSize part, loadedFromCache := true },
    {}]
  header := { parts := FlatMap.emplace ∅ 0 part, loadedFromCache := true }
  headerMode := .Good

theorem twoPartsLoaded_cacheReady {part : Bytes} (hpart : part.length = kPartSize) :
    (twoPartsLoaded part).CacheReady where
  size_lt := (by decide : 81 * kPartSize < 2 ^ 32)
  slices := fun _ => (by decide : slicesCount (81 * kPartSize) = some 2)
  no_slices := fun h => absurd h (by decide : ¬ isFullInHeader (81 * kPartSize) = true)
  mode := rfl
  header := by
    intro e he
    obtain rfl : e = (0, part) := List.mem_singleton.mp he
    exact ⟨Nat.dvd_zero _, (by decide : 0 < 81 * kPartSize), hpart⟩
  header_size := fun _ => (by decide : 1 ≤ kMaxPartsInHeader)
  parts := by
    have hlimit : pieceLimit (twoPartsLoaded part).size (0 + 1) = kInSlice :=
      (by decide : pieceLimit (81 * kPartSize) 1 = kInSlice)
    intro i slice hslice e he
    match i, hslice with
    | 0, hslice =>
        obtain rfl := Option.some.inj hslice
        rw [hlimit]
        have hentries : ((FlatMap.emplace ∅ 0 part).emplace kPartSize part).entries =
            [(0, part), (kPartSize, part)] := by
          simp [FlatMap.emplace, FlatMap.insertNew, kPartSize]
        have hmem : e = (0, part) ∨ e = (kPartSize, part) := by
          rw [hentries] at he
          simpa using he
        cases hmem with
        | inl h => exact h ▸ ⟨Nat.dvd_zero _, (by decide : 0 < kInSlice), hpart⟩
        | inr h => exact h ▸ ⟨Nat.dvd_refl _, (by decide : kPartSize < kInSlice), hpart⟩
    | 1, hslice =>
        obtain rfl := Option.some.inj hslice
        simp at he

/-- The first slice goes to the cache behind the header, without the part that is
in the header already. -/
theorem parseCacheEntry_serializeAndUnloadSlice_one :
    ∃ data s', (twoPartsLoaded (List.replicate kPartSize 7)).serializeAndUnloadSlice 1 =
        some (⟨0, data⟩, s') ∧
      parseCacheEntry data 0 (81 * kPartSize) = some
        { parts := FlatMap.emplace ∅ 0 (List.replicate kPartSize 7)
          included := some (FlatMap.emplace ∅ kPartSize (List.replicate kPartSize 7)) } := by
  have hready : (twoPartsLoaded (List.replicate kPartSize 7)).CacheReady :=
    twoPartsLoaded_cacheReady (by simp)
  generalize List.replicate kPartSize (7 : UInt8) = part at *
  refine parseCacheEntry_serializeAndUnloadSlice hready (Nat.le_succ 1) rfl ?_
    fun _ _ first h => ?_
  · exact mt FlatMap.entries_eq_nil_iff.mpr (FlatMap.emplace_entries_ne_nil ∅ 0 part)
  · obtain rfl := Option.some.inj h
    rfl

end Slices

end Streaming

end MessengerClient
