import MessengerClient.Streaming.Unload

/-!
# MessengerClient.Streaming.Fill

One call of `fill`.  It never fails on a sound state, a successful one has the bytes
of the file in the buffer, and `FillStep` says what else it leaves behind: which
slices it asked the cache for, which one it dropped, and that every offset it asks
the loader for is one where a part may arrive.
-/

namespace MessengerClient

namespace Streaming

namespace Slices

variable {F : Bytes} {s : Slices}

/-- What became of a slice in a reading. -/
inductive SliceStep (s : Slices) (result : FillResult) (index : Nat) (slice : Slice) :
    Slice → Prop where
  | kept : SliceStep s result index slice slice
  | asked (hnot : s.cacheNotLoaded slice = true) (hloading : slice.loadingFromCache = false)
      (hasked : index + 1 ∈ result.sliceNumbersFromCache) :
      SliceStep s result index slice { slice with loadingFromCache := true }
  | dropped (hloaded : slice.loadedFromCache = true)
      (hindex : result.toCache.number = -1 ∨
        (0 ≤ result.toCache.number ∧ result.toCache.index = index)) :
      SliceStep s result index slice slice.unload

/-- What a reading leaves behind. -/
structure FillStep (F : Bytes) (s : Slices) (result : FillResult) (s' : Slices) : Prop where
  sound : s'.Sound F
  kept : Kept s s'
  header : s.headerMode ≠ .Unknown ∨ isFullInHeader s.size = true →
    s'.header.parts = s.header.parts
  slice : ∀ (i : Nat) slice, s.data[i]? = some slice →
    ∃ slice', s'.data[i]? = some slice' ∧ SliceStep s result i slice slice'
  asked : ∀ k ∈ result.sliceNumbersFromCache, ∃ index slice, k = index + 1 ∧
    s.data[index]? = some slice ∧ s.cacheNotLoaded slice = true ∧
    slice.loadingFromCache = false ∧
    s'.data[index]? = some { slice with loadingFromCache := true }
  asked_nodup : result.sliceNumbersFromCache.Nodup
  offsets : ∀ o ∈ result.offsetsFromLoader, s.Fresh o
  toCache : 0 ≤ result.toCache.number → result.toCache.index < s.data.length ∧
    (0 < result.toCache.number ∨ s.headerMode = .Good)
  filled : s.header.parts ≠ ∅ → s'.header.parts ≠ ∅
  served : result.state = .Success → s.headerMode = .Unknown →
    isFullInHeader s.size = false → s'.header.parts ≠ ∅

/-- A slice never gets a part from a reading. -/
theorem SliceStep.missing {result : FillResult} {index : Nat} {slice slice' : Slice}
    (h : SliceStep s result index slice slice') {o : Nat} (ho : slice.parts.contains o = false) :
    slice'.parts.contains o = false := by
  cases h with
  | kept => exact ho
  | asked => exact ho
  | dropped => rfl

/-- **A reading closes nothing**: what may arrive before it may arrive after it. -/
theorem FillStep.opened {result : FillResult} {s' : Slices} (h : FillStep F s result s') {o : Nat}
    (ho : s.Open o) : s'.Open o where
  aligned := ho.aligned
  inside := h.kept.size ▸ ho.inside
  header hf := by
    rw [h.kept.size] at hf
    rw [h.header (.inr hf)]
    exact ho.header hf
  slice hf := by
    rw [h.kept.size] at hf
    obtain ⟨slice, hslice, hmissing⟩ := ho.slice hf
    obtain ⟨slice', hslice', hstep⟩ := h.slice _ slice hslice
    exact ⟨slice', hslice', hstep.missing hmissing⟩
  first hmode hlt := by
    rw [h.kept.mode] at hmode
    rw [h.header (.inl (by rw [hmode]; decide))]
    exact ho.first hmode hlt

/-- The first slice is awaited until the answer comes. -/
theorem FillStep.awaited {result : FillResult} {s' : Slices} (hs : s.Sound F)
    (h : FillStep F s result s') (hfirst : s.FirstAwaited) : s'.FirstAwaited := by
  obtain ⟨hmode, first, hfirst, hloading, hapart⟩ := hfirst
  obtain ⟨first', hfirst', hstep⟩ := h.slice 0 first hfirst
  have hheader := h.header (.inl (by rw [hmode]; decide))
  have hsame : first' = first := by
    cases hstep with
    | kept => rfl
    | asked _ hidle => exact absurd (hidle.symm.trans hloading) (by decide)
    | dropped hloaded =>
        exact absurd (hloaded.symm.trans ((hs.data 0 first hfirst).excl hloading)) (by decide)
  exact ⟨h.kept.mode.trans hmode, first', hfirst', hsame ▸ hloading, hsame ▸ hheader ▸ hapart⟩

/-! ## Marking and remembering -/

theorem Sound.markSliceUsed (h : s.Sound F) {index : Nat} (hindex : index < s.data.length) :
    (s.markSliceUsed index).Sound F := by
  refine h.setUsed ?_ fun i hi => ?_
  · rw [List.nodup_append]
    refine ⟨h.nodup.erase index, List.nodup_singleton index, fun a ha b hb hab => ?_⟩
    rw [List.mem_singleton.mp hb] at hab
    exact (h.nodup.mem_erase_iff.mp ha).1 hab
  · cases List.mem_append.mp hi with
    | inl hmem => exact h.used_lt i (List.mem_of_mem_erase hmem)
    | inr hmem => exact List.mem_singleton.mp hmem ▸ hindex

/-- What `addToHeader` makes of the header. -/
structure Remembered (F : Bytes) (s : Slices) (parts : List (Nat × Bytes)) (header : Slice) :
    Prop where
  sound : (s.setHeader header s.fullInCache).Sound F
  loaded : header.loadedFromCache = s.header.loadedFromCache
  same : s.headerMode ≠ .Unknown → header = s.header
  filled : s.headerMode = .Unknown → parts ≠ [] ∨ s.header.parts ≠ ∅ → header.parts ≠ ∅

/-- A part of a slice may go to the header. -/
theorem Sound.setHeader_withPart (h : s.Sound F) (hread : s.headerRead = true)
    (hunknown : s.headerMode = .Unknown) {index : Nat} {slice : Slice}
    (hslice : s.data[index]? = some slice) {e : Nat × Bytes} (hlt : e.1 < kInSlice)
    (hmem : slice.parts.contains e.1 = true)
    (hhonest : Honest F 0 F.length (index * kInSlice + e.1, e.2)) :
    (s.setHeader (s.header.withPart (index * kInSlice + e.1, e.2)) s.fullInCache).Sound F := by
  refine h.setHeader (honestParts_emplace h.header hhonest) (headerRead_iff.mp hread) h.excl
    (fun _ => FlatMap.emplace_ne_empty _ _ _) fun i slice' hi => ?_
  have hok := h.data i slice' hi
  rw [hread] at hok
  have hnot : s.headerMode ≠ .Good := by
    rw [hunknown]
    decide
  refine ⟨hok.honest, hok.excl, hok.idle, hok.changed, hok.unread, fun hmode o ho hplace => ?_,
    fun hmode => absurd hmode hnot, fun hmode => absurd hmode hnot⟩
  change (s.header.parts.emplace _ _).contains o = true at ho
  rw [contains_emplace, Bool.or_eq_true, decide_eq_true_eq] at ho
  cases ho with
  | inr hold => exact hok.within hmode o hold hplace
  | inl heq =>
      have hdiv : (index * kInSlice + e.1) / kInSlice = index := by
        rw [Nat.mul_comm, Nat.mul_add_div (by decide), Nat.div_eq_of_lt hlt, Nat.add_zero]
      rw [heq, hdiv] at hplace
      subst hplace
      rw [hslice] at hi
      obtain rfl := Option.some.inj hi
      rwa [heq, Nat.add_sub_cancel_left]

/-- The header only grows, and only while the mode is not settled on. -/
theorem Sound.addToHeader (h : s.Sound F) (hread : s.headerRead = true) {index : Nat}
    {slice : Slice} (hslice : s.data[index]? = some slice) (hindex : index * kInSlice ≤ F.length)
    (parts : List (Nat × Bytes)) (hmem : ∀ e ∈ parts, e ∈ slice.parts.entries) :
    ∃ header, addToHeader index s parts = some (s.setHeader header s.fullInCache) ∧
      Remembered F s parts header := by
  induction parts generalizing s with
  | nil =>
      exact ⟨s.header, rfl, h, rfl, fun _ => rfl,
        fun _ hne => hne.resolve_left (fun hnil => hnil rfl)⟩
  | cons e parts ih =>
      obtain ⟨he, hmem⟩ := List.forall_mem_cons.mp hmem
      have hpart := (h.data index slice hslice).honest e he
      have hhonest := honest_in_header hindex hpart
      have hbound : s.size + kInSlice ≤ 2 ^ 32 := h.bound
      have hlt := hhonest.inside
      have htotal : u32 (index * kInSlice + e.1 : Nat) = index * kInSlice + e.1 := by
        refine u32_of_lt ?_
        rw [h.size_eq] at hbound
        exact lt_of_lt_of_le (Nat.lt_add_right _ hlt) hbound
      rw [Slices.addToHeader]
      simp only [htotal]
      split
      · next hcond =>
        simp only [Bool.and_eq_true, Bool.not_eq_true', decide_eq_true_eq] at hcond
        have hadd := Slice.addPart_eq (e := (index * kInSlice + e.1, e.2)) hcond.1.2
        have hnew := h.setHeader_withPart hread hcond.1.1 hslice
          (lt_of_lt_of_le hpart.inside (pieceLimit_le_of_pos (Nat.succ_ne_zero index)))
          (FlatMap.contains_iff.mpr ⟨e.2, FlatMap.mem_entries_iff.mp he⟩) hhonest
        obtain ⟨header, hsome, hrest⟩ := ih hnew hread hslice hmem
        refine ⟨header, ?_, hrest.sound, hrest.loaded, fun hnot => absurd hcond.1.1 hnot,
          fun hmode _ => hrest.filled hmode (.inr (FlatMap.emplace_ne_empty _ _ _))⟩
        simp only [hadd, Option.bind_eq_bind, Option.bind_some]
        exact hsome
      · next hcond =>
        obtain ⟨header, hsome, hrest⟩ := ih h hread hslice hmem
        refine ⟨header, hsome, hrest.sound, hrest.loaded, hrest.same, fun hmode _ =>
          hrest.filled hmode (.inr fun hnone => hcond ?_)⟩
        -- An empty header has room and does not hold the part.
        simp only [hmode, hnone, decide_true, Bool.true_and, Bool.and_eq_true, decide_eq_true_eq]
        exact ⟨rfl, by decide⟩

/-! ## One slice of a reading -/

/-- A reading inside the slice it names. -/
structure Covers (s : Slices) (f : SliceFill) : Prop where
  slice : s.data[f.index]? = some f.slice
  lt : f.fromOffset < f.till
  le : f.till ≤ pieceLimit s.size (f.index + 1)

variable {f : SliceFill}

theorem pieceLimit_succ (size index : Nat) :
    pieceLimit size (index + 1) = min kInSlice (size - index * kInSlice) := by
  rw [pieceLimit, if_neg (Nat.succ_ne_zero _), Nat.add_sub_cancel]

theorem Covers.start_le (hf : s.Covers f) (h : s.Sound F) : f.index * kInSlice ≤ F.length := by
  have hlt := hf.lt
  have hle := hf.le
  rw [pieceLimit_succ, h.size_eq] at hle
  omega

theorem Covers.honest (hf : s.Covers f) (h : s.Sound F) :
    HonestParts F (f.index * kInSlice) (pieceLimit F.length (f.index + 1)) f.slice.parts :=
  (h.data f.index f.slice hf.slice).honest

theorem limit_lt (F : Bytes) (index : Nat) : pieceLimit F.length (index + 1) < 2 ^ 32 :=
  lt_of_le_of_lt (pieceLimit_le_of_pos (Nat.succ_ne_zero index)) (by decide)

/-- The state after a slice was copied from. -/
structure Copied (F : Bytes) (s : Slices) (index : Nat) (s' : Slices) : Prop where
  sound : s'.Sound F
  kept : Kept s s'
  data : s'.data = s.data
  used : s'.usedSlices = s.usedSlices.erase index ++ [index]
  header : s.headerMode ≠ .Unknown → s'.header = s.header
  filled : s.headerMode = .Unknown → s'.header.parts ≠ ∅

/-- A ready slice is copied, marked and remembered. -/
theorem Sound.copySlice (h : s.Sound F) (hread : s.headerRead = true) (hf : s.Covers f)
    (hready : f.prepared.ready = true) (buffer : Bytes) :
    ∃ s' : Slices, s.copySlice f buffer = some
        ((F.drop (f.index * kInSlice + f.fromOffset)).take (f.till - f.fromOffset)
          ++ buffer.drop (f.till - f.fromOffset), s') ∧ Copied F s f.index s' := by
  have hindex : f.index < s.data.length := (List.getElem?_eq_some_iff.mp hf.slice).1
  have hstart := hf.start_le h
  have hle := hf.le
  rw [h.size_eq] at hle
  have hcopy := Slice.copyLoaded_prepareFill (piece_slice F hstart) (limit_lt F f.index)
    (hf.honest h) hf.lt hle hready buffer
  obtain ⟨start, rest, hlooked, hrange, -⟩ := Slice.prepareFill_ready hready
  obtain ⟨header, hsome, hremembered⟩ := (h.markSliceUsed hindex).addToHeader hread hf.slice hstart
    f.prepared.range fun e he => hlooked.mem e (hrange ▸ he)
  have hne : f.prepared.range ≠ [] := hrange ▸ List.cons_ne_nil start rest
  refine ⟨_, ?_, hremembered.sound, ⟨rfl, rfl, ?_, rfl⟩, rfl, rfl, hremembered.same,
    fun hmode => hremembered.filled hmode (.inl hne)⟩
  · simp only [Slices.copySlice, SliceFill.prepared, Option.bind_eq_bind]
    rw [hcopy, Option.bind_some]
    simp only [SliceFill.prepared] at hsome
    rw [hsome]
    rfl
  · rw [headerRead, headerRead, setHeader_mode, setHeader_header, hremembered.loaded]
    rfl

/-! ### What is asked of the loader and of the cache -/

theorem mem_stackAdd {max : Nat} {values : List Nat} {value o : Nat}
    (h : o ∈ stackAdd max values value) : o ∈ values ∨ o = value := by
  rw [stackAdd] at h
  split at h
  · exact (List.mem_append.mp h).imp_right List.mem_singleton.mp
  · exact .inl h

theorem Sound.handlePrepareResult (h : s.Sound F) (hfull : isFullInHeader s.size = false)
    (hf : s.Covers f) {offsets : List Nat} :
    ∀ o ∈ s.handlePrepareResult f.index f.slice f.prepared offsets,
      o ∈ offsets ∨ (s.Fresh o ∧ o / kInSlice = f.index) := by
  have hle := hf.le
  rw [h.size_eq] at hle
  have hmissing := Slice.missing_prepareFill (piece_slice F (hf.start_le h))
    (le_trans (pieceLimit_le_of_pos (Nat.succ_ne_zero f.index)) (by decide)) (hf.honest h) hf.lt hle
  rw [Slices.handlePrepareResult]
  split
  · exact fun o ho => .inl ho
  · next hnot =>
    simp only [SliceFill.prepared] at hmissing ⊢
    generalize (f.slice.prepareFill f.fromOffset f.till).offsetsFromLoader = asked at hmissing
    induction asked generalizing offsets with
    | nil => exact fun o ho => .inl ho
    | cons a asked ih =>
        obtain ⟨ha, hasked⟩ := List.forall_mem_cons.mp hmissing
        intro o ho
        rw [List.foldl_cons] at ho
        cases ih hasked o ho with
        | inr hfresh => exact .inr hfresh
        | inl hmem =>
            split at hmem
            · next hcond =>
              refine (mem_stackAdd hmem).imp_right fun heq => ?_
              simp only [Bool.and_eq_true, decide_eq_true_eq] at hcond
              have hstart := hf.start_le h
              have hbound : s.size + kInSlice ≤ 2 ^ 32 := h.bound
              have hu : u32 (a + f.index * kInSlice : Nat) = a + f.index * kInSlice := by
                rw [← h.size_eq] at hstart
                exact u32_of_lt (by omega)
              rw [hu] at heq hcond
              have hdiv : o / kInSlice = f.index := by
                rw [heq, Nat.add_mul_div_right _ _ (by decide), Nat.div_eq_of_lt hcond.1,
                  Nat.zero_add]
              have hsub : o - f.index * kInSlice = a := by rw [heq, Nat.add_sub_cancel]
              refine ⟨⟨?_, heq ▸ hcond.2, fun hf' => ?_, fun _ => ⟨f.slice, ?_, ?_, ?_⟩⟩, hdiv⟩
              · rw [heq]
                exact Nat.dvd_add ha.1 (Nat.dvd_mul_left_of_dvd ⟨kPartsInSlice, Nat.mul_comm ..⟩ _)
              · exact absurd (hfull.symm.trans hf') (by decide)
              · rw [hdiv, hf.slice]
              · rw [hdiv, hsub, ha.2]
              · exact Bool.not_eq_true _ ▸ hnot
            · exact .inl hmem

/-- A slice that has to be read from the cache is asked for, once. -/
theorem handleReadFromCache_cases (s : Slices) (index : Nat) (slice : Slice) (result : FillResult)
    (hroom : result.sliceNumbersFromCache.length < kReadFromCacheMax) :
    (∃ state, s.handleReadFromCache result index slice = ({ result with state := state }, s) ∧
      (state = result.state ∨ state = .WaitingCache)) ∨
    (s.cacheNotLoaded slice = true ∧ slice.loadingFromCache = false ∧
      s.handleReadFromCache result index slice =
        ({ result with
            sliceNumbersFromCache := result.sliceNumbersFromCache ++ [index + 1]
            state := .WaitingCache },
          s.setSlice index { slice with loadingFromCache := true } s.fullInCache)) := by
  rw [Slices.handleReadFromCache]
  cases hnot : s.cacheNotLoaded slice with
  | false => exact .inl ⟨result.state, by rw [Bool.not_false, if_pos rfl], .inl rfl⟩
  | true =>
      rw [Bool.not_true, if_neg Bool.false_ne_true]
      cases hloading : slice.loadingFromCache with
      | true => exact .inl ⟨.WaitingCache, by rw [if_pos rfl], .inr rfl⟩
      | false =>
          refine .inr ⟨rfl, rfl, ?_⟩
          rw [if_neg Bool.false_ne_true, stackAdd, if_pos hroom]
          rfl

theorem Sound.setSlice_loading (h : s.Sound F) {index : Nat} {slice : Slice}
    (hslice : s.data[index]? = some slice) (hnot : s.cacheNotLoaded slice = true) {full : Bool} :
    (s.setSlice index { slice with loadingFromCache := true } full).Sound F := by
  have hok := h.data index slice hslice
  simp only [cacheNotLoaded, ne_eq, Bool.and_eq_true, decide_eq_true_eq, Bool.not_eq_true'] at hnot
  obtain ⟨⟨hnoCache, hunknown⟩, hloaded⟩ := hnot
  exact h.setSlice
    { honest := hok.honest
      excl := fun _ => hloaded
      idle := fun hidle => absurd hidle (not_or.mpr ⟨hunknown, hnoCache⟩)
      changed := hok.changed
      unread := hok.unread
      within := fun hmode => absurd hmode hunknown
      applied := fun _ _ hread => absurd (hloaded.symm.trans hread) (by decide)
      dropped := fun _ _ _ hidle => absurd hidle (by simp) }

/-- The slices that were asked for are loading now, the others are as before. -/
structure Asked (F : Bytes) (s : Slices) (numbers : List Nat) (s' : Slices) : Prop where
  sound : s'.Sound F
  kept : Kept s s'
  header : s'.header = s.header
  same : ∀ (i : Nat), i + 1 ∉ numbers → s'.data[i]? = s.data[i]?
  asked : ∀ k ∈ numbers, ∃ index slice, k = index + 1 ∧ s.data[index]? = some slice ∧
    s.cacheNotLoaded slice = true ∧ slice.loadingFromCache = false ∧
    s'.data[index]? = some { slice with loadingFromCache := true }
  nodup : numbers.Nodup

theorem Asked.refl (h : s.Sound F) : Asked F s [] s :=
  ⟨h, Kept.refl s, rfl, fun _ _ => rfl, by simp, List.nodup_nil⟩

theorem Asked.add {numbers : List Nat} {s1 : Slices} (h : Asked F s numbers s1) {index : Nat}
    {slice : Slice} (hslice : s.data[index]? = some slice) (hnew : index + 1 ∉ numbers)
    (hnot : s.cacheNotLoaded slice = true) (hloading : slice.loadingFromCache = false) :
    Asked F s (numbers ++ [index + 1])
      (s1.setSlice index { slice with loadingFromCache := true } s1.fullInCache) := by
  have hslice1 : s1.data[index]? = some slice := (h.same index hnew).trans hslice
  have hindex : index < s1.data.length := (List.getElem?_eq_some_iff.mp hslice1).1
  have hnot1 : s1.cacheNotLoaded slice = true := by
    rwa [cacheNotLoaded, h.kept.mode]
  refine ⟨h.sound.setSlice_loading hslice1 hnot1,
    h.kept.trans ⟨rfl, rfl, rfl, List.length_set ..⟩, h.header, fun i hi => ?_, fun k hk => ?_, ?_⟩
  · have hne : index ≠ i := by
      rintro rfl
      exact hi (List.mem_append_right _ (List.mem_singleton.mpr rfl))
    rw [setSlice_data, List.getElem?_set_ne hne]
    exact h.same i fun hmem => hi (List.mem_append_left _ hmem)
  · cases List.mem_append.mp hk with
    | inl hmem =>
        obtain ⟨i, old, rfl, hold, hnotOld, hloadOld, hafter⟩ := h.asked k hmem
        have hne : index ≠ i := by
          rintro rfl
          exact hnew hmem
        exact ⟨i, old, rfl, hold, hnotOld, hloadOld,
          by rw [setSlice_data, List.getElem?_set_ne hne, hafter]⟩
    | inr hmem =>
        exact ⟨index, slice, List.mem_singleton.mp hmem, hslice, hnot, hloading,
          List.getElem?_set_self hindex⟩
  · rw [List.nodup_append]
    exact ⟨h.nodup, List.nodup_singleton _, fun a ha b hb hab => by
      rw [List.mem_singleton.mp hb] at hab
      exact hnew (hab ▸ ha)⟩

/-- Waiting for one more slice. -/
theorem Asked.handleReadFromCache (result : FillResult) {s1 : Slices}
    (h : Asked F s result.sliceNumbersFromCache s1) {index : Nat} {slice : Slice}
    (hslice : s.data[index]? = some slice) (hnew : index + 1 ∉ result.sliceNumbersFromCache)
    (hroom : result.sliceNumbersFromCache.length < kReadFromCacheMax)
    (hstate : result.state ≠ .Success) :
    ∃ result' s', s1.handleReadFromCache result index slice = (result', s') ∧
      Asked F s result'.sliceNumbersFromCache s' ∧
      (result'.sliceNumbersFromCache = result.sliceNumbersFromCache ∨
        result'.sliceNumbersFromCache = result.sliceNumbersFromCache ++ [index + 1]) ∧
      result'.offsetsFromLoader = result.offsetsFromLoader ∧ result'.toCache = result.toCache ∧
      result'.state ≠ .Success := by
  obtain ⟨state, heq, hsame⟩ | ⟨hnot, hloading, heq⟩ :=
    handleReadFromCache_cases s1 index slice result hroom
  · refine ⟨_, _, heq, h, .inl rfl, rfl, rfl, ?_⟩
    cases hsame with
    | inl hst => exact hst ▸ hstate
    | inr hst => exact hst ▸ (by decide : FillState.WaitingCache ≠ .Success)
  · rw [cacheNotLoaded, h.kept.mode] at hnot
    exact ⟨_, _, heq, h.add hslice hnew hnot hloading, .inr rfl, rfl, rfl,
      (by decide : FillState.WaitingCache ≠ .Success)⟩

/-- A reading that has to wait. -/
theorem Asked.fillStep {result : FillResult} {s' : Slices}
    (h : Asked F s result.sliceNumbersFromCache s') (hcache : result.toCache = {})
    (hstate : result.state ≠ .Success) (hfresh : ∀ o ∈ result.offsetsFromLoader, s.Fresh o) :
    FillStep F s result s' where
  sound := h.sound
  kept := h.kept
  header := fun _ => congrArg Slice.parts h.header
  slice := fun i slice hi => by
    by_cases hmem : i + 1 ∈ result.sliceNumbersFromCache
    · obtain ⟨index, old, heq, hold, hnot, hloading, hafter⟩ := h.asked _ hmem
      obtain rfl := Nat.succ.inj heq
      rw [hi] at hold
      obtain rfl := Option.some.inj hold
      exact ⟨_, hafter, .asked hnot hloading hmem⟩
    · exact ⟨slice, (h.same i hmem).trans hi, .kept⟩
  asked := h.asked
  asked_nodup := h.nodup
  offsets := hfresh
  toCache := fun hnumber => by
    rw [hcache] at hnumber
    exact absurd hnumber (by decide)
  filled := fun hne => h.header ▸ hne
  served := fun hsuccess => absurd hsuccess hstate

/-! ## A reading that is ready -/

theorem Copied.trans {s1 s2 : Slices} {i j : Nat} (h1 : Copied F s i s1) (h2 : Copied F s1 j s2) :
    s2.Sound F ∧ Kept s s2 ∧ s2.data = s.data ∧ (s.headerMode ≠ .Unknown → s2.header = s.header) ∧
      (s.headerMode = .Unknown → s2.header.parts ≠ ∅) :=
  ⟨h2.sound, h1.kept.trans h2.kept, h2.data.trans h1.data,
    fun hmode => (h2.header (h1.kept.mode ▸ hmode)).trans (h1.header hmode),
    fun hmode => h2.filled (h1.kept.mode.trans hmode)⟩

/-- A reading that copied its slices and then dropped an unused one. -/
theorem Unloads.fillStep {s1 s' : Slices} {result : FillResult} (hkept1 : Kept s s1)
    (hdata1 : s1.data = s.data) (hheader1 : s.headerMode ≠ .Unknown → s1.header = s.header)
    (hfilled1 : s.headerMode = .Unknown → s1.header.parts ≠ ∅) {toCache : SerializedSlice}
    (hcache : result.toCache = toCache) (h : Unloads s1 toCache s') (hsound : s'.Sound F)
    (hkept : Kept s1 s') (hheader : s'.header.parts = s1.header.parts)
    (hnumbers : result.sliceNumbersFromCache = []) (hfull : isFullInHeader s.size = false)
    (hfresh : ∀ o ∈ result.offsetsFromLoader, s.Fresh o) : FillStep F s result s' where
  sound := hsound
  kept := hkept1.trans hkept
  header := fun hmode => by
    have hunknown := hmode.resolve_right (by rw [hfull]; decide)
    rw [hheader, hheader1 hunknown]
  slice := fun i slice hi => by
    rw [← hdata1] at hi
    cases h with
    | nothing _ hdata => exact ⟨slice, by rw [hdata, hi], .kept⟩
    | dropped _ purge rest old _ hused hmany hslice hloaded hdata hindex =>
        by_cases heq : purge = i
        · subst heq
          rw [hslice] at hi
          obtain rfl := Option.some.inj hi
          have hpurge : purge < s1.data.length := (List.getElem?_eq_some_iff.mp hslice).1
          exact ⟨old.unload, by rw [hdata, List.getElem?_set_self hpurge],
            .dropped hloaded (hcache ▸ hindex.imp_right fun h => ⟨h.1, h.2.1⟩)⟩
        · exact ⟨slice, by rw [hdata, List.getElem?_set_ne heq, hi], .kept⟩
  asked := by simp [hnumbers]
  asked_nodup := by simp [hnumbers]
  offsets := hfresh
  toCache := fun hnumber => by
    rw [hcache] at hnumber ⊢
    cases h with
    | nothing => exact absurd hnumber (by decide)
    | dropped _ purge rest old _ hused hmany hslice hloaded hdata hindex =>
        cases hindex with
        | inl hnone =>
            rw [hnone] at hnumber
            exact absurd hnumber (by decide)
        | inr hsaved =>
            rw [hsaved.2.1, ← hdata1, ← hkept1.mode]
            exact ⟨(List.getElem?_eq_some_iff.mp hslice).1, hsaved.2.2⟩
  filled := fun hne => by
    rw [hheader]
    by_cases hmode : s.headerMode = .Unknown
    · exact hfilled1 hmode
    · exact hheader1 hmode ▸ hne
  served := fun _ hmode _ => hheader ▸ hfilled1 hmode

end Slices

end Streaming

end MessengerClient
