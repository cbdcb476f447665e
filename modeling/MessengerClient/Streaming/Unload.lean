import MessengerClient.Streaming.HeaderCache

/-!
# MessengerClient.Streaming.Unload

Dropping the slice that was not used for the longest time.  Whatever the header mode
says about saving it, the serialization goes through: a slice with changes has parts,
and so has a good header.
-/

namespace MessengerClient

namespace Streaming

/-- The index of the slice that an entry was made of: `max(number, 1) - 1`. -/
def SerializedSlice.index (toCache : SerializedSlice) : Nat := (max toCache.number 1).toNat - 1

namespace Slices

variable {F : Bytes} {s : Slices}

/-- What `serializeAndUnloadUnused` does to the slices: nothing, or one of them that is
loaded is dropped, the one that was not used for the longest time. -/
inductive Unloads (s : Slices) : SerializedSlice → Slices → Prop where
  | nothing (s' : Slices) (hdata : s'.data = s.data) : Unloads s {} s'
  | dropped (s' : Slices) (purge : Nat) (rest : List Nat) (slice : Slice)
      (toCache : SerializedSlice) (hused : s.usedSlices = purge :: rest)
      (hmany : kSlicesInMemory ≤ rest.length) (hslice : s.data[purge]? = some slice)
      (hloaded : slice.loadedFromCache = true) (hdata : s'.data = s.data.set purge slice.unload)
      (hindex : toCache.number = -1 ∨ (0 ≤ toCache.number ∧ toCache.index = purge ∧
        (0 < toCache.number ∨ s.headerMode = .Good))) : Unloads s toCache s'

theorem Sound.setUsed (h : s.Sound F) {used : List Nat} (hnodup : used.Nodup)
    (hlt : ∀ i ∈ used, i < s.data.length) : { s with usedSlices := used }.Sound F :=
  { h with nodup := hnodup, used_lt := hlt }

theorem Sound.setSlice_unload (h : s.Sound F) (hunknown : s.headerMode ≠ .Unknown) (index : Nat)
    (slice : Slice) (full : Bool) : (s.setSlice index slice.unload full).Sound F :=
  h.setSlice (SliceOk.unload slice hunknown)

/-! ## Serializing -/

theorem Sound.maxSliceSize_some (h : s.Sound F) {number : Nat} (hle : number ≤ s.data.length) :
    ∃ m, maxSliceSize number s.size = some m := by
  have hentry : HasEntry s.size number := by
    cases hf : isFullInHeader s.size with
    | true =>
        rw [h.no_slices hf] at hle
        exact .inl (Nat.le_zero.mp hle)
    | false => exact .inr ⟨_, h.slices hf, hle⟩
  obtain ⟨m, hm, -⟩ := maxSliceSize_spec h.size_lt hentry
  exact ⟨m, hm⟩

theorem getLast?_of_ne_empty {parts : PartsMap} (hne : parts ≠ ∅) :
    ∃ back, parts.entries.getLast? = some back :=
  Option.isSome_iff_exists.mp (List.getLast?_isSome.mpr (mt FlatMap.entries_eq_nil_iff.mp hne))

theorem serializeData_slice {number : Nat} {m : Int} (hm : maxSliceSize number s.size = some m)
    (hnot : (s.isGoodHeader && number == 0) = false) (slice : Slice) (back : Nat × Bytes) :
    ∃ data, s.serializeData number slice back = some (data, s) := by
  simp only [serializeData, hnot, Bool.false_eq_true, if_false, serializeComplex, hm,
    Option.bind_eq_bind, Option.bind_some]
  split
  · exact ⟨_, rfl⟩
  · exact ⟨_, rfl⟩

theorem serializeData_header {number : Nat} {m : Int} (hm : maxSliceSize number s.size = some m)
    (hwrite : (s.isGoodHeader && number == 0) = true) (slice : Slice) (back : Nat × Bytes)
    {first : Slice} (hfirst : s.data[0]? = some first) (hloaded : first.loadedFromCache = true) :
    ∃ data, s.serializeData number slice back =
      some (data, s.setSlice 0 first.unload s.fullInCache) := by
  have hsize : maxSliceSize number (s.setSlice 0 first.unload s.fullInCache).size = some m := hm
  have hcomplex : ∃ data, s.serializeComplex true slice =
      some (data, s.setSlice 0 first.unload s.fullInCache) := by
    simp only [serializeComplex, serializeAndUnloadFirstSliceNoHeader, hfirst, hloaded,
      Bool.not_true, Bool.false_eq_true, if_false, if_true, Option.bind_eq_bind, Option.bind_some]
    exact ⟨_, rfl⟩
  obtain ⟨data, hdata⟩ := hcomplex
  simp only [serializeData, hwrite, if_true, gt_iff_lt, Nat.not_lt_zero, if_false, hdata, hsize,
    Option.bind_eq_bind, Option.bind_some]
  exact ⟨_, rfl⟩

/-- A slice with parts is serialized and dropped. -/
theorem Sound.serializeAndUnloadNumber_slice (h : s.Sound F) {index : Nat} {slice : Slice}
    (hslice : s.data[index]? = some slice) (hne : slice.parts ≠ ∅) :
    ∃ data, s.serializeAndUnloadNumber (index + 1) = some (⟨index + 1, data⟩,
      s.setSlice index slice.unload s.fullInCache) := by
  obtain ⟨back, hback⟩ := getLast?_of_ne_empty hne
  obtain ⟨m, hm⟩ := h.maxSliceSize_some (List.getElem?_eq_some_iff.mp hslice).1
  obtain ⟨data, hdata⟩ := serializeData_slice hm (by simp) slice back
  refine ⟨data, ?_⟩
  simp only [serializeAndUnloadNumber, sliceAt, Nat.succ_ne_zero, if_false, Nat.add_sub_cancel,
    hslice, hback, hdata, Option.bind_eq_bind, Option.bind_some]
  rfl

/-- A good header is serialized with the first slice behind it, which is dropped. -/
theorem Sound.serializeAndUnloadNumber_header (h : s.Sound F) (hmode : s.headerMode = .Good)
    {first : Slice} (hfirst : s.data[0]? = some first) (hloaded : first.loadedFromCache = true) :
    ∃ data, s.serializeAndUnloadNumber 0 = some (⟨0, data⟩,
      (s.setSlice 0 first.unload s.fullInCache).setHeader
        { s.header with changedSinceCache := false } s.fullInCache) := by
  obtain ⟨back, hback⟩ := getLast?_of_ne_empty (h.known (.inl hmode)).2
  obtain ⟨m, hm⟩ := h.maxSliceSize_some (Nat.zero_le s.data.length)
  have hgood : s.isGoodHeader = true := beq_iff_eq.mpr hmode
  obtain ⟨data, hdata⟩ := serializeData_header hm (by simp [hgood]) s.header back hfirst hloaded
  refine ⟨data, ?_⟩
  simp only [serializeAndUnloadNumber, sliceAt, if_true, hback, hdata, Option.bind_eq_bind,
    Option.bind_some]
  rfl

/-! ## The slice that was not used for the longest time -/

theorem isNoNeedToSaveToCache_eq_false {purge : Nat} {slice : Slice}
    (h : s.isNoNeedToSaveToCache purge slice = false) :
    s.headerMode ≠ .NoCache ∧
      (slice.changedSinceCache = true ∨ (s.headerMode = .Good ∧ purge = 0)) := by
  rw [isNoNeedToSaveToCache] at h
  split at h
  · exact absurd h (by decide)
  · next hmode =>
    refine ⟨hmode, ?_⟩
    cases hchanged : slice.changedSinceCache with
    | true => exact .inl rfl
    | false =>
        simp only [hchanged, Bool.not_false, Bool.true_and, Bool.or_eq_false_iff, Bool.not_eq_false',
          decide_eq_false_iff_not, Nat.not_lt, Nat.le_zero] at h
        exact .inr ⟨beq_iff_eq.mp h.1.1, h.1.2⟩

/-- A loaded slice that has to be saved is serialized and dropped. -/
theorem Sound.serializeAndUnloadSlice (h : s.Sound F) (hread : s.headerRead = true)
    {purge : Nat} {slice : Slice} (hslice : s.data[purge]? = some slice)
    (hloaded : slice.loadedFromCache = true) (hunknown : s.headerMode ≠ .Unknown)
    (hneed : s.isNoNeedToSaveToCache purge slice = false) :
    ∃ (toCache : SerializedSlice) (s' : Slices),
      s.serializeAndUnloadSlice (purge + 1) = some (toCache, s') ∧ s'.Sound F ∧ Kept s s' ∧
      s'.header.parts = s.header.parts ∧ s'.data = s.data.set purge slice.unload ∧
      0 ≤ toCache.number ∧ toCache.index = purge ∧
      (0 < toCache.number ∨ s.headerMode = .Good) := by
  obtain ⟨hnoCache, hchanged⟩ := isNoNeedToSaveToCache_eq_false hneed
  have hindex : purge < s.data.length := (List.getElem?_eq_some_iff.mp hslice).1
  have hexpects : (decide (s.headerMode = .Unknown) || decide (s.headerMode = .NoCache) ||
      decide (purge + 1 > s.data.length)) = false := by
    simp only [hunknown, hnoCache, decide_false, Bool.false_or, decide_eq_false_iff_not]
    omega
  rw [Slices.serializeAndUnloadSlice, hexpects, if_neg Bool.false_ne_true]
  by_cases hfirst : s.headerMode = .Good ∧ purge = 0
  · obtain ⟨hgood, rfl⟩ := hfirst
    obtain ⟨data, hdata⟩ := h.serializeAndUnloadNumber_header hgood hslice hloaded
    have hcond : (s.isGoodHeader && 0 + 1 == 1) = true := by simp [isGoodHeader, hgood]
    have hsound : ((s.setSlice 0 slice.unload s.fullInCache).setHeader
        { s.header with changedSinceCache := false } s.fullInCache).Sound F := by
      have hunloaded := h.setSlice_unload hunknown 0 slice s.fullInCache
      refine hunloaded.setHeader h.header (headerRead_iff.mp hread) h.excl
        (fun hmode => (h.known hmode).2) fun i slice' hi => ?_
      have hok := hunloaded.data i slice' hi
      rwa [setSlice_headerRead, hread] at hok
    exact ⟨_, _, by rw [hcond, if_pos rfl]; exact hdata, hsound,
      ⟨rfl, rfl, rfl, List.length_set ..⟩, rfl, rfl, Int.le_refl 0, rfl, .inr hgood⟩
  · have hne := (h.data purge slice hslice).changed (hchanged.resolve_right hfirst)
    obtain ⟨data, hdata⟩ := h.serializeAndUnloadNumber_slice hslice hne
    have hcond : (s.isGoodHeader && purge + 1 == 1) = false := by
      rw [isGoodHeader, Bool.and_eq_false_iff, beq_eq_false_iff_ne, beq_eq_false_iff_ne]
      exact (not_and_or.mp hfirst).imp_right fun hne0 heq => hne0 (Nat.succ.inj heq)
    refine ⟨_, _, by rw [hcond, if_neg Bool.false_ne_true]; exact hdata,
      h.setSlice_unload hunknown purge slice s.fullInCache,
      ⟨rfl, rfl, rfl, List.length_set ..⟩, rfl, rfl, ?_, ?_,
      .inl ?_⟩
    · exact Int.natCast_nonneg (purge + 1)
    · simp only [SerializedSlice.index]
      omega
    · exact Int.natCast_pos.mpr (Nat.succ_pos purge)

/-- **Dropping an unused slice never fails**, and drops only the one that was not used
for the longest time. -/
theorem Sound.serializeAndUnloadUnused (h : s.Sound F) (hread : s.headerRead = true) :
    ∃ (toCache : SerializedSlice) (s' : Slices),
      s.serializeAndUnloadUnused = some (toCache, s') ∧ s'.Sound F ∧ Kept s s' ∧
      s'.header.parts = s.header.parts ∧ Unloads s toCache s' := by
  rw [Slices.serializeAndUnloadUnused]
  split
  · exact ⟨{}, s, rfl, h, Kept.refl s, rfl, .nothing s rfl⟩
  · next purge rest hused =>
    split
    · exact ⟨{}, s, rfl, h, Kept.refl s, rfl, .nothing s rfl⟩
    · next hcond =>
      simp only [Bool.or_eq_true, decide_eq_true_eq, not_or, not_le] at hcond
      obtain ⟨hunknown, hmany⟩ := hcond
      rw [hused, List.length_cons] at hmany
      have hnodup := h.nodup
      rw [hused] at hnodup
      have hrest : { s with usedSlices := rest }.Sound F :=
        h.setUsed (List.nodup_cons.mp hnodup).2
          fun i hi => h.used_lt i (hused ▸ List.mem_cons_of_mem purge hi)
      obtain ⟨slice, hslice⟩ : ∃ slice, s.data[purge]? = some slice :=
        ⟨_, List.getElem?_eq_getElem (h.used_lt purge (hused ▸ List.mem_cons_self))⟩
      simp only [hslice, Option.bind_eq_bind, Option.bind_some]
      cases hloaded : slice.loadedFromCache with
      | false => exact ⟨{}, _, rfl, hrest, ⟨rfl, rfl, rfl, rfl⟩, rfl, .nothing _ rfl⟩
      | true =>
          cases hneed : isNoNeedToSaveToCache { s with usedSlices := rest } purge slice with
          | true =>
              exact ⟨{}, _, rfl, hrest.setSlice_unload hunknown purge slice s.fullInCache,
                ⟨rfl, rfl, rfl, List.length_set ..⟩, rfl, .dropped _ purge rest slice {} hused
                  (Nat.le_of_lt_succ hmany) hslice hloaded rfl (.inl rfl)⟩
          | false =>
              obtain ⟨toCache, s', hs', hsound, hkept, hheader, hdata, hindex⟩ :=
                hrest.serializeAndUnloadSlice hread hslice hloaded hunknown hneed
              exact ⟨toCache, s', hs', hsound,
                ⟨hkept.size, hkept.mode, hkept.read, hkept.length⟩, hheader,
                .dropped s' purge rest slice toCache hused (Nat.le_of_lt_succ hmany) hslice hloaded
                  hdata (.inr hindex)⟩

end Slices

end Streaming

end MessengerClient
