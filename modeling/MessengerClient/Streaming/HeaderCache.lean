import MessengerClient.Streaming.Sound

/-!
# MessengerClient.Streaming.HeaderCache

The answer of the cache for the header.  The first answer settles the header mode and
spreads the header parts over the slices; with a good header a later answer is really
one for the first slice.
-/

namespace MessengerClient

namespace Streaming

namespace Slices

variable {F : Bytes} {s : Slices}

/-! ## Spreading the header over the slices -/

/-- A slice may only have got parts of `es`. -/
structure Grew (es : List (Nat × Bytes)) (index : Nat) (old slice : Slice) : Prop where
  loading : slice.loadingFromCache = old.loadingFromCache
  loaded : slice.loadedFromCache = old.loadedFromCache
  keeps : ∀ k, old.parts.contains k = true → slice.parts.contains k = true
  news : ∀ k, slice.parts.contains k = true → old.parts.contains k = true ∨
    ∃ e ∈ es, e.1 / kInSlice = index ∧ e.1 - index * kInSlice = k

theorem Grew.refl (es : List (Nat × Bytes)) (index : Nat) (slice : Slice) :
    Grew es index slice slice :=
  ⟨rfl, rfl, fun _ => id, fun _ => .inl⟩

/-- The slices may only have got parts of `es`, and only before `bound`. -/
structure Grown (F : Bytes) (mode : HeaderMode) (header : PartsMap) (bound : Nat)
    (es : List (Nat × Bytes)) (before after : List Slice) : Prop where
  length : after.length = before.length
  slice : ∀ (i : Nat) slice, after[i]? = some slice → SliceOk F mode true header i slice ∧
    ∃ old, before[i]? = some old ∧ Grew es i old slice
  rest : ∀ i, bound ≤ i → after[i]? = before[i]?

variable {header : PartsMap}

theorem Grown.refl {mode : HeaderMode} {bound : Nat} {data : List Slice}
    (h : ∀ (i : Nat) slice, data[i]? = some slice → SliceOk F mode true header i slice)
    (es : List (Nat × Bytes)) : Grown F mode header bound es data data :=
  ⟨rfl, fun i slice hi => ⟨h i slice hi, slice, hi, Grew.refl es i slice⟩, fun _ _ => rfl⟩

theorem Grown.cons {mode : HeaderMode} {bound : Nat} {e : Nat × Bytes} {es : List (Nat × Bytes)}
    {a b c : List Slice} (hab : Grown F mode header bound [e] a b)
    (hbc : Grown F mode header bound es b c) : Grown F mode header bound (e :: es) a c := by
  refine ⟨hbc.length.trans hab.length, fun i slice hi => ?_,
    fun i hi => (hbc.rest i hi).trans (hab.rest i hi)⟩
  obtain ⟨hok, mid, hmid, hgrew⟩ := hbc.slice i slice hi
  obtain ⟨-, old, hold, hgrew'⟩ := hab.slice i mid hmid
  refine ⟨hok, old, hold, hgrew.loading.trans hgrew'.loading, hgrew.loaded.trans hgrew'.loaded,
    fun k hk => hgrew.keeps k (hgrew'.keeps k hk), fun k hk => ?_⟩
  cases hgrew.news k hk with
  | inr hnew =>
      obtain ⟨d, hd, hplace⟩ := hnew
      exact .inr ⟨d, List.mem_cons_of_mem e hd, hplace⟩
  | inl hmid' =>
      refine (hgrew'.news k hmid').imp_right fun hnew => ?_
      obtain ⟨d, hd, hplace⟩ := hnew
      exact ⟨d, List.mem_singleton.mp hd ▸ List.mem_cons_self, hplace⟩

/-- The slice that gets a header part, and the part in it. -/
theorem applyWhile_step {bound : Nat} (hbound : bound ≤ s.data.length)
    (hok : ∀ (i : Nat) slice, s.data[i]? = some slice →
      SliceOk F s.headerMode true header i slice)
    (hawaits : s.headerMode = .Good → ∀ first, s.data[0]? = some first →
      first.loadingFromCache = true)
    {e : Nat × Bytes} (he : Honest F 0 F.length e) (hlt : e.1 / kInSlice < bound)
    (hfree : ∀ slice, s.data[e.1 / kInSlice]? = some slice →
      slice.parts.contains (e.1 - e.1 / kInSlice * kInSlice) = false) :
    ∃ slice, s.data[e.1 / kInSlice]? = some slice ∧
      s.addPartAt (e.1 / kInSlice) (e.1 - e.1 / kInSlice * kInSlice) e.2 =
        some (s.setSlice (e.1 / kInSlice)
          (slice.withPart (e.1 - e.1 / kInSlice * kInSlice, e.2)) s.fullInCache) ∧
      Grown F s.headerMode header bound [e] s.data (s.data.set (e.1 / kInSlice)
        (slice.withPart (e.1 - e.1 / kInSlice * kInSlice, e.2))) := by
  have hindex : e.1 / kInSlice < s.data.length := lt_of_lt_of_le hlt hbound
  have hslice := List.getElem?_eq_getElem hindex
  generalize s.data[e.1 / kInSlice] = slice at hslice
  have hadd := Slice.addPart_eq (e := (e.1 - e.1 / kInSlice * kInSlice, e.2)) (hfree slice hslice)
  have hhonest := honest_in_slice he.aligned he.inside
  rw [show filePart F e.1 = e.2 by rw [he.bytes, Nat.zero_add]] at hhonest
  refine ⟨slice, hslice, ?_, List.length_set .., fun i slice' hi => ?_, fun i hi => ?_⟩
  · simp only [addPartAt, hslice, hadd, Option.bind_eq_bind, Option.bind_some]
    rfl
  · cases getElem?_setSlice hi with
    | inr hold => exact ⟨hok i slice' hold.2, slice', hold.2, Grew.refl _ i slice'⟩
    | inl heq =>
        obtain ⟨rfl, rfl⟩ := heq
        refine ⟨(hok _ slice hslice).withPart hhonest fun hmode hzero hidle => ?_, slice, hslice,
          rfl, rfl, fun k hk => ?_, fun k hk => ?_⟩
        · exact absurd (hidle.symm.trans (hawaits hmode slice (hzero ▸ hslice))) (by decide)
        · change (slice.parts.emplace _ _).contains k = true
          rw [contains_emplace, hk, Bool.or_true]
        · change (slice.parts.emplace _ _).contains k = true at hk
          rw [contains_emplace, Bool.or_eq_true, decide_eq_true_eq] at hk
          exact hk.symm.imp_right fun hplace => ⟨e, List.mem_singleton.mpr rfl, rfl, hplace.symm⟩
  · exact List.getElem?_set_ne (by omega)

/-- **The header parts go to their slices**, those before `bound`. -/
theorem applyWhile_grown {bound : Nat} (hbound : bound ≤ s.data.length)
    (hok : ∀ (i : Nat) slice, s.data[i]? = some slice →
      SliceOk F s.headerMode true header i slice)
    (hawaits : s.headerMode = .Good → ∀ first, s.data[0]? = some first →
      first.loadingFromCache = true)
    {es : List (Nat × Bytes)} (hes : ∀ e ∈ es, Honest F 0 F.length e)
    (hsorted : es.Pairwise (fun a b => a.1 < b.1))
    (hfree : ∀ e ∈ es, e.1 / kInSlice < bound → ∀ slice, s.data[e.1 / kInSlice]? = some slice →
      slice.parts.contains (e.1 - e.1 / kInSlice * kInSlice) = false) :
    ∃ data, applyWhile bound s es = some { s with data := data } ∧
      Grown F s.headerMode header bound es s.data data ∧
      ∀ e ∈ es, e.1 / kInSlice < bound → ∀ slice, data[e.1 / kInSlice]? = some slice →
        slice.parts.contains (e.1 - e.1 / kInSlice * kInSlice) = true := by
  induction es generalizing s with
  | nil => exact ⟨s.data, rfl, Grown.refl hok [], by simp⟩
  | cons e es ih =>
      obtain ⟨he, hes⟩ := List.forall_mem_cons.mp hes
      obtain ⟨hhead, htail⟩ := List.pairwise_cons.mp hsorted
      rw [applyWhile]
      split
      · next hlt =>
        obtain ⟨slice, hslice, hadd, hgrown⟩ := applyWhile_step hbound hok hawaits he hlt
          (hfree e List.mem_cons_self hlt)
        have hindex : e.1 / kInSlice < s.data.length := lt_of_lt_of_le hlt hbound
        -- A later part of the same slice has another offset in it.
        have hlater : ∀ d ∈ es, d.1 / kInSlice < bound → ∀ slice', (s.setSlice (e.1 / kInSlice)
            (slice.withPart (e.1 - e.1 / kInSlice * kInSlice, e.2)) s.fullInCache).data[
              d.1 / kInSlice]? = some slice' →
            slice'.parts.contains (d.1 - d.1 / kInSlice * kInSlice) = false := by
          intro d hd hdlt slice' hslice'
          have hmem := List.mem_cons_of_mem e hd
          cases getElem?_setSlice hslice' with
          | inl heq =>
              obtain ⟨hsame, rfl⟩ := heq
              have hed := hhead d hd
              have hfree' := hfree d hmem hdlt slice (hsame ▸ hslice)
              exact contains_emplace_ne _ (offset_sub_ne (by omega) hsame) hfree'
          | inr hold => exact hfree d hmem hdlt slice' hold.2
        have hawaits' : s.headerMode = .Good → ∀ first, (s.data.set (e.1 / kInSlice)
            (slice.withPart (e.1 - e.1 / kInSlice * kInSlice, e.2)))[0]? = some first →
            first.loadingFromCache = true := by
          intro hmode first hfirst
          obtain ⟨-, old, hold, hgrew⟩ := hgrown.slice 0 first hfirst
          exact hgrew.loading.trans (hawaits hmode old hold)
        obtain ⟨data, hdata, hgrown', happlied⟩ := ih
          (s := s.setSlice (e.1 / kInSlice)
            (slice.withPart (e.1 - e.1 / kInSlice * kInSlice, e.2)) s.fullInCache)
          (hbound.trans_eq (List.length_set ..).symm)
          (fun i slice hi => (hgrown.slice i slice hi).1)
          hawaits' hes htail hlater
        refine ⟨data, by rw [hadd]; exact hdata, hgrown.cons hgrown',
          fun d hd hdlt last hlast => ?_⟩
        cases List.mem_cons.mp hd with
        | inr hmem => exact happlied d hmem hdlt last hlast
        | inl heq =>
            subst heq
            obtain ⟨-, mid, hmid, hgrew⟩ := hgrown'.slice _ last hlast
            rw [setSlice_data, List.getElem?_set_self hindex] at hmid
            obtain rfl := Option.some.inj hmid
            refine hgrew.keeps _ ?_
            change (slice.parts.emplace _ _).contains _ = true
            rw [contains_emplace, decide_eq_true rfl, Bool.true_or]
      · next hstop =>
        refine ⟨s.data, rfl, Grown.refl hok _, fun d hd hdlt => ?_⟩
        -- The offsets go up, so no later part is before the bound either.
        have hle : e.1 ≤ d.1 := by
          cases List.mem_cons.mp hd with
          | inl heq => exact heq ▸ le_refl _
          | inr hmem => exact le_of_lt (hhead d hmem)
        exact absurd (lt_of_le_of_lt (Nat.div_le_div_right hle) hdlt) hstop

/-- The header parts of a slice are in it, once they went there. -/
theorem headerWithin_of_applied {parts : PartsMap} {bound index : Nat} {data : List Slice}
    (happlied : ∀ e ∈ parts.entries, e.1 / kInSlice < bound →
      ∀ slice, data[e.1 / kInSlice]? = some slice →
        slice.parts.contains (e.1 - e.1 / kInSlice * kInSlice) = true)
    (hindex : index < bound) {slice : Slice} (hslice : data[index]? = some slice) :
    HeaderWithin parts index slice.parts := by
  intro o ho hplace
  obtain ⟨bytes, hbytes⟩ := FlatMap.contains_iff.mp ho
  have h := happlied (o, bytes) (FlatMap.mem_entries_iff.mpr hbytes) (hplace ▸ hindex) slice
    (hplace ▸ hslice)
  rwa [hplace] at h

/-! ## The first answer -/

theorem Shape.length_eq (h : s.Shape F) (hf : isFullInHeader s.size = false) :
    s.data.length = (s.size + kInSlice - 1) / kInSlice := by
  have hcount := h.slices hf
  have hbound : s.size + kInSlice ≤ 2 ^ 32 := h.bound
  rw [slicesCount] at hcount
  split at hcount
  · rw [← Option.some.inj hcount, Nat.mod_eq_of_lt (by omega)]
  · exact absurd hcount (by simp)

theorem Shape.length_pos (h : s.Shape F) (hf : isFullInHeader s.size = false) :
    0 < s.data.length := by
  have hbig : ¬ s.size ≤ kMaxOnlyInHeader := of_decide_eq_false hf
  rw [h.length_eq hf]
  exact Nat.div_pos (by omega) (by decide)

/-- Reading the header, up to what its parts are then used for. -/
theorem processHeaderResult_eq (hloading : s.header.loadingFromCache = true)
    (hloaded : s.header.loadedFromCache = false) (parts : PartsMap) :
    ∃ flag full, s.processHeaderResult parts =
      (s.setHeader ((s.header.withCache parts).setFull flag) full).applyHeaderCacheData.bind
        fun s' => if s'.isGoodHeader then s'.markFirstLoading else some s' := by
  obtain ⟨flag, full, hcheck⟩ :=
    checkSliceFullLoaded_header (s.setHeader (s.header.withCache parts) s.fullInCache)
  refine ⟨flag, full, ?_⟩
  simp only [processHeaderResult, hloading, Slice.processCacheData_eq hloading hloaded,
    Bool.not_true, Bool.false_eq_true, if_false, Option.bind_eq_bind, Option.bind_some]
  change Option.bind ((s.setHeader (s.header.withCache parts) s.fullInCache).checkSliceFullLoaded 0)
    _ = _
  rw [hcheck]
  rfl

theorem markFirstLoading_eq {first : Slice} (h : s.data[0]? = some first) :
    s.markFirstLoading =
      some { s with data := s.data.set 0 { first with loadingFromCache := true } } := by
  simp only [markFirstLoading, h, Option.bind_eq_bind, Option.bind_some]
  rfl

theorem header_nonempty (hne : s.header.parts ≠ ∅) :
    s.header.parts.entries.isEmpty = false := by
  rw [List.isEmpty_eq_false_iff]
  exact mt FlatMap.entries_eq_nil_iff.mp hne

/-- What an answer for the header with `parts` leaves behind. -/
structure HeaderAnswered (F : Bytes) (s : Slices) (parts : PartsMap) (s' : Slices) : Prop where
  sound : s'.Sound F
  size : s'.size = s.size
  length : s'.data.length = s.data.length
  read : s'.headerRead = true
  mode : s.headerRead = true → s'.headerMode = s.headerMode
  good : s'.headerMode = .Good → s.headerMode = .Good ∨ computeIsGoodHeader s.size parts = true
  first : s'.headerMode = .Good → ∀ first, s'.data[0]? = some first →
    HeaderWithin s'.header.parts 0 first.parts
  others : s.headerRead = true → ∀ o, (o < kInSlice → parts.contains o = false) →
    s.Open o → s'.Open o

theorem isGoodHeader_of_mode (h : s.computeHeaderMode = .Good) :
    computeIsGoodHeader s.size s.header.parts = true := by
  rw [computeHeaderMode] at h
  split at h
  · exact absurd h (by decide)
  · next hf =>
    split at h
    · next hgood => exact hgood
    · exact absurd h (by decide)

/-- The header parts go to empty slices, and the mode is settled on. -/
theorem Shape.applyHeaderCacheData_unknown (h : s.Shape F) (hmode : s.headerMode = .Unknown)
    (hread : s.headerRead = true) (hheader : HonestParts F 0 F.length s.header.parts)
    (hexcl : s.header.loadingFromCache = true → s.header.loadedFromCache = false)
    (hdata : ∀ (i : Nat) slice, s.data[i]? = some slice →
      SliceOk F s.headerMode true ∅ i slice ∧ slice.parts = ∅)
    (hf : isFullInHeader s.size = false) (hne : s.header.parts ≠ ∅) :
    ∃ s' : Slices, (s.applyHeaderCacheData.bind fun s' =>
        if s'.isGoodHeader then s'.markFirstLoading else some s') = some s' ∧ s'.Sound F ∧
      s'.size = s.size ∧ s'.data.length = s.data.length ∧ s'.headerRead = true ∧
      s'.headerMode = s.computeHeaderMode ∧
      (s'.headerMode = .Good → ∀ first, s'.data[0]? = some first →
        HeaderWithin s'.header.parts 0 first.parts) := by
  have hgood : s.headerMode ≠ .Good := by
    rw [hmode]
    decide
  obtain ⟨data, happly, hgrown, happlied⟩ := applyWhile_grown (Nat.le_refl _)
    (fun i slice hi => (hdata i slice hi).1) (fun hnot => absurd hnot hgood) hheader
    s.header.parts.sorted fun e _ _ slice hslice => by
      rw [(hdata _ slice hslice).2]
      rfl
  rw [hmode] at hgrown
  obtain ⟨hunknown, hnoCache⟩ := computeHeaderMode_known s
  have hdone : s.applyHeaderCacheData = some (s.settled data) := by
    simp only [applyHeaderCacheData, header_nonempty hne, hmode, hf, Bool.false_eq_true, if_false,
      happly, Option.bind_eq_bind, Option.bind_some, Slices.headerDone]
    rfl
  have hflags : ∀ (i : Nat) slice, data[i]? = some slice → slice.loadedFromCache = false :=
    fun i slice hi => by
      obtain ⟨-, old, hold, hgrew⟩ := hgrown.slice i slice hi
      have hok := (hdata i old hold).1
      rw [hmode] at hok
      exact hgrew.loaded.trans (hok.idle (.inl rfl)).2
  have hwithin : ∀ first, data[0]? = some first → HeaderWithin s.header.parts 0 first.parts :=
    fun first hfirst => headerWithin_of_applied happlied
      (lt_of_lt_of_eq (List.getElem?_eq_some_iff.mp hfirst).1 hgrown.length) hfirst
  rw [hdone, Option.bind_some]
  split
  · next hgoodMode =>
    have hlength : (s.settled data).data.length = s.data.length := hgrown.length
    obtain ⟨first, hfirst⟩ : ∃ first, data[0]? = some first :=
      ⟨_, List.getElem?_eq_getElem (hgrown.length ▸ h.length_pos hf)⟩
    refine ⟨s.settled (data.set 0 { first with loadingFromCache := true }),
      markFirstLoading_eq hfirst, h.settle hmode hread hheader hexcl (fun _ => hne) ?_
      (fun i slice hi => ?_), rfl, ?_, (headerRead_settled hmode _).trans hread, rfl,
      fun _ first' hfirst' => ?_⟩
    · rw [List.length_set, hgrown.length]
    · cases getElem?_setSlice hi with
      | inl heq =>
          obtain ⟨rfl, rfl⟩ := heq
          exact (hgrown.slice 0 first hfirst).1.settle hunknown hnoCache
            (fun _ => hflags 0 first hfirst) fun _ _ => ⟨hwithin first hfirst, .inr rfl⟩
      | inr hold =>
          exact (hgrown.slice i slice hold.2).1.settle hunknown hnoCache
            (fun _ => hflags i slice hold.2) fun _ hzero => absurd hzero hold.1
    · exact (List.length_set ..).trans hgrown.length
    · cases getElem?_setSlice hfirst' with
      | inl heq =>
          obtain ⟨-, rfl⟩ := heq
          exact hwithin first hfirst
      | inr hold => exact absurd rfl hold.1
  · next hgoodMode =>
    refine ⟨s.settled data, rfl, h.settle hmode hread hheader hexcl (fun _ => hne) hgrown.length
      (fun i slice hi => ?_), rfl, hgrown.length, (headerRead_settled hmode _).trans hread, rfl,
      fun hnot => absurd (beq_iff_eq.mpr hnot) hgoodMode⟩
    exact (hgrown.slice i slice hi).1.settle hunknown hnoCache (fun _ => hflags i slice hi)
      fun hnot => absurd (beq_iff_eq.mpr hnot) hgoodMode

/-- A header that holds the whole file has no slices to fill. -/
theorem Sound.applyHeaderCacheData_full (h : s.Sound F) (hmode : s.headerMode = .Unknown)
    (hread : s.headerRead = true) (hf : isFullInHeader s.size = true)
    (hne : s.header.parts ≠ ∅) :
    (s.applyHeaderCacheData.bind fun s' =>
        if s'.isGoodHeader then s'.markFirstLoading else some s') = some (s.settled s.data) ∧
      (s.settled s.data).Sound F := by
  have hnil : ∀ (i : Nat) slice, s.data[i]? ≠ some slice := by
    simp [h.no_slices hf]
  have hfull : s.computeHeaderMode = .Full := if_pos hf
  have hdone : s.applyHeaderCacheData = some (s.settled s.data) := by
    simp only [applyHeaderCacheData, header_nonempty hne, hmode, hf, Bool.false_eq_true, if_false,
      Slices.headerDone]
    rfl
  refine ⟨?_, h.toShape.settle hmode hread h.header h.excl (fun hf' => ?_) rfl
    fun i slice hi => absurd hi (hnil i slice)⟩
  · rw [hdone, Option.bind_some]
    refine if_neg fun hgood => ?_
    exact absurd (hfull.symm.trans (beq_iff_eq.mp hgood)) (by decide)
  · exact absurd (hf'.symm.trans hf) (by decide)

theorem applyHeaderCacheData_of_known (hunknown : s.headerMode ≠ .Unknown)
    (hgood : s.headerMode ≠ .Good) : s.applyHeaderCacheData = some s := by
  rw [applyHeaderCacheData, if_neg hgood, if_pos hunknown]
  split <;> rfl

theorem applyHeaderCacheData_of_empty (h : s.header.parts = ∅) :
    s.applyHeaderCacheData = some s := by
  rw [applyHeaderCacheData, h]
  rfl

/-- Before the header was read the mode is not settled on by its parts. -/
theorem Sound.mode_unread (h : s.Sound F) (hread : s.headerRead = false) :
    s.headerMode = .Unknown ∨ s.headerMode = .Full := by
  have hparts := h.unread hread
  cases hm : s.headerMode with
  | Unknown => exact .inl rfl
  | Full => exact .inr rfl
  | Good => exact absurd hparts (h.known (.inl hm)).2
  | Small => exact absurd hparts (h.known (.inr hm)).2
  | NoCache => simp [headerRead, hm] at hread

/-- **The first answer for the header** is processed in any state that waits for it. -/
theorem Sound.processHeader_unread (h : s.Sound F) (hread : s.headerRead = false)
    {parts : PartsMap} (hparts : HonestParts F 0 F.length parts) :
    ∃ s' : Slices, s.processCacheResult 0 parts = some s' ∧ HeaderAnswered F s parts s' := by
  have hparts0 := h.unread hread
  have hmode := h.mode_unread hread
  have hgoodMode : s.headerMode ≠ .Good := by
    cases hmode with
    | inl hm => exact hm ▸ by decide
    | inr hm => exact hm ▸ by decide
  have hgood : s.isGoodHeader = false := beq_eq_false_iff_ne.mpr hgoodMode
  have hloading := h.waits hread
  have hloaded := h.excl hloading
  obtain ⟨flag, full, heq⟩ := processHeaderResult_eq hloading hloaded parts
  have hstart : s.processCacheResult 0 parts = s.processHeaderResult parts := by
    simp [processCacheResult, hgood]
  rw [hstart, heq]
  have hnew : ((s.header.withCache parts).setFull flag).parts = parts := by
    change s.header.parts.emplaceAll parts.entries = parts
    rw [hparts0, FlatMap.empty_emplaceAll_entries]
  have hknown : ¬ (s.headerMode = .Good ∨ s.headerMode = .Small) := fun hm =>
    (h.known hm).2 hparts0
  have hread1 : (s.setHeader ((s.header.withCache parts).setFull flag) full).headerRead = true :=
    headerRead_iff.mpr (.inr rfl)
  have hunread : ∀ {s' : Slices}, s.headerRead = true → s'.headerMode = s.headerMode :=
    fun htrue => absurd (hread.symm.trans htrue) (by decide)
  have hothers : ∀ {s' : Slices}, s.headerRead = true →
      ∀ o, (o < kInSlice → parts.contains o = false) → s.Open o → s'.Open o :=
    fun htrue => absurd (hread.symm.trans htrue) (by decide)
  -- Where the header brings nothing to the slices, it is just stored.
  have hstored : parts = ∅ ∨ s.data = [] →
      (s.setHeader ((s.header.withCache parts).setFull flag) full).Sound F := fun hvacuous =>
    h.setHeader (hnew.symm ▸ hparts) (.inr rfl) (fun hm => absurd hm Bool.false_ne_true)
      (fun hm => absurd hm hknown) fun i slice hi => by
        cases hvacuous with
        | inr hnil => simp [hnil] at hi
        | inl hnone =>
            have hok := h.data i slice hi
            rw [hparts0] at hok
            rw [hnew, hnone]
            exact hok.read
  have hnotGood : (s.setHeader ((s.header.withCache parts).setFull flag) full).headerMode ≠ .Good :=
    hgoodMode
  by_cases hnone : parts = ∅
  · refine ⟨_, ?_, hstored (.inl hnone), rfl, rfl, hread1, hunread,
      fun hm => absurd hm hnotGood, fun hm => absurd hm hnotGood, hothers⟩
    rw [applyHeaderCacheData_of_empty (hnew.trans hnone), Option.bind_some]
    exact if_neg (by rw [isGoodHeader] at hgood ⊢; simpa using hgood)
  · cases hmode with
    | inr hfull =>
        refine ⟨_, ?_, hstored (.inr (h.no_slices (h.full hfull))), rfl, rfl, hread1, hunread,
          fun hm => absurd hm hnotGood, fun hm => absurd hm hnotGood, hothers⟩
        rw [applyHeaderCacheData_of_known (by rw [setHeader_mode, hfull]; decide)
          (by rw [setHeader_mode, hfull]; decide), Option.bind_some]
        exact if_neg (by rw [isGoodHeader] at hgood ⊢; simpa using hgood)
    | inl hunknown =>
        cases hf : isFullInHeader s.size with
        | true =>
            obtain ⟨hs', hsound⟩ := (hstored (.inr (h.no_slices hf))).applyHeaderCacheData_full
              hunknown hread1 hf (hnew.symm ▸ hnone)
            refine ⟨_, hs', hsound, rfl, rfl, (headerRead_settled
              (s := s.setHeader ((s.header.withCache parts).setFull flag) full) hunknown _).trans
              hread1, hunread, fun hm => absurd ((if_pos hf).symm.trans hm) (by decide),
              fun _ first hfirst => ?_, hothers⟩
            change s.data[0]? = some first at hfirst
            simp [h.no_slices hf] at hfirst
        | false =>
            have hdata : ∀ (i : Nat) slice, s.data[i]? = some slice →
                SliceOk F s.headerMode true ∅ i slice ∧ slice.parts = ∅ := fun i slice hi => by
              have hok := h.data i slice hi
              rw [hparts0] at hok
              exact ⟨hok.read, hok.unread hread⟩
            have hshape : Shape F (s.setHeader ((s.header.withCache parts).setFull flag) full) :=
              h.toShape.congr rfl rfl rfl
            obtain ⟨s', hs', hsound, hsize, hlength, hread', hcomputed, hfirst⟩ :=
              hshape.applyHeaderCacheData_unknown hunknown hread1 (hnew.symm ▸ hparts)
                (fun hm => absurd hm Bool.false_ne_true) hdata hf (hnew.symm ▸ hnone)
            exact ⟨s', hs', hsound, hsize, hlength, hread', hunread,
              fun hm => .inr (hnew ▸ isGoodHeader_of_mode (hcomputed.symm.trans hm)), hfirst,
              hothers⟩

/-! ## An answer for a good header -/

/-- Marking the first slice, which waits already, changes nothing. -/
theorem set_loading_self {data : List Slice} {first : Slice} (hfirst : data[0]? = some first)
    (hloading : first.loadingFromCache = true) :
    data.set 0 { first with loadingFromCache := true } = data := by
  have hself : { first with loadingFromCache := true } = first := by
    obtain ⟨parts, loading, loaded, changed, full⟩ := first
    exact congrArg (fun flag => Slice.mk parts flag loaded changed full) hloading.symm
  rw [hself]
  cases data with
  | nil => rfl
  | cons d ds => rw [Option.some.inj hfirst, List.set_cons_zero]

theorem Sound.applyHeaderCacheData_good (h : s.Sound F) (hmode : s.headerMode = .Good)
    (hread : s.headerRead = true) {first : Slice} (hfirst : s.data[0]? = some first)
    (hloading : first.loadingFromCache = true) (hapart : HeaderApart s.header.parts first.parts) :
    ∃ data, (s.applyHeaderCacheData.bind fun s' =>
        if s'.isGoodHeader then s'.markFirstLoading else some s') = some { s with data := data } ∧
      { s with data := data }.Sound F ∧
      Grown F s.headerMode s.header.parts 1 s.header.parts.entries s.data data ∧
      ∀ first', data[0]? = some first' → HeaderWithin s.header.parts 0 first'.parts := by
  have hpos : 0 < s.data.length := (List.getElem?_eq_some_iff.mp hfirst).1
  have hdata : ∀ (i : Nat) slice, s.data[i]? = some slice →
      SliceOk F s.headerMode true s.header.parts i slice := fun i slice hi =>
    hread ▸ h.data i slice hi
  obtain ⟨data, happly, hgrown, happlied⟩ := applyWhile_grown hpos hdata
    (fun _ first' hfirst' => by
      rw [hfirst] at hfirst'
      exact Option.some.inj hfirst' ▸ hloading)
    h.header s.header.parts.sorted fun e he hlt slice hslice => by
      have hzero : e.1 / kInSlice = 0 := Nat.lt_one_iff.mp hlt
      rw [hzero, hfirst] at hslice
      obtain rfl := Option.some.inj hslice
      rw [hzero, Nat.zero_mul, Nat.sub_zero]
      exact hapart e.1 (FlatMap.contains_iff.mpr ⟨e.2, FlatMap.mem_entries_iff.mp he⟩)
        (Nat.lt_of_div_eq_zero (by decide) hzero)
  obtain ⟨first', hfirst'⟩ : ∃ first', data[0]? = some first' :=
    ⟨_, List.getElem?_eq_getElem (hgrown.length ▸ hpos)⟩
  obtain ⟨-, old, hold, hgrew⟩ := hgrown.slice 0 first' hfirst'
  rw [hfirst] at hold
  obtain rfl := Option.some.inj hold
  have hdone : s.applyHeaderCacheData = some { s with data := data } := by
    rw [applyHeaderCacheData, header_nonempty (h.known (.inl hmode)).2, if_neg Bool.false_ne_true,
      if_pos hmode]
    exact happly
  refine ⟨data, ?_, h.setData hgrown.length fun i slice hi => ?_, hgrown, fun last hlast =>
    headerWithin_of_applied happlied Nat.zero_lt_one hlast⟩
  · have hgood : { s with data := data }.isGoodHeader = true := beq_iff_eq.mpr hmode
    rw [hdone, Option.bind_some, if_pos hgood, markFirstLoading_eq hfirst',
      set_loading_self hfirst' (hgrew.loading.trans hloading)]
  · rw [hread]
    exact (hgrown.slice i slice hi).1

/-- **A good header may be answered again** while the first slice waits: its parts go
to the first slice, which goes on waiting for its own. -/
theorem Sound.processHeader_good (h : s.Sound F) (hfirst : s.FirstAwaited) {parts : PartsMap}
    (hparts : HonestParts F 0 F.length parts)
    (hapart : ∀ first, s.data[0]? = some first → HeaderApart parts first.parts) :
    ∃ s' : Slices, s.processCacheResult 0 parts = some s' ∧ HeaderAnswered F s parts s' := by
  obtain ⟨hmode, first, hfirst, hloading, hfree⟩ := hfirst
  have hgood : s.isGoodHeader = true := beq_iff_eq.mpr hmode
  obtain ⟨hf, hne⟩ := h.known (.inl hmode)
  obtain ⟨hunknown, hnoCache, hread⟩ := h.headerRead_of_loading hfirst hloading
  have hloaded := (h.data 0 first hfirst).excl hloading
  -- The header is processed as if it were loading.
  obtain ⟨flag, full, heq⟩ := processHeaderResult_eq
    (s := s.setHeader { s.header with loadingFromCache := true, loadedFromCache := false }
      s.fullInCache) rfl rfl parts
  have hstart : s.processCacheResult 0 parts = (s.setHeader
      { s.header with loadingFromCache := true, loadedFromCache := false }
      s.fullInCache).processHeaderResult parts := by
    simp only [processCacheResult, hgood, hfirst, hloading, Nat.not_lt_zero, ne_eq,
      not_true_eq_false, Bool.false_eq_true, Bool.not_true, if_false, if_true, Option.bind_eq_bind,
      Option.bind_some]
    rfl
  rw [hstart, heq]
  change ∃ s' : Slices, Option.bind (Slices.applyHeaderCacheData
    (s.setHeader ((s.header.withCache parts).setFull flag) full)) _ = some s' ∧ _
  have h1 : (s.setHeader ((s.header.withCache parts).setFull flag) full).Sound F := by
    refine h.setHeader (honestParts_emplaceAll h.header hparts) (.inr rfl)
      (fun hm => absurd hm Bool.false_ne_true) (fun _ => FlatMap.emplaceAll_ne_empty _ hne)
      fun i slice hi => ?_
    have hok := h.data i slice hi
    rw [hread] at hok
    refine hok.awaiting hunknown fun hzero => ?_
    rw [hzero, hfirst] at hi
    exact Option.some.inj hi ▸ ⟨hloading, hloaded⟩
  have hread1 : (s.setHeader ((s.header.withCache parts).setFull flag) full).headerRead = true :=
    headerRead_iff.mpr (.inr rfl)
  have hapart1 : HeaderApart ((s.header.withCache parts).setFull flag).parts first.parts := by
    intro o ho hlt
    change (s.header.parts.emplaceAll parts.entries).contains o = true at ho
    rw [contains_emplaceAll, Bool.or_eq_true] at ho
    exact ho.elim (fun hold => hfree o hold hlt) fun hnew => hapart first hfirst o hnew hlt
  obtain ⟨data, hs', hsound, hgrown, hwithin⟩ :=
    h1.applyHeaderCacheData_good hmode hread1 hfirst hloading hapart1
  refine ⟨_, hs', hsound, rfl, hgrown.length, hread1, fun _ => rfl, fun _ => .inl hmode,
    fun _ => hwithin, fun _ o hlacks ho => ?_⟩
  have hheader : o < kInSlice → (s.header.parts.emplaceAll parts.entries).contains o = false :=
    fun hlt => by rw [contains_emplaceAll, ho.first hmode hlt, hlacks hlt, Bool.false_or]
  refine ⟨ho.aligned, ho.inside, fun hf' => absurd (hf.symm.trans hf') (by decide), fun _ => ?_,
    fun _ => hheader⟩
  obtain ⟨slice, hslice, hmissing⟩ := ho.slice hf
  by_cases hzero : o / kInSlice = 0
  · rw [hzero, hfirst] at hslice
    obtain rfl := Option.some.inj hslice
    have hlt : o < kInSlice := Nat.lt_of_div_eq_zero (by decide) hzero
    obtain ⟨first', hfirst'⟩ : ∃ first', data[0]? = some first' :=
      ⟨_, List.getElem?_eq_getElem (lt_of_lt_of_eq (List.getElem?_eq_some_iff.mp hfirst).1
        hgrown.length.symm)⟩
    refine ⟨first', hzero ▸ hfirst', ?_⟩
    obtain ⟨-, old, hold, hgrew⟩ := hgrown.slice 0 first' hfirst'
    change s.data[0]? = some old at hold
    rw [hfirst] at hold
    obtain rfl := Option.some.inj hold
    rw [hzero, Nat.zero_mul, Nat.sub_zero] at hmissing ⊢
    -- What the first slice got is in the header.
    by_contra hgot
    cases hgrew.news o (by simpa using hgot) with
    | inl hhad => exact Bool.false_ne_true (hmissing.symm.trans hhad)
    | inr hnew =>
        obtain ⟨e, he, -, hplace⟩ := hnew
        rw [Nat.zero_mul, Nat.sub_zero] at hplace
        have hcontains := FlatMap.contains_iff.mpr ⟨e.2, FlatMap.mem_entries_iff.mp he⟩
        rw [hplace] at hcontains
        exact Bool.false_ne_true ((hheader hlt).symm.trans hcontains)
  · refine ⟨slice, ?_, hmissing⟩
    exact (hgrown.rest _ (Nat.one_le_iff_ne_zero.mpr hzero)).trans hslice

end Slices

end Streaming

end MessengerClient
