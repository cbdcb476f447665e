import MessengerClient.Streaming.Fill

/-!
# MessengerClient.Streaming.Reads

`fill` in every case it has: before the header was read, from a header that holds the
whole file, from one slice, and over the border of two.  None of them fails on a sound
state, and one that succeeds has the bytes of the file in the buffer.
-/

namespace MessengerClient

namespace Streaming

namespace Slices

variable {F : Bytes} {s : Slices}

/-! ## A reading cut at the slice border -/

/-- What `fill` expects of a reading. -/
structure Expected (s : Slices) (offset : Nat) (buffer : Bytes) : Prop where
  pos : 0 < buffer.length
  le : offset + buffer.length ≤ s.size
  small : buffer.length ≤ kInSlice

/-- A reading of `length` bytes from `offset` on lies in one slice, or ends in the next one. -/
inductive Cut (s : Slices) (offset length : Nat) (first : SliceFill) : Prop where
  | one (hfills : s.sliceFills offset length = some (first, none))
      (hlength : first.till - first.fromOffset = length) : Cut s offset length first
  | two (second : SliceFill) (hfills : s.sliceFills offset length = some (first, some second))
      (hcovers : s.Covers second) (hindex : second.index = first.index + 1)
      (hfrom : second.fromOffset = 0)
      (hborder : second.index * kInSlice = offset + (first.till - first.fromOffset))
      (hlength : first.till - first.fromOffset + second.till = length) :
      Cut s offset length first

/-- The ends of a reading in one slice that starts at `base`. -/
theorem ends_one {K base offset length size : Nat} (hpos : 0 < length)
    (hle : offset + length ≤ size) (hfloor : base ≤ offset) (hone : offset + length ≤ base + K) :
    offset - base < min K (offset + length - base) ∧
      min K (offset + length - base) ≤ min K (size - base) ∧ base + (offset - base) = offset ∧
      min K (offset + length - base) - (offset - base) = length := by
  omega

/-- The ends of a reading that goes over the border behind the slice at `base`. -/
theorem ends_two {K base offset length size : Nat} (hle : offset + length ≤ size)
    (hsmall : length ≤ K) (hfloor : base ≤ offset) (hnext : offset < base + K)
    (htwo : base + K < offset + length) :
    offset - base < min K (offset + length - base) ∧
      min K (offset + length - base) ≤ min K (size - base) ∧ base + (offset - base) = offset ∧
      0 < offset + length - (base + K) ∧
      offset + length - (base + K) ≤ min K (size - (base + K)) ∧
      base + K = offset + (min K (offset + length - base) - (offset - base)) ∧
      min K (offset + length - base) - (offset - base) + (offset + length - (base + K)) =
        length := by
  omega

/-- How many slices a reading needs: one or two, and they are there. -/
theorem slices_one {offset length size : Nat} (hpos : 0 < length) (hle : offset + length ≤ size)
    (hone : offset + length ≤ offset / kInSlice * kInSlice + kInSlice) :
    (offset + length + kInSlice - 1) / kInSlice = offset / kInSlice + 1 ∧
      offset / kInSlice + 1 ≤ (size + kInSlice - 1) / kInSlice := by
  rw [show kInSlice = 8388608 from rfl] at *
  omega

theorem slices_two {offset length size : Nat} (hle : offset + length ≤ size)
    (hsmall : length ≤ kInSlice)
    (htwo : offset / kInSlice * kInSlice + kInSlice < offset + length) :
    (offset + length + kInSlice - 1) / kInSlice = offset / kInSlice + 2 ∧
      offset / kInSlice + 2 ≤ (size + kInSlice - 1) / kInSlice := by
  rw [show kInSlice = 8388608 from rfl] at *
  omega

theorem Sound.cut (h : s.Sound F) (hf : isFullInHeader s.size = false) {offset length : Nat}
    (hpos : 0 < length) (hle : offset + length ≤ s.size) (hsmall : length ≤ kInSlice) :
    ∃ first, s.Covers first ∧ first.index * kInSlice + first.fromOffset = offset ∧
      s.Cut offset length first := by
  have hbound : s.size + kInSlice ≤ 2 ^ 32 := h.bound
  have hcount := h.length_eq hf
  have htill : u32 (offset + length : Nat) = offset + length := u32_of_lt (by omega)
  have hceil : u32 (offset + length + kInSlice - 1 : Nat) = offset + length + kInSlice - 1 :=
    u32_of_lt (by omega)
  have hfloor : offset / kInSlice * kInSlice ≤ offset := Nat.div_mul_le_self ..
  have hnext : offset < offset / kInSlice * kInSlice + kInSlice := Nat.lt_div_mul_add (by decide)
  have hmul : (offset / kInSlice + 1) * kInSlice = offset / kInSlice * kInSlice + kInSlice :=
    Nat.succ_mul ..
  by_cases hone : offset + length ≤ offset / kInSlice * kInSlice + kInSlice
  · obtain ⟨hslices, hlen⟩ := slices_one hpos hle hone
    obtain ⟨hlt, hin, hstart, hends⟩ := ends_one hpos hle hfloor hone
    rw [← hcount] at hlen
    obtain ⟨slice, hslice⟩ : ∃ slice, s.data[offset / kInSlice]? = some slice :=
      ⟨_, List.getElem?_eq_getElem (Nat.lt_of_succ_le hlen)⟩
    refine ⟨⟨offset / kInSlice, slice, offset - offset / kInSlice * kInSlice,
      min kInSlice (offset + length - offset / kInSlice * kInSlice)⟩,
      ⟨hslice, hlt, (pieceLimit_succ ..).symm ▸ hin⟩, hstart, .one ?_ hends⟩
    simp only [sliceFills, htill, hceil, hslices, hslice, hlen, decide_true, Bool.true_or,
      Bool.and_self, Bool.not_true, Bool.false_eq_true, if_false, Option.bind_eq_bind,
      Option.bind_some, Nat.lt_irrefl]
    rfl
  · have htwo := not_le.mp hone
    obtain ⟨hslices, hlen⟩ := slices_two hle hsmall htwo
    obtain ⟨hlt, hin, hstart, hpos2, hin2, hborder, hends⟩ :=
      ends_two hle hsmall hfloor hnext htwo
    rw [← hcount] at hlen
    obtain ⟨slice, hslice⟩ : ∃ slice, s.data[offset / kInSlice]? = some slice :=
      ⟨_, List.getElem?_eq_getElem (Nat.lt_of_succ_lt (Nat.lt_of_succ_le hlen))⟩
    obtain ⟨next, hnextSlice⟩ : ∃ next, s.data[offset / kInSlice + 1]? = some next :=
      ⟨_, List.getElem?_eq_getElem (Nat.lt_of_succ_le hlen)⟩
    rw [← hmul] at htwo hpos2 hin2 hborder hends
    rw [← pieceLimit_succ] at hin2
    have hu : u32 ((offset / kInSlice + 1) * kInSlice : Nat) =
        (offset / kInSlice + 1) * kInSlice := u32_of_lt (by omega)
    refine ⟨⟨offset / kInSlice, slice, offset - offset / kInSlice * kInSlice,
      min kInSlice (offset + length - offset / kInSlice * kInSlice)⟩,
      ⟨hslice, hlt, (pieceLimit_succ ..).symm ▸ hin⟩, hstart,
      .two ⟨offset / kInSlice + 1, next, 0,
        offset + length - (offset / kInSlice + 1) * kInSlice⟩ ?_
        ⟨hnextSlice, hpos2, hin2⟩ rfl rfl
        hborder hends⟩
    simp only [sliceFills, htill, hceil, hslices, hslice, hnextSlice, hu, hlen, decide_true,
      Bool.or_true, Bool.and_self, Bool.not_true, Bool.false_eq_true, if_false,
      Option.bind_eq_bind, Option.bind_some, Nat.lt_succ_self, if_true, gt_iff_lt, htwo]
    rfl

/-! ## A whole reading -/

/-- The bytes of the file that a reading is for. -/
def bytesAt (F : Bytes) (offset length : Nat) : Bytes := (F.drop offset).take length

theorem bytesAt_add (F : Bytes) (offset a b : Nat) :
    bytesAt F offset a ++ bytesAt F (offset + a) b = bytesAt F offset (a + b) := by
  rw [bytesAt, bytesAt, bytesAt, List.take_add, List.drop_drop]

theorem length_bytesAt {offset length : Nat} (hle : offset + length ≤ F.length) :
    (bytesAt F offset length).length = length := by
  rw [bytesAt, List.length_take, List.length_drop]
  omega

/-- A reading that leaves the slices as they are. -/
theorem Sound.fillStep_self (h : s.Sound F) {result : FillResult}
    (hnumbers : result.sliceNumbersFromCache = []) (hcache : result.toCache = {})
    (hfresh : ∀ o ∈ result.offsetsFromLoader, s.Fresh o)
    (hstate : result.state = .Success → isFullInHeader s.size = true) : FillStep F s result s where
  sound := h
  kept := Kept.refl s
  header := fun _ => rfl
  slice := fun _ slice hi => ⟨slice, hi, .kept⟩
  asked := by simp [hnumbers]
  asked_nodup := by simp [hnumbers]
  offsets := hfresh
  toCache := fun hnumber => by
    rw [hcache] at hnumber
    exact absurd hnumber (by decide)
  filled := id
  served := fun hsuccess _ hf => absurd (hf.symm.trans (hstate hsuccess)) (by decide)

/-- Only offsets inside of the file are asked for. -/
theorem mem_foldl_stackAdd {size : Nat} (asked : List Nat) (offsets : List Nat) {o : Nat}
    (ho : o ∈ asked.foldl (fun offsets full =>
      if full < size then stackAdd kLoadFromRemoteMax offsets full else offsets) offsets) :
    o ∈ offsets ∨ (o ∈ asked ∧ o < size) := by
  induction asked generalizing offsets with
  | nil => exact .inl ho
  | cons a asked ih =>
      rw [List.foldl_cons] at ho
      cases ih _ ho with
      | inr hmem => exact .inr ⟨List.mem_cons_of_mem a hmem.1, hmem.2⟩
      | inl hmem =>
          split at hmem
          · next hlt =>
            exact (mem_stackAdd hmem).imp_right fun heq => by
              rw [heq]
              exact ⟨List.mem_cons_self, hlt⟩
          · exact .inl hmem

theorem Sound.fillFromHeader (h : s.Sound F) (hf : isFullInHeader s.size = true) {offset : Nat}
    {buffer : Bytes} (he : s.Expected offset buffer) :
    ∃ result buffer', s.fillFromHeader offset buffer = some (result, buffer', s) ∧
      FillStep F s result s ∧
      (result.state = .Success → buffer' = bytesAt F offset buffer.length) := by
  have hpos := he.pos
  have hle := he.le
  have hsize := h.size_eq
  have hbound := h.size_lt
  have hwaits : FillState.WaitingRemote ≠ .Success := by decide
  have hsmall : s.size ≤ kMaxOnlyInHeader := of_decide_eq_true hf
  have htill : u32 (offset + buffer.length : Nat) = offset + buffer.length := u32_of_lt (by omega)
  have hmissing := Slice.missing_prepareFill (piece_header F) (hsize ▸ hsmall) h.header
    (Nat.lt_add_of_pos_right (n := offset) hpos) (hsize ▸ hle)
  have hfresh : ∀ o ∈ (s.header.prepareFill offset (offset + buffer.length)).offsetsFromLoader.foldl
      (fun offsets full => if full < s.size then stackAdd kLoadFromRemoteMax offsets full
        else offsets) [], s.Fresh o := fun o ho => by
    obtain ⟨hmem, hlt⟩ := (mem_foldl_stackAdd _ [] ho).resolve_left (by simp)
    exact ⟨(hmissing o hmem).1, hlt, fun _ => (hmissing o hmem).2,
      fun hnot => absurd (hnot.symm.trans hf) (by decide)⟩
  have hcopy := Slice.copyLoaded_prepareFill (piece_header F) (hsize ▸ hbound)
    h.header (Nat.lt_add_of_pos_right (n := offset) hpos) (hsize ▸ hle)
  simp only [Slices.fillFromHeader, htill]
  split
  · next hready =>
    rw [hcopy hready buffer]
    refine ⟨_, _, rfl, h.fillStep_self rfl rfl hfresh fun _ => hf, fun _ => ?_⟩
    rw [Nat.zero_add, Nat.add_sub_cancel_left, List.drop_length, List.append_nil]
    rfl
  · exact ⟨_, _, rfl, h.fillStep_self rfl rfl hfresh (fun hnot => absurd hnot hwaits),
      fun hnot => absurd hnot hwaits⟩

section

variable {offset : Nat} {buffer : Bytes} {first : SliceFill}

/-- A reading in one slice. -/
theorem Sound.fillFromData_one (h : s.Sound F) (hread : s.headerRead = true)
    (hf : isFullInHeader s.size = false) (hcovers : s.Covers first)
    (hstart : first.index * kInSlice + first.fromOffset = offset)
    (hfills : s.sliceFills offset buffer.length = some (first, none))
    (hlength : first.till - first.fromOffset = buffer.length) :
    ∃ result buffer' s', s.fillFromData offset buffer = some (result, buffer', s') ∧
      FillStep F s result s' ∧
      (result.state = .Success → buffer' = bytesAt F offset buffer.length) := by
  have hfresh : ∀ o ∈ s.handlePrepareResult first.index first.slice first.prepared [], s.Fresh o :=
    fun o ho => ((h.handlePrepareResult hf hcovers o ho).resolve_left (by simp)).1
  simp only [Slices.fillFromData, hfills, Option.bind_eq_bind, Option.bind_some]
  split
  · next hready =>
    obtain ⟨s1, hcopy, hcopied⟩ := h.copySlice hread hcovers hready buffer
    have hread1 : s1.headerRead = true := hcopied.kept.read.trans hread
    obtain ⟨toCache, s2, hunload, hsound, hkept, hheader, hunloads⟩ :=
      hcopied.sound.serializeAndUnloadUnused hread1
    simp only [hcopy, hunload, Option.bind_some]
    refine ⟨_, _, s2, rfl, hunloads.fillStep hcopied.kept hcopied.data
      (fun hmode => hcopied.header hmode) hcopied.filled rfl hsound hkept hheader rfl hf hfresh,
      fun _ => ?_⟩
    rw [hlength, hstart, List.drop_length, List.append_nil]
    rfl
  · obtain ⟨result, s1, heq, hasked, -, hoffsets, hcache, hstate⟩ :=
      (Asked.refl h).handleReadFromCache
        { offsetsFromLoader :=
            s.handlePrepareResult first.index first.slice first.prepared [] }
        hcovers.slice (by simp) (by simp [kReadFromCacheMax]) (by simp)
    simp only [heq]
    exact ⟨result, buffer, s1, rfl, hasked.fillStep hcache hstate (hoffsets ▸ hfresh),
      fun hsuccess => absurd hsuccess hstate⟩

/-- A reading that goes over a slice border. -/
theorem Sound.fillFromData_two (h : s.Sound F) (hread : s.headerRead = true)
    (hf : isFullInHeader s.size = false) (he : s.Expected offset buffer)
    (hcovers : s.Covers first) (hstart : first.index * kInSlice + first.fromOffset = offset)
    {second : SliceFill} (hfills : s.sliceFills offset buffer.length = some (first, some second))
    (hcovers2 : s.Covers second) (hindex : second.index = first.index + 1)
    (hfrom : second.fromOffset = 0)
    (hborder : second.index * kInSlice = offset + (first.till - first.fromOffset))
    (hlength : first.till - first.fromOffset + second.till = buffer.length) :
    ∃ result buffer' s', s.fillFromData offset buffer = some (result, buffer', s') ∧
      FillStep F s result s' ∧
      (result.state = .Success → buffer' = bytesAt F offset buffer.length) := by
  have hfresh : ∀ o ∈ s.handlePrepareResult second.index second.slice second.prepared
      (s.handlePrepareResult first.index first.slice first.prepared []), s.Fresh o := by
    intro o ho
    cases h.handlePrepareResult hf hcovers2 o ho with
    | inr hnew => exact hnew.1
    | inl hold => exact ((h.handlePrepareResult hf hcovers o hold).resolve_left (by simp)).1
  simp only [Slices.fillFromData, hfills, Option.bind_eq_bind, Option.bind_some]
  split
  · next hready =>
    obtain ⟨hready1, hready2⟩ := Bool.and_eq_true_iff.mp hready
    obtain ⟨s1, hcopy1, hcopied1⟩ := h.copySlice hread hcovers hready1 buffer
    have hcovers2' : s1.Covers second :=
      ⟨by rw [hcopied1.data, hcovers2.slice], hcovers2.lt, hcopied1.kept.size ▸ hcovers2.le⟩
    have hread1 : s1.headerRead = true := hcopied1.kept.read.trans hread
    have hle : offset + (first.till - first.fromOffset) ≤ F.length := by
      have := he.le
      rw [h.size_eq] at this
      omega
    have hlen : ((F.drop (first.index * kInSlice + first.fromOffset)).take
        (first.till - first.fromOffset)).length = first.till - first.fromOffset := by
      rw [hstart]
      exact length_bytesAt hle
    obtain ⟨s2, hcopy2, hcopied2⟩ := hcopied1.sound.copySlice hread1 hcovers2' hready2
      (((F.drop (first.index * kInSlice + first.fromOffset)).take
        (first.till - first.fromOffset) ++ buffer.drop (first.till - first.fromOffset)).drop
          (first.till - first.fromOffset))
    obtain ⟨hsound2, hkept2, hdata2, hheader2, hfilled2⟩ := hcopied1.trans hcopied2
    obtain ⟨toCache, s3, hunload, hsound, hkept, hheader, hunloads⟩ :=
      hsound2.serializeAndUnloadUnused (hkept2.read.trans hread)
    simp only [hcopy1, hcopy2, hunload, Option.bind_some]
    refine ⟨_, _, s3, rfl, hunloads.fillStep hkept2 hdata2 hheader2 hfilled2 rfl hsound hkept
      hheader rfl hf hfresh, fun _ => ?_⟩
    rw [List.take_left' hlen, List.drop_left' hlen, List.drop_drop, hstart, hfrom, Nat.add_zero,
      Nat.sub_zero, hborder, hlength, List.drop_length, List.append_nil]
    exact (bytesAt_add F offset _ _).trans (congrArg (bytesAt F offset) hlength)
  · obtain ⟨result1, s1, heq1, hasked1, hnumbers1, hoffsets1, hcache1, hstate1⟩ :=
      (Asked.refl h).handleReadFromCache
        { offsetsFromLoader :=
            s.handlePrepareResult second.index second.slice second.prepared
              (s.handlePrepareResult first.index first.slice first.prepared []) }
        hcovers.slice (by simp) (by simp [kReadFromCacheMax]) (by simp)
    have hnew : second.index + 1 ∉ result1.sliceNumbersFromCache := by
      cases hnumbers1 with
      | inl heq => simp [heq]
      | inr heq => simp [heq, hindex]
    have hroom : result1.sliceNumbersFromCache.length < kReadFromCacheMax := by
      cases hnumbers1 with
      | inl heq => simp [heq, kReadFromCacheMax]
      | inr heq => simp [heq, kReadFromCacheMax]
    obtain ⟨result2, s2, heq2, hasked2, -, hoffsets2, hcache2, hstate2⟩ :=
      hasked1.handleReadFromCache result1 hcovers2.slice hnew hroom hstate1
    simp only [heq1, heq2]
    exact ⟨result2, buffer, s2, rfl, hasked2.fillStep (hcache2.trans hcache1) hstate2
      (hoffsets2.trans hoffsets1 ▸ hfresh), fun hsuccess => absurd hsuccess hstate2⟩

end

/-- **A reading never fails**, and one that succeeds has the bytes of the file. -/
theorem Sound.fill (h : s.Sound F) {offset : Nat} {buffer : Bytes}
    (he : s.Expected offset buffer) :
    ∃ result buffer' s', s.fill offset buffer = some (result, buffer', s') ∧
      FillStep F s result s' ∧
      (result.state = .Success → s.headerRead = true ∧
        buffer' = bytesAt F offset buffer.length) ∧
      (s.headerRead = false → result = {}) := by
  have hpos := he.pos
  have hle := he.le
  have hexpects : (buffer.isEmpty || decide (offset ≥ s.size) ||
      decide (offset + buffer.length > s.size) || decide (buffer.length > kInSlice)) = false := by
    have hsmall := he.small
    have hne : buffer.isEmpty = false := by
      rw [List.isEmpty_eq_false_iff]
      exact List.ne_nil_of_length_pos hpos
    simp only [hne, Bool.false_or, Bool.or_eq_false_iff, decide_eq_false_iff_not]
    omega
  rw [Slices.fill, hexpects, if_neg Bool.false_ne_true]
  cases hread : s.headerRead with
  | false =>
      have hloading := h.waits hread
      have hwaits : FillState.WaitingRemote ≠ .Success := by decide
      have hnot : s.headerMode ≠ .NoCache ∧ s.header.loadedFromCache = false := by
        rw [headerRead, Bool.or_eq_false_iff, beq_eq_false_iff_ne] at hread
        exact hread
      refine ⟨{}, buffer, s, ?_, h.fillStep_self rfl rfl (by simp) (fun hnot => absurd hnot hwaits),
        fun hnot => absurd hnot hwaits, fun _ => rfl⟩
      simp [hnot, waitingForHeaderCache, hloading]
  | true =>
      have hcond : (decide (s.headerMode ≠ .NoCache) && !s.header.loadedFromCache) = false := by
        cases headerRead_iff.mp hread with
        | inl hmode => simp [hmode]
        | inr hloaded => simp [hloaded]
      rw [hcond, if_neg Bool.false_ne_true]
      cases hf : isFullInHeader s.size with
      | true =>
          rw [if_pos rfl]
          obtain ⟨result, buffer', hsome, hstep, hbytes⟩ := h.fillFromHeader hf he
          exact ⟨result, buffer', s, hsome, hstep, fun hsuccess => ⟨rfl, hbytes hsuccess⟩,
            fun hnot => absurd hnot (by decide)⟩
      | false =>
          rw [if_neg Bool.false_ne_true]
          obtain ⟨first, hcovers, hstart, hcut⟩ := h.cut hf hpos hle he.small
          have hdata : ∃ result buffer' s',
              s.fillFromData offset buffer = some (result, buffer', s') ∧ FillStep F s result s' ∧
              (result.state = .Success → buffer' = bytesAt F offset buffer.length) := by
            cases hcut with
            | one hfills hlength => exact h.fillFromData_one hread hf hcovers hstart hfills hlength
            | two second hfills hcovers2 hindex hfrom hborder hlength =>
                exact h.fillFromData_two hread hf he hcovers hstart hfills hcovers2 hindex hfrom
                  hborder hlength
          obtain ⟨result, buffer', s', hsome, hstep, hbytes⟩ := hdata
          exact ⟨result, buffer', s', hsome, hstep, fun hsuccess => ⟨rfl, hbytes hsuccess⟩,
            fun hnot => absurd hnot (by decide)⟩

end Slices

end Streaming

end MessengerClient
